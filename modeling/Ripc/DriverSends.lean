import Ripc.DriverOwners
import Ripc.Result

namespace Ripc

section

variable {ε α β : Type}

theorem deref_of_get? {t : Table α} {p : Ptr} {a : α} (h : t.get? p = some a) :
    deref t (some p) = .ok a := by
  simp [deref, h]

theorem deref_eq_ok {t : Table α} {o : Option Ptr} {a : α} :
    deref t o = .ok a ↔ ∃ p, o = some p ∧ t.get? p = some a := by
  cases o with
  | none => simp [deref]
  | some p => cases h : t.get? p <;> simp [deref, h]

theorem deref_some {t : Table α} {p : Ptr} {a : α} (h : deref t (some p) = .ok a) :
    t.get? p = some a := by
  obtain ⟨_, hp, ha⟩ := deref_eq_ok.mp h
  cases hp
  exact ha

end

theorem derefSubMem_ok {s : Drv} {m : SubMemPtr} {sub : SubMem} (h : derefSubMem s m = .ok sub) :
    s.subMem? m = some sub := by
  unfold derefSubMem at h
  split at h
  next => cases h
  next hm => cases h; exact hm

theorem isIdValid_iff {id : Int} : isIdValid id = true ↔ 0 ≤ id ∧ id ≤ maxIdValue := by
  simp [isIdValid]

theorem notificationPost_ok {K : Kernel} {s s' : Drv} {sender : NotifSender} {type : NotifType}
    {subMemId senderId reciverId ret : Int} {task : Option Ptr}
    (h : notificationPost K s sender type subMemId senderId reciverId task = .ok (ret, s')) :
    (ret < 0 ∧ s' = s) ∨ (ret = 0 ∧ isIdValid senderId ∧ isIdValid reciverId ∧
      ∃ t, task = some t ∧ t ∈ s.gRegTaskList.keys ∧
        s' = s.enqueue t ⟨sender, type, subMemId, senderId, reciverId⟩) := by
  unfold notificationPost notificationCreate at h
  split at h
  next => cases h; exact Or.inl ⟨by decide, rfl⟩
  next ntf hn =>
    split at hn
    next valid =>
      cases hn
      cases task with
      | none =>
        cases h
        exact Or.inl ⟨by decide, rfl⟩
      | some t =>
        obtain ⟨⟨r, s₁⟩, ha, h⟩ := bind_eq_ok.mp h
        obtain ⟨task, ht, ha⟩ := bind_eq_ok.mp ha
        cases ha
        cases h
        exact Or.inr ⟨rfl, valid.1, valid.2.2.1, t, rfl, Table.mem_keys.mpr ⟨task, deref_some ht⟩, rfl⟩
    next => cases hn

theorem clientId_ok {s : Drv} {o : Option Ptr} {id : Int} (h : clientId s o = .ok id)
    (valid : isIdValid id) : ∃ k cli, o = some k ∧ s.gClientsList.get? k = some cli ∧ cli.id = id := by
  cases o with
  | none => cases h; cases valid
  | some k =>
    obtain ⟨cli, hk, h⟩ := bind_eq_ok.mp h
    cases h
    exact ⟨k, cli, rfl, deref_some hk, rfl⟩

theorem serverId_ok {s : Drv} {o : Option Ptr} {id : Int} (h : serverId s o = .ok id)
    (valid : isIdValid id) : ∃ v srv, o = some v ∧ s.gServersList.get? v = some srv ∧ srv.id = id := by
  cases o with
  | none => cases h; cases valid
  | some v =>
    obtain ⟨srv, hv, h⟩ := bind_eq_ok.mp h
    cases h
    exact ⟨v, srv, rfl, deref_some hv, rfl⟩

theorem clientRegTask_ok {s : Drv} {k t : Ptr} {cli : Client} (hk : s.gClientsList.get? k = some cli)
    (h : clientRegTask s (some k) = .ok (some t)) :
    ∃ e x, cli.taskP = some e ∧ s.clientsEntries.get? e = some x ∧ x.regTask = t := by
  obtain ⟨cli', hk', h⟩ := bind_eq_ok.mp h
  cases (deref_some hk').symm.trans hk
  obtain ⟨x, hx, h⟩ := bind_eq_ok.mp h
  cases h
  obtain ⟨e, he, hx⟩ := deref_eq_ok.mp hx
  exact ⟨e, x, he, hx, rfl⟩

theorem serverRegTask_ok {s : Drv} {v t : Ptr} {srv : Server} (hv : s.gServersList.get? v = some srv)
    (h : serverRegTask s (some v) = .ok (some t)) :
    ∃ e x, srv.taskP = some e ∧ s.serversEntries.get? e = some x ∧ x.regTask = t := by
  obtain ⟨srv', hv', h⟩ := bind_eq_ok.mp h
  cases (deref_some hv').symm.trans hv
  obtain ⟨x, hx, h⟩ := bind_eq_ok.mp h
  cases h
  obtain ⟨e, he, hx⟩ := deref_eq_ok.mp hx
  exact ⟨e, x, he, hx, rfl⟩

/-- `notification_send` reaches exactly the task behind the other side of the connection. -/
theorem notificationSend_ok {K : Kernel} {s s' : Drv} {sender : NotifSender} {type : NotifType}
    {p : Ptr} {ret : Int} (h : notificationSend K s sender type p = .ok (ret, s')) :
    (ret < 0 ∧ s' = s) ∨ (ret = 0 ∧ ∃ t d, s' = s.enqueue t d ∧ Posts s p d t ∧
      d.type = type ∧ d.whoSends = sender) := by
  obtain ⟨c, hc, h⟩ := bind_eq_ok.mp h
  have hc := deref_some hc
  split at h
  next => cases h; exact Or.inl ⟨by decide, rfl⟩
  next m hm =>
    obtain ⟨sub, hsub, h⟩ := bind_eq_ok.mp h
    have hsub := derefSubMem_ok hsub
    cases sender with
    | client =>
      simp only at h
      split at h
      next => cases h; exact Or.inl ⟨by decide, rfl⟩
      next =>
        obtain ⟨senderId, hs, h⟩ := bind_eq_ok.mp h
        obtain ⟨reciverId, hr, h⟩ := bind_eq_ok.mp h
        obtain ⟨task, ht, h⟩ := bind_eq_ok.mp h
        rcases notificationPost_ok h with same | ⟨rfl, validS, validR, t, rfl, live, rfl⟩
        · exact Or.inl same
        · obtain ⟨k, cli, hk, hcli, rfl⟩ := clientId_ok hs validS
          obtain ⟨v, srv, hv, hsrv, rfl⟩ := serverId_ok hr validR
          rw [hv] at ht
          obtain ⟨e, x, he, hx, hxt⟩ := serverRegTask_ok hsrv ht
          exact Or.inr ⟨rfl, t, _, rfl, .toServer hc hm hsub rfl hk hcli hv hsrv he hx rfl rfl rfl hxt live,
            rfl, rfl⟩
    | server =>
      simp only at h
      split at h
      next => cases h; exact Or.inl ⟨by decide, rfl⟩
      next =>
        obtain ⟨senderId, hs, h⟩ := bind_eq_ok.mp h
        obtain ⟨reciverId, hr, h⟩ := bind_eq_ok.mp h
        obtain ⟨task, ht, h⟩ := bind_eq_ok.mp h
        rcases notificationPost_ok h with same | ⟨rfl, validS, validR, t, rfl, live, rfl⟩
        · exact Or.inl same
        · obtain ⟨v, srv, hv, hsrv, rfl⟩ := serverId_ok hs validS
          obtain ⟨k, cli, hk, hcli, rfl⟩ := clientId_ok hr validR
          rw [hk] at ht
          obtain ⟨e, x, he, hx, hxt⟩ := clientRegTask_ok hcli ht
          exact Or.inr ⟨rfl, t, _, rfl, .toClient hc hm hsub rfl hk hcli hv hsrv he hx rfl rfl rfl hxt live,
            rfl, rfl⟩

/-- A notification depends on the connection and its two ends, and on no list. -/
theorem Posts.transfer {s s' : Drv} {p t : Ptr} {d : NotificationData} (h : Posts s p d t)
    (conns : s'.gConnsList = s.gConnsList) (pools : s'.gShmList = s.gShmList)
    (servers : s'.gServersList = s.gServersList) (serversEntries : s'.serversEntries = s.serversEntries)
    (clientsEntries : s'.clientsEntries = s.clientsEntries)
    (tasks : s'.gRegTaskList.keys = s.gRegTaskList.keys)
    (clients : ∀ k cli, s.gClientsList.get? k = some cli →
      ∃ cli', s'.gClientsList.get? k = some cli' ∧ cli'.id = cli.id ∧ cli'.taskP = cli.taskP) :
    Posts s' p d t := by
  cases h with
  | toServer conn mem subMem subId clientP client serverP server entryP entry who sender reciver task live =>
    obtain ⟨cli', hcli', hid, _⟩ := clients _ _ client
    exact .toServer (conns ▸ conn) mem (by rw [Drv.subMem?, pools]; exact subMem) subId clientP hcli' serverP
      (servers ▸ server) entryP (serversEntries ▸ entry) who (sender.trans hid.symm) reciver task (tasks ▸ live)
  | toClient conn mem subMem subId clientP client serverP server entryP entry who sender reciver task live =>
    obtain ⟨cli', hcli', hid, ht⟩ := clients _ _ client
    exact .toClient (conns ▸ conn) mem (by rw [Drv.subMem?, pools]; exact subMem) subId clientP hcli' serverP
      (servers ▸ server) (ht.trans entryP) (clientsEntries ▸ entry) who sender (reciver.trans hid.symm) task
      (tasks ▸ live)

theorem notificationPost_live {K : Kernel} {s : Drv} {t : Ptr} (live : t ∈ s.gRegTaskList.keys) (sender : NotifSender)
    (type : NotifType) (subMemId senderId reciverId : Int) :
    notificationPost K s sender type subMemId senderId reciverId (some t) =
      .ok (if isIdValid senderId ∧ isIdValid subMemId ∧ isIdValid reciverId ∧
        (K.kmalloc (.notif sender) s).isSome then
          (0, s.enqueue t ⟨sender, type, subMemId, senderId, reciverId⟩) else (-EFAULT, s)) := by
  obtain ⟨task, htask⟩ := Table.mem_keys.mp live
  by_cases fit : isIdValid senderId ∧ isIdValid subMemId ∧ isIdValid reciverId ∧
      (K.kmalloc (.notif sender) s).isSome
  · simp only [notificationPost, notificationCreate, if_pos fit, regTaskAddNotification, deref_of_get? htask, ok_bind,
      if_true]
  · simp only [notificationPost, notificationCreate, if_neg fit]

theorem notificationSend_posts {K : Kernel} {s : Drv} {p t : Ptr} {d : NotificationData} (posts : Posts s p d t) :
    notificationSend K s d.whoSends d.type p = .ok (if isIdValid d.senderId ∧ isIdValid d.subMemId ∧
      isIdValid d.reciverId ∧ (K.kmalloc (.notif d.whoSends) s).isSome then (0, s.enqueue t d) else (-EFAULT, s)) := by
  obtain ⟨who, type, x, c, a⟩ := d
  cases posts with
  | toServer hc hm hsub hx hk hcli hv hsrv he hentry who hsender hreciver ht live =>
    simp only at hx hsender hreciver who
    subst hx hsender hreciver ht who
    simp only [notificationSend, deref_of_get? hc, ok_bind, hm, derefSubMem, hsub, hk, hv, Option.isNone_some,
      Bool.false_eq_true, if_false, clientId, serverId, serverRegTask, deref_of_get? hcli, deref_of_get? hsrv, he,
      deref_of_get? hentry, pure, Except.pure]
    exact notificationPost_live live .client type _ _ _
  | toClient hc hm hsub hx hk hcli hv hsrv he hentry who hsender hreciver ht live =>
    simp only at hx hsender hreciver who
    subst hx hsender hreciver ht who
    simp only [notificationSend, deref_of_get? hc, ok_bind, hm, derefSubMem, hsub, hk, hv, Option.isNone_some,
      Bool.false_eq_true, if_false, clientId, serverId, clientRegTask, deref_of_get? hcli, deref_of_get? hsrv, he,
      deref_of_get? hentry, pure, Except.pure]
    exact notificationPost_live live .server type _ _ _

theorem send_of_posts {K : Kernel} {s : Drv} {p t : Ptr} {d : NotificationData} (posts : Posts s p d t)
    (sender : isIdValid d.senderId = true) (subMem : isIdValid d.subMemId = true)
    (reciver : isIdValid d.reciverId = true) (room : (K.kmalloc (.notif d.whoSends) s).isSome = true) :
    notificationSend K s d.whoSends d.type p = .ok (0, s.enqueue t d) := by
  rw [notificationSend_posts posts, if_pos ⟨sender, subMem, reciver, room⟩]

end Ripc

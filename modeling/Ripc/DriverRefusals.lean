import Ripc.DriverSevered
import Ripc.DriverLost

namespace Ripc

def Refuses (answer : Answer) (s : Drv) : Prop := ∃ r, answer = .ok (r, s) ∧ r.ret < 0

/-- The notification cannot be made, though both ends of the connection and the receiving task are there. -/
def Unsent (K : Kernel) (s : Drv) (sender : NotifSender) (p : Ptr) : Prop :=
  ∃ c m sub k cli v srv, s.gConnsList.get? p = some c ∧ c.memP = some m ∧ s.subMem? m = some sub ∧
    c.clientP = some k ∧ s.gClientsList.get? k = some cli ∧ c.serverP = some v ∧ s.gServersList.get? v = some srv ∧
    ¬NoReceiver s c sender ∧
    ¬(isIdValid cli.id ∧ isIdValid sub.id ∧ isIdValid srv.id ∧ (K.kmalloc (.notif sender) s).isSome)

/-- No client with the id in the argument is connected. -/
def ClientIdle (s : Drv) (arg : U32) : Prop :=
  ∀ k cli, findClientById s (unpackId1 arg) = some k → s.gClientsList.get? k = some cli → cli.connP = none

/-- Before anything is changed the connection request runs out of a slot or of memory. -/
def NoRoom (K : Kernel) (s : Drv) : Prop :=
  (findFreeSubmem s = none ∧ K.kmalloc .shm s = none) ∨ (findFreeSubmem s ≠ none ∧ K.kmalloc .conn s = none)

/-- What makes a command about a client or a server fail without effect. -/
def Cmd.Refused (K : Kernel) (s : Drv) : Cmd → Prop
  | .connectToServer con => K.copyFromUser = false ∨ ∃ k cli, findClientById s con.clientId = some k ∧
      s.gClientsList.get? k = some cli ∧ (cli.connP ≠ none ∨
        (findServerByName s con.serverName.toList = .ok none ∧ strlen con.serverName.toList ≠ none) ∨
        ∃ v, findServerByName s con.serverName.toList = .ok (some v) ∧ NoRoom K s)
  | .clientEndWriting arg => ClientIdle s arg ∨ ∃ k cli p, findClientById s (unpackId1 arg) = some k ∧
      s.gClientsList.get? k = some cli ∧ cli.connP = some p ∧ Unsent K s .client p
  | .serverEndWriting arg => findServerById s (unpackId1 arg) = none ∨
      ∃ v f x, findServerById s (unpackId1 arg) = some v ∧
        serverFindConnBySubMemId s v (unpackId2 arg) = .ok (some f) ∧ s.servConns.get? f = some x ∧
        Unsent K s .server x.conn
  | .clientDisconnect arg | .clientUnregister arg => ClientIdle s arg
  | .serverDisconnect arg => ∀ v, findServerById s (unpackId1 arg) = some v →
      serverFindConnBySubMemId s v (unpackId2 arg) = .ok none
  | .serverUnregister arg => findServerById s (unpackId1 arg) = none
  | _ => False

/-- What makes `ipc_mmap` of a client's connection fail without effect: the announcement is not sent or not due,
and the remapping fails. -/
def MapsNothing (K : Kernel) (s : Drv) (p : Ptr) : Prop :=
  K.remapPfnRange < 0 ∧ ∃ c m sub k cli, s.gConnsList.get? p = some c ∧ c.memP = some m ∧ s.subMem? m = some sub ∧
    c.clientP = some k ∧ s.gClientsList.get? k = some cli ∧
    (packIds cli.id sub.id = packError ∨ (c.servMmaped = true ∧ Unsent K s .client p))

/-- What makes `ipc_mmap` fail without effect. -/
def MmapRefused (K : Kernel) (s : Drv) (vmPgoff : U32) : Prop :=
  (∃ k cli, findClientById s (unpackId1 vmPgoff) = some k ∧ s.gClientsList.get? k = some cli ∧
    ∀ p, cli.connP = some p → MapsNothing K s p) ∨
  (findClientById s (unpackId1 vmPgoff) = none ∧ ∀ v, findServerById s (unpackId1 vmPgoff) = some v →
    s.connectionList v = [] ∨ unpackId2 vmPgoff = 0 ∨
      serverFindConnBySubMemId s v (unpackId2 vmPgoff) = .ok none ∨ K.remapPfnRange < 0)

section

variable {K : Kernel} {s s' : Drv} {p t : Ptr}

theorem refuses_returns {ret : Int} : Refuses (returns ret s) s ↔ ret < 0 := by
  constructor
  · rintro ⟨r, h, neg⟩
    cases h
    exact neg
  · exact fun neg => ⟨_, rfl, neg⟩

theorem enqueue_ne {d : NotificationData} (live : t ∈ s.gRegTaskList.keys) :
    (s.enqueue t d).gRegTaskList ≠ s.gRegTaskList := by
  intro h
  obtain ⟨task, ht⟩ := Table.mem_keys.mp live
  have count := congrArg (fun tasks : Table RegTask => (tasks.get? t).map RegTask.numOfNotif) h
  simp only [Drv.enqueue, Table.get?_modify, ht, RegTask.enqueue, if_true, Option.map_some, Option.some.injEq] at count
  omega

theorem notificationPost_refuses {sender : NotifSender} {type : NotifType} {a b d : Int}
    (live : t ∈ s.gRegTaskList.keys) :
    (∃ ret, notificationPost K s sender type a b d (some t) = .ok (ret, s) ∧ ret < 0) ↔
      ¬(isIdValid b ∧ isIdValid a ∧ isIdValid d ∧ (K.kmalloc (.notif sender) s).isSome) := by
  obtain ⟨task, ht⟩ := Table.mem_keys.mp live
  unfold notificationPost notificationCreate
  split
  next hn =>
    split at hn
    next => cases hn
    next invalid => exact ⟨fun _ => invalid, fun _ => ⟨_, rfl, by decide⟩⟩
  next ntf hn =>
    split at hn
    next valid =>
      refine ⟨?_, fun h => absurd valid h⟩
      rintro ⟨ret, h, neg⟩
      simp only [regTaskAddNotification, deref_of_get? ht, ok_bind, Except.ok.injEq, Prod.mk.injEq] at h
      exact absurd (congrArg Drv.gRegTaskList h.2) (enqueue_ne live)
    next => cases hn

theorem notificationSend_refuses {sender : NotifSender} {type : NotifType} (wf : Wf s) :
    (∃ ret, notificationSend K s sender type p = .ok (ret, s) ∧ ret < 0) ↔ Unsent K s sender p := by
  have ends : ∀ {c m sub k cli v srv}, s.gConnsList.get? p = some c → c.memP = some m → s.subMem? m = some sub →
      c.clientP = some k → s.gClientsList.get? k = some cli → c.serverP = some v → s.gServersList.get? v = some srv →
      ¬NoReceiver s c sender → ((∃ ret, notificationSend K s sender type p = .ok (ret, s) ∧ ret < 0) ↔
        ¬(isIdValid cli.id ∧ isIdValid sub.id ∧ isIdValid srv.id ∧ (K.kmalloc (.notif sender) s).isSome)) := by
    intro c m sub k cli v srv hc hm hsub hk hcli hv hsrv receiver
    simp only [notificationSend, deref_of_get? hc, ok_bind, hm, derefSubMem, hsub, hk, hv]
    cases sender with
    | client =>
      obtain ⟨e, he⟩ := Option.ne_none_iff_exists'.mp fun none => receiver ⟨v, srv, hv, hsrv, none⟩
      obtain ⟨x, hx, _⟩ := wf.servers.entry v srv e hsrv he
      simp only [clientId, serverId, serverRegTask, deref_of_get? hcli, deref_of_get? hsrv, he, deref_of_get? hx,
        ok_bind, Option.isNone_some, Bool.false_eq_true, if_false]
      exact notificationPost_refuses (wf.servers.live e x hx)
    | server =>
      obtain ⟨e, he⟩ := Option.ne_none_iff_exists'.mp fun none => receiver ⟨k, cli, hk, hcli, none⟩
      obtain ⟨x, hx, _⟩ := wf.clients.entry k cli e hcli he
      simp only [clientId, serverId, clientRegTask, deref_of_get? hcli, deref_of_get? hsrv, he, deref_of_get? hx,
        ok_bind, Option.isNone_some, Bool.false_eq_true, if_false]
      refine (notificationPost_refuses (wf.clients.live e x hx)).trans (not_congr ?_)
      tauto
  constructor
  · rintro ⟨ret, h, neg⟩
    obtain ⟨c, hc, _⟩ := bind_eq_ok.mp h
    have hc := deref_some hc
    obtain ⟨hm, hk, hv⟩ := wf.full hc
    obtain ⟨kept, receiver⟩ := notificationSend_sides h hc hm hk hv
    obtain ⟨m, hm⟩ := Option.ne_none_iff_exists'.mp hm
    obtain ⟨k, hk⟩ := Option.ne_none_iff_exists'.mp hk
    obtain ⟨v, hv⟩ := Option.ne_none_iff_exists'.mp hv
    obtain ⟨sub, hsub⟩ := (wf.ends hc).mem m hm
    obtain ⟨cli, hcli, _⟩ := (wf.ends hc).client k hk
    obtain ⟨srv, hsrv⟩ := Option.ne_none_iff_exists'.mp fun none => kept ⟨v, hv, none⟩
    exact ⟨c, m, sub, k, cli, v, srv, hc, hm, hsub, hk, hcli, hv, hsrv, receiver,
      (ends hc hm hsub hk hcli hv hsrv receiver).mp ⟨ret, h, neg⟩⟩
  · rintro ⟨c, m, sub, k, cli, v, srv, hc, hm, hsub, hk, hcli, hv, hsrv, receiver, unmade⟩
    exact (ends hc hm hsub hk hcli hv hsrv receiver).mpr unmade

theorem teardown_gone {ds : List (Ptr × NotificationData)} (ev : s.event (.teardown p ds) s') :
    p ∈ s.gConnsList.keys ∧ p ∉ s'.gConnsList.keys := by
  obtain ⟨⟨live, _⟩, rfl⟩ := ev
  refine ⟨live, fun h => ?_⟩
  rw [Drv.apply, Drv.unlink, Table.keys_erase] at h
  simpa using (List.mem_filter.mp h).2

theorem teardown_ne {ds : List (Ptr × NotificationData)} (ev : s.event (.teardown p ds) s') : s' ≠ s := by
  rintro rfl
  obtain ⟨live, gone⟩ := teardown_gone ev
  exact gone live

theorem gainsPool_ne (gains : s.GainsPool K p s') : s' ≠ s := by
  rintro rfl
  obtain ⟨shm, ⟨⟨fresh, _⟩, same⟩, _⟩ := gains
  refine fresh ?_
  rw [same, Drv.apply, Drv.addPool, takeIds_frame, Table.keys_pushFront fresh]
  exact List.mem_cons_self

theorem clientIdle_found {arg : U32} {k : Ptr} {cli : Client} (hk : findClientById s (unpackId1 arg) = some k)
    (hcli : s.gClientsList.get? k = some cli) : ClientIdle s arg ↔ cli.connP = none := by
  constructor
  · exact fun h => h k cli hk hcli
  · intro h k' cli' hk' hcli'
    cases hk.symm.trans hk'
    cases hcli.symm.trans hcli'
    exact h

theorem clientIdle_none {arg : U32} (hk : findClientById s (unpackId1 arg) = none) : ClientIdle s arg := by
  intro k cli h
  rw [hk] at h
  cases h

theorem endWriting_refuses {sender : NotifSender} {type : NotifType} (wf : Wf s) :
    Refuses (do
      let (ret, s) ← notificationSend K s sender type p
      returns ret s) s ↔ Unsent K s sender p := by
  rw [← notificationSend_refuses wf]
  constructor
  · rintro ⟨r, h, neg⟩
    obtain ⟨⟨ret, s₁⟩, hs, h⟩ := bind_eq_ok.mp h
    cases h
    exact ⟨_, hs, neg⟩
  · rintro ⟨ret, hs, neg⟩
    exact ⟨⟨ret, .nothing⟩, by rw [hs]; rfl, neg⟩

theorem clientEndWriting_refuses {arg : U32} (wf : Wf s) :
    Refuses (clientEndWriting K s arg) s ↔ (Cmd.clientEndWriting arg).Refused K s := by
  unfold clientEndWriting Cmd.Refused
  cases hk : findClientById s (unpackId1 arg) with
  | none =>
    simp only [findClientByIdPid, hk]
    exact ⟨fun _ => Or.inl (clientIdle_none hk), fun _ => refuses_returns.mpr (by decide)⟩
  | some k =>
    obtain ⟨cli, hcli, _⟩ := findClientById_some hk
    simp only [findClientByIdPid, hk, deref_of_get? hcli, ok_bind, clientIdle_found hk hcli]
    cases hp : cli.connP with
    | none => exact ⟨fun _ => Or.inl rfl, fun _ => refuses_returns.mpr (by decide)⟩
    | some p =>
      obtain ⟨c, hc, _⟩ := wf.links.clientConn k cli p hcli hp
      obtain ⟨v, hv⟩ := Option.ne_none_iff_exists'.mp (wf.full hc).2.2
      simp only [deref_of_get? hc, ok_bind, hv, Option.isNone_some, Bool.false_eq_true, if_false]
      rw [endWriting_refuses wf]
      constructor
      · exact fun h => Or.inr ⟨k, cli, p, rfl, hcli, hp, h⟩
      · rintro (h | ⟨k', cli', p', hk', hcli', hp', h⟩)
        · cases h
        · cases hk'
          cases hcli.symm.trans hcli'
          cases hp.symm.trans hp'
          exact h

theorem clientDisconnect_refuses {arg : U32} (wf : Wf s) :
    Refuses (clientDisconnect K s arg) s ↔ ClientIdle s arg := by
  unfold clientDisconnect
  cases hk : findClientById s (unpackId1 arg) with
  | none => exact ⟨fun _ => clientIdle_none hk, fun _ => refuses_returns.mpr (by decide)⟩
  | some k =>
    obtain ⟨cli, hcli, _⟩ := findClientById_some hk
    simp only [deref_of_get? hcli, ok_bind, clientIdle_found hk hcli]
    cases hp : cli.connP with
    | none => exact ⟨fun _ => rfl, fun _ => refuses_returns.mpr (by decide)⟩
    | some p =>
      constructor
      · rintro ⟨r, h, _⟩
        obtain ⟨⟨ret, s₁⟩, hs, h⟩ := bind_eq_ok.mp h
        obtain ⟨s₂, hc, h⟩ := bind_eq_ok.mp h
        cases h
        obtain ⟨ds, ev⟩ := disconnectClient_ok wf hcli hp hs hc
        exact absurd rfl (teardown_ne ev)
      · intro h
        cases h

theorem clientUnregister_refuses {arg : U32} (wf : Wf s) :
    Refuses (clientUnregister K s arg) s ↔ ClientIdle s arg := by
  unfold clientUnregister
  cases hk : findClientById s (unpackId1 arg) with
  | none => exact ⟨fun _ => clientIdle_none hk, fun _ => refuses_returns.mpr (by decide)⟩
  | some k =>
    obtain ⟨cli, hcli, _⟩ := findClientById_some hk
    simp only [deref_of_get? hcli, ok_bind, clientIdle_found hk hcli]
    cases hp : cli.connP with
    | none => exact ⟨fun _ => rfl, fun _ => refuses_returns.mpr (by decide)⟩
    | some p =>
      constructor
      · rintro ⟨r, h, _⟩
        obtain ⟨⟨ret, s₁⟩, hs, h⟩ := bind_eq_ok.mp h
        obtain ⟨s₂, hc, h⟩ := bind_eq_ok.mp h
        obtain ⟨cli', hcli', h⟩ := bind_eq_ok.mp h
        obtain ⟨s₃, hd, h⟩ := bind_eq_ok.mp h
        cases h
        obtain ⟨ds, ev⟩ := disconnectClient_ok wf hcli hp hs hc
        have conns : s.gConnsList = s₂.gConnsList := by
          cases ht : cli'.taskP with
          | none =>
            rw [ht] at hd
            cases hd
            rfl
          | some e =>
            rw [ht] at hd
            obtain ⟨_, _, _, _, same⟩ := regTaskDeleteClient_ok hd
            have kept := congrArg Drv.gConnsList same
            exact kept
        obtain ⟨live, gone⟩ := teardown_gone ev
        rw [conns] at live
        exact absurd live gone
      · intro h
        cases h

theorem serverDisconnect_refuses {arg : U32} (wf : Wf s) :
    Refuses (serverDisconnect K s arg) s ↔ (Cmd.serverDisconnect arg).Refused K s := by
  unfold Cmd.Refused
  cases hv : findServerById s (unpackId1 arg) with
  | none =>
    simp only [serverDisconnect, hv]
    exact ⟨fun _ v h => (by cases h), fun _ => refuses_returns.mpr (by decide)⟩
  | some v =>
    cases hf : serverFindConnBySubMemId s v (unpackId2 arg) with
    | error e => exact absurd hf (serverFindConnBySubMemId_error wf)
    | ok o =>
      simp only [serverDisconnect, hv, hf, ok_bind]
      cases o with
      | none => exact ⟨fun _ w h => Option.some.inj h ▸ hf, fun _ => refuses_returns.mpr (by decide)⟩
      | some f =>
        obtain ⟨x, hx, hxv⟩ := serverFindConnBySubMemId_some hf
        obtain ⟨c, hc, _⟩ := wf.links.entryConn f x hx
        obtain ⟨k, hk⟩ := Option.ne_none_iff_exists'.mp (wf.full hc).2.1
        simp only [deref_of_get? hx, deref_of_get? hc, ok_bind, hk, Option.isNone_some, Bool.false_eq_true, if_false]
        constructor
        · rintro ⟨r, h, _⟩
          obtain ⟨⟨ret, s₁⟩, hs, h⟩ := bind_eq_ok.mp h
          obtain ⟨s₂, hclean, h⟩ := bind_eq_ok.mp h
          cases h
          obtain ⟨ds, ev⟩ := disconnectServer_ok wf hx hxv hs hclean
          exact absurd rfl (teardown_ne ev)
        · intro h
          cases hf.symm.trans (h v rfl)

theorem serverEndWriting_refuses {arg : U32} (wf : Wf s) :
    Refuses (serverEndWriting K s arg) s ↔ (Cmd.serverEndWriting arg).Refused K s := by
  unfold Cmd.Refused
  cases hv : findServerById s (unpackId1 arg) with
  | none =>
    simp only [serverEndWriting, hv]
    exact ⟨fun _ => Or.inl trivial, fun _ => refuses_returns.mpr (by decide)⟩
  | some v =>
    cases hf : serverFindConnBySubMemId s v (unpackId2 arg) with
    | error e => exact absurd hf (serverFindConnBySubMemId_error wf)
    | ok o =>
      simp only [serverEndWriting, hv, hf, ok_bind]
      cases o with
      | none =>
        constructor
        · rintro ⟨r, h, _⟩
          cases h
        · rintro (h | ⟨w, f, x, hw, hfind, _⟩)
          · cases h
          · cases hw
            cases hf.symm.trans hfind
      | some f =>
        obtain ⟨x, hx, _⟩ := serverFindConnBySubMemId_some hf
        obtain ⟨c, hc, _⟩ := wf.links.entryConn f x hx
        obtain ⟨k, hk⟩ := Option.ne_none_iff_exists'.mp (wf.full hc).2.1
        simp only [deref_of_get? hx, deref_of_get? hc, ok_bind, hk, Option.isNone_some, Bool.false_eq_true, if_false]
        rw [endWriting_refuses wf]
        constructor
        · exact fun h => Or.inr ⟨v, f, x, rfl, hf, hx, h⟩
        · rintro (h | ⟨w, f', x', hw, hfind, hx', h⟩)
          · cases h
          · cases hw
            cases hf.symm.trans hfind
            cases hx.symm.trans hx'
            exact h

theorem serverUnregister_refuses {arg : U32} :
    Refuses (serverUnregister K s arg) s ↔ findServerById s (unpackId1 arg) = none := by
  constructor
  · rintro ⟨r, h, neg⟩
    by_contra found
    obtain ⟨v, hv⟩ := Option.ne_none_iff_exists'.mp found
    simp only [serverUnregister, hv] at h
    obtain ⟨s₁, _, h⟩ := bind_eq_ok.mp h
    obtain ⟨srv, _, h⟩ := bind_eq_ok.mp h
    obtain ⟨s₂, _, h⟩ := bind_eq_ok.mp h
    cases h
    exact absurd neg (by decide)
  · intro gone
    simp only [serverUnregister, gone]
    exact refuses_returns.mpr (by decide)

theorem connectClientToServer_refuses {v k : Ptr} :
    (∃ ret, connectClientToServer K s v k = .ok (ret, s) ∧ ret < 0) ↔ NoRoom K s := by
  constructor
  · rintro ⟨ret, h, neg⟩
    obtain ⟨⟨o, s₁⟩, hf, hr⟩ := bind_eq_ok.mp h
    by_cases short : o = none ∨ K.kmalloc .conn s₁ = none
    · rw [connectClientToServer_refused hf short] at h
      cases h
      rcases getFreeSubmem_ok hf with ⟨_, ho, memory⟩ | ⟨p, gains, _⟩
      · by_cases full : findFreeSubmem s = none
        · exact Or.inl ⟨full, memory (ho.trans full)⟩
        · exact Or.inr ⟨full, short.resolve_left fun none => full (ho.symm.trans none)⟩
      · exact absurd rfl (gainsPool_ne gains)
    · -- a connection that is made is answered with 0
      obtain ⟨hm, hp⟩ := not_or.mp short
      obtain ⟨m, rfl⟩ := Option.ne_none_iff_exists'.mp hm
      obtain ⟨p, hp⟩ := Option.ne_none_iff_exists'.mp hp
      simp only [createConnection, hp] at hr
      obtain ⟨s₂, _, hr⟩ := bind_eq_ok.mp hr
      obtain ⟨s₃, _, hr⟩ := bind_eq_ok.mp hr
      cases hr
      exact absurd neg (by decide)
  · rintro (⟨full, memory⟩ | ⟨free, memory⟩)
    · have hf : getFreeSubmem K s = .ok (none, s) := by
        simp only [getFreeSubmem, full, shmCreate, memory, ok_bind]
      exact ⟨-ENOMEM, connectClientToServer_refused hf (Or.inl rfl), by decide⟩
    · obtain ⟨m, hm⟩ := Option.ne_none_iff_exists'.mp free
      have hf : getFreeSubmem K s = .ok (some m, s) := by rw [getFreeSubmem, hm]
      exact ⟨-ENOMEM, connectClientToServer_refused hf (Or.inr memory), by decide⟩

theorem connectToServer_refuses {con : ConnectToServer} :
    Refuses (connectToServer K s con) s ↔ (Cmd.connectToServer con).Refused K s := by
  have case := connectToServer_case K s con
  generalize connectToServer K s con = a at case
  have one : ∀ {k cli} {P : Ptr → Client → Prop}, findClientById s con.clientId = some k →
      s.gClientsList.get? k = some cli →
      ((∃ k cli, findClientById s con.clientId = some k ∧ s.gClientsList.get? k = some cli ∧ P k cli) ↔ P k cli) := by
    intro k cli P hk hcli
    constructor
    · rintro ⟨k', cli', hk', hcli', hp⟩
      cases hk.symm.trans hk'
      cases hcli.symm.trans hcli'
      exact hp
    · exact fun hp => ⟨k, cli, hk, hcli, hp⟩
  cases case with
  | notCopied copy => exact ⟨fun _ => Or.inl copy, fun _ => refuses_returns.mpr (by decide)⟩
  | noClient copy hk =>
    refine iff_of_false (fun ⟨r, h, _⟩ => by cases h) ?_
    simp [Cmd.Refused, copy, hk]
  | connected copy hk hcli connected =>
    refine iff_of_true (refuses_returns.mpr (by decide)) (Or.inr ?_)
    exact (one hk hcli).mpr (Or.inl connected)
  | faultyName copy hk hcli free hf =>
    refine iff_of_false (fun ⟨r, h, _⟩ => by cases h) ?_
    rw [Cmd.Refused, one hk hcli]
    simp [copy, free, hf]
  | endlessName copy hk hcli free hf len =>
    refine iff_of_false (fun ⟨r, h, _⟩ => by cases h) ?_
    rw [Cmd.Refused, one hk hcli]
    simp [copy, free, hf, len]
  | noServer copy hk hcli free hf len =>
    refine iff_of_true (refuses_returns.mpr (by decide)) (Or.inr ?_)
    exact (one hk hcli).mpr (Or.inr (Or.inl ⟨hf, len⟩))
  | @asks k cli v copy hk hcli free hf =>
    rw [Cmd.Refused, one hk hcli]
    constructor
    · rintro ⟨r, h, neg⟩
      obtain ⟨⟨ret, s₁⟩, hc, h⟩ := bind_eq_ok.mp h
      cases h
      exact Or.inr (Or.inr (Or.inr ⟨v, hf, connectClientToServer_refuses.mp ⟨_, hc, neg⟩⟩))
    · intro refused
      have room : NoRoom K s := by simpa [copy, free, hf] using refused
      obtain ⟨ret, hc, neg⟩ := (connectClientToServer_refuses (v := v) (k := k)).mpr room
      exact ⟨⟨ret, .nothing⟩, by rw [hc]; rfl, neg⟩

theorem mmapFound_refuses {c : Connection} {m : SubMemPtr} {sub : SubMem} (hc : s.gConnsList.get? p = some c)
    (hm : c.memP = some m) (hsub : s.subMem? m = some sub) {s₀ : Drv} :
    (∃ r, mmapFound K s p = .ok (r, s₀) ∧ r.ret < 0) ↔ s = s₀ ∧ K.remapPfnRange < 0 := by
  simp only [mmapFound, deref_of_get? hc, ok_bind, hm, derefSubMem, hsub, Except.ok.injEq, Prod.mk.injEq]
  constructor
  · rintro ⟨r, ⟨rfl, same⟩, neg⟩
    exact ⟨same, neg⟩
  · rintro ⟨same, neg⟩
    exact ⟨_, ⟨rfl, same⟩, neg⟩

theorem mmaped_same {c : Connection} (hc : s.gConnsList.get? p = some c) :
    s.apply (.mmaped p) = s ↔ c.servMmaped = true := by
  constructor
  · intro same
    have marked := congrArg (fun s : Drv => (s.gConnsList.get? p).map Connection.servMmaped) same
    simp only [Drv.apply, Table.get?_modify, if_true, hc, Option.map_some, Option.some.injEq] at marked
    exact marked.symm
  · intro marked
    have kept : (s.gConnsList.modify p fun c => { c with servMmaped := true }) = s.gConnsList := by
      refine Table.mapAt_eq_self fun q d hd => ?_
      split
      next he =>
        subst he
        cases hc.symm.trans hd
        rw [← marked]
      next => rfl
    rw [Drv.apply, kept]

theorem mmapClient_refuses {k : Ptr} {cli : Client} (wf : Wf s) (hcli : s.gClientsList.get? k = some cli) :
    Refuses (mmapClient K s k) s ↔ ∀ p, cli.connP = some p → MapsNothing K s p := by
  simp only [mmapClient, deref_of_get? hcli, ok_bind]
  cases hp : cli.connP with
  | none => exact ⟨fun _ p h => (by cases h), fun _ => refuses_returns.mpr (by decide)⟩
  | some p =>
    obtain ⟨c, hc, hk⟩ := wf.links.clientConn k cli p hcli hp
    obtain ⟨m, hm⟩ := Option.ne_none_iff_exists'.mp (wf.full hc).1
    obtain ⟨sub, hsub⟩ := (wf.ends hc).mem m hm
    have one : (∀ q, some p = some q → MapsNothing K s q) ↔ K.remapPfnRange < 0 ∧
        (packIds cli.id sub.id = packError ∨ (c.servMmaped = true ∧ Unsent K s .client p)) := by
      constructor
      · intro h
        obtain ⟨neg, c', m', sub', k', cli', hc', hm', hsub', hk', hcli', silent⟩ := h p rfl
        cases hc.symm.trans hc'
        cases hm.symm.trans hm'
        cases hsub.symm.trans hsub'
        cases hk.symm.trans hk'
        cases hcli.symm.trans hcli'
        exact ⟨neg, silent⟩
      · rintro ⟨neg, silent⟩ q hq
        cases hq
        exact ⟨neg, c, m, sub, k, cli, hc, hm, hsub, hk, hcli, silent⟩
    rw [one]
    simp only [deref_of_get? hc, ok_bind, hm, derefSubMem, hsub]
    by_cases pack : packIds cli.id sub.id = packError
    · rw [if_pos pack]
      refine (mmapFound_refuses hc hm hsub).trans ⟨fun h => ⟨h.2, Or.inl pack⟩, fun h => ⟨rfl, h.1⟩⟩
    · rw [if_neg pack]
      have found : ∀ s₁ : Drv, s₁.gConnsList = s.gConnsList → s₁.gShmList = s.gShmList →
          ((∃ r, mmapFound K (s₁.apply (.mmaped p)) p = .ok (r, s) ∧ r.ret < 0) ↔
            s₁.apply (.mmaped p) = s ∧ K.remapPfnRange < 0) := by
        intro s₁ conns pools
        have live : (s₁.apply (.mmaped p)).gConnsList.get? p = some { c with servMmaped := true } := by
          simp [Drv.apply, Table.get?_modify, conns, hc]
        have mapped : (s₁.apply (.mmaped p)).subMem? m = some sub := by
          rw [← hsub]
          exact congrArg (subMemAt · m) pools
        exact mmapFound_refuses live hm mapped
      constructor
      · rintro ⟨r, h, neg⟩
        obtain ⟨srv, _, h⟩ := bind_eq_ok.mp h
        obtain ⟨⟨ret, s₁⟩, hs, h⟩ := bind_eq_ok.mp h
        rcases notificationSend_ok hs with ⟨failed, rfl⟩ | ⟨_, t, d, rfl, posts, _⟩
        · obtain ⟨same, neg⟩ := (found _ rfl rfl).mp ⟨r, h, neg⟩
          exact ⟨neg, Or.inr ⟨(mmaped_same hc).mp same, (notificationSend_refuses wf).mp ⟨ret, hs, failed⟩⟩⟩
        · obtain ⟨same, _⟩ := (found (s.enqueue t d) rfl rfl).mp ⟨r, h, neg⟩
          have live : t ∈ s.gRegTaskList.keys := by cases posts <;> assumption
          exact absurd (congrArg Drv.gRegTaskList same) (enqueue_ne live)
      · rintro ⟨neg, h | ⟨marked, unsent⟩⟩
        · exact absurd h pack
        · obtain ⟨ret, hs, _⟩ : ∃ ret, notificationSend K s .client .newConnection p = .ok (ret, s) ∧ ret < 0 :=
            (notificationSend_refuses wf).mpr unsent
          obtain ⟨c', _, _, _, _, v, srv, hc', _, _, _, _, hv, hsrv, _⟩ := unsent
          cases hc.symm.trans hc'
          obtain ⟨r, h, neg⟩ := (found s rfl rfl).mpr ⟨(mmaped_same hc).mpr marked, neg⟩
          refine ⟨r, ?_, neg⟩
          rw [hv, deref_of_get? hsrv, hs]
          exact h

theorem mmapServer_refuses {v : Ptr} {subId : Int} (wf : Wf s) : Refuses (mmapServer K s v subId) s ↔
    s.connectionList v = [] ∨ subId = 0 ∨ serverFindConnBySubMemId s v subId = .ok none ∨ K.remapPfnRange < 0 := by
  unfold mmapServer
  by_cases empty : s.connectionList v = []
  · rw [if_pos (by simp [empty])]
    exact ⟨fun _ => Or.inl empty, fun _ => refuses_returns.mpr (by decide)⟩
  rw [if_neg (by simp [empty])]
  by_cases zero : subId = 0
  · rw [if_pos zero]
    exact ⟨fun _ => Or.inr (Or.inl zero), fun _ => refuses_returns.mpr (by decide)⟩
  rw [if_neg zero]
  cases hf : serverFindConnBySubMemId s v subId with
  | error e => exact absurd hf (serverFindConnBySubMemId_error wf)
  | ok o =>
    cases o with
    | none => exact ⟨fun _ => Or.inr (Or.inr (Or.inl rfl)), fun _ => refuses_returns.mpr (by decide)⟩
    | some f =>
      obtain ⟨x, hx, _⟩ := serverFindConnBySubMemId_some hf
      obtain ⟨c, hc, _⟩ := wf.links.entryConn f x hx
      obtain ⟨m, hm⟩ := Option.ne_none_iff_exists'.mp (wf.full hc).1
      obtain ⟨sub, hsub⟩ := (wf.ends hc).mem m hm
      simp only [ok_bind, deref_of_get? hx]
      refine (mmapFound_refuses hc hm hsub).trans ⟨fun h => Or.inr (Or.inr (Or.inr h.2)), ?_⟩
      rintro (h | h | h | h)
      · exact absurd h empty
      · exact absurd h zero
      · cases h
      · exact ⟨rfl, h⟩

theorem ipcMmap_refuses {vmPgoff : U32} (wf : Wf s) : Refuses (ipcMmap K s vmPgoff) s ↔ MmapRefused K s vmPgoff := by
  unfold ipcMmap MmapRefused
  cases hk : findClientById s (unpackId1 vmPgoff) with
  | some k =>
    obtain ⟨cli, hcli, _⟩ := findClientById_some hk
    simp only [findClientByIdPid, hk]
    rw [mmapClient_refuses wf hcli]
    constructor
    · exact fun h => Or.inl ⟨k, cli, rfl, hcli, h⟩
    · rintro (⟨k', cli', hk', hcli', h⟩ | ⟨h, _⟩)
      · cases hk'
        cases hcli.symm.trans hcli'
        exact h
      · cases h
  | none =>
    simp only [findClientByIdPid, hk]
    cases hv : findServerById s (unpackId1 vmPgoff) with
    | none => exact ⟨fun _ => Or.inr ⟨trivial, fun v h => by cases h⟩, fun _ => refuses_returns.mpr (by decide)⟩
    | some v =>
      refine (mmapServer_refuses wf).trans ⟨fun h => Or.inr ⟨trivial, fun w hw => Option.some.inj hw ▸ h⟩, ?_⟩
      rintro (⟨_, _, h, _⟩ | ⟨_, h⟩)
      · cases h
      · exact h v rfl

end

end Ripc

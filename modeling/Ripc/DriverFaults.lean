import Ripc.DriverSteps

namespace Ripc

section

variable {ε α β : Type}

theorem deref_eq_error {t : Table α} {o : Option Ptr} {e : Fault} : deref t o = .error e ↔
    (o = none ∧ e = .nullDeref) ∨ ∃ p, o = some p ∧ t.get? p = none ∧ e = .useAfterFree := by
  cases o with
  | none => simp [deref, eq_comm]
  | some p => cases h : t.get? p <;> simp [deref, h, eq_comm]

end

/-- What it takes to reach both tasks behind a connection, short of their being there at all. -/
structure EndsOk (s : Drv) (c : Connection) : Prop where
  mem : ∀ m, c.memP = some m → ∃ sub, s.subMem? m = some sub
  client : ∀ k, c.clientP = some k → ∃ cli, s.gClientsList.get? k = some cli ∧
    ∀ e, cli.taskP = some e → ∃ x, s.clientsEntries.get? e = some x ∧ x.regTask ∈ s.gRegTaskList.keys
  server : ∀ v srv, c.serverP = some v → s.gServersList.get? v = some srv →
    ∀ e, srv.taskP = some e → ∃ x, s.serversEntries.get? e = some x ∧ x.regTask ∈ s.gRegTaskList.keys

/-- The other side of the connection belongs to no task. -/
def NoReceiver (s : Drv) (c : Connection) : NotifSender → Prop
  | .client => ∃ v srv, c.serverP = some v ∧ s.gServersList.get? v = some srv ∧ srv.taskP = none
  | .server => ∃ k cli, c.clientP = some k ∧ s.gClientsList.get? k = some cli ∧ cli.taskP = none

/-- A side of the connection belongs to no task. -/
def Unowned (s : Drv) (c : Connection) : Prop := NoReceiver s c .client ∨ NoReceiver s c .server

/-- The connection outlived its server. -/
def ServerLost (s : Drv) (c : Connection) : Prop := ∃ v, c.serverP = some v ∧ s.gServersList.get? v = none

/-- Why handling a connection faults. -/
def Blame (s : Drv) (c : Connection) (e : Fault) : Prop :=
  (e = .nullDeref ∧ Unowned s c) ∨ (e = .useAfterFree ∧ ServerLost s c)

theorem Wf.ends {s : Drv} (wf : Wf s) {p : Ptr} {c : Connection} (hc : s.gConnsList.get? p = some c) :
    EndsOk s c := by
  refine ⟨fun m hm => ?_, fun k hk => ?_, fun v srv _ hsrv e he => ?_⟩
  · obtain ⟨sub, hsub, _⟩ := wf.links.connMem p c m hc hm
    exact ⟨sub, hsub⟩
  · obtain ⟨cli, hcli, _⟩ := wf.links.connClient p c k hc hk
    refine ⟨cli, hcli, fun e he => ?_⟩
    obtain ⟨x, hx, _⟩ := wf.clients.entry k cli e hcli he
    exact ⟨x, hx, wf.clients.live e x hx⟩
  · obtain ⟨x, hx, _⟩ := wf.servers.entry v srv e hsrv he
    exact ⟨x, hx, wf.servers.live e x hx⟩

theorem EndsOk.enqueueAll {s : Drv} {c : Connection} (h : EndsOk s c)
    (ds : List (Ptr × NotificationData)) : EndsOk (s.enqueueAll ds) c := by
  rw [enqueueAll_eq]
  refine ⟨h.mem, ?_, ?_⟩
  · simpa only [keys_postAll] using h.client
  · simpa only [keys_postAll] using h.server

section

variable {K : Kernel} {s : Drv} {c : Connection} {e : Fault}

theorem clientId_error {o : Option Ptr} (live : ∀ k, o = some k → ∃ cli, s.gClientsList.get? k = some cli) :
    clientId s o ≠ .error e := by
  intro h
  cases o with
  | none => cases h
  | some k =>
    obtain ⟨cli, hk⟩ := live k rfl
    simp only [clientId, deref_of_get? hk] at h
    cases h

theorem serverId_error {o : Option Ptr} (h : serverId s o = .error e) :
    ∃ v, o = some v ∧ s.gServersList.get? v = none ∧ e = .useAfterFree := by
  cases o with
  | none => cases h
  | some v =>
    rcases bind_eq_error.mp h with h | ⟨srv, _, h⟩
    · rcases deref_eq_error.mp h with ⟨he, _⟩ | lost
      · cases he
      · exact lost
    · cases h

theorem clientRegTask_error (ends : EndsOk s c) (h : clientRegTask s c.clientP = .error e) :
    e = .nullDeref ∧ NoReceiver s c .server := by
  cases hk : c.clientP with
  | none => rw [hk] at h; cases h
  | some k =>
    obtain ⟨cli, hcli, entry⟩ := ends.client k hk
    rw [hk] at h
    simp only [clientRegTask, deref_of_get? hcli, ok_bind] at h
    rcases bind_eq_error.mp h with h | ⟨x, _, h⟩
    · rcases deref_eq_error.mp h with ⟨hnone, rfl⟩ | ⟨f, hf, hfree, _⟩
      · exact ⟨rfl, k, cli, hk, hcli, hnone⟩
      · obtain ⟨x, hx, _⟩ := entry f hf
        rw [hx] at hfree
        cases hfree
    · cases h

theorem serverRegTask_error (ends : EndsOk s c) (h : serverRegTask s c.serverP = .error e) :
    (e = .nullDeref ∧ NoReceiver s c .client) ∨ (e = .useAfterFree ∧ ServerLost s c) := by
  cases hv : c.serverP with
  | none => rw [hv] at h; cases h
  | some v =>
    rw [hv] at h
    rcases bind_eq_error.mp h with h | ⟨srv, hsrv, h⟩
    · rcases deref_eq_error.mp h with ⟨hn, _⟩ | ⟨w, hw, hlost, rfl⟩
      · cases hn
      · exact Or.inr ⟨rfl, w, hv.trans hw, hlost⟩
    · have hsrv := deref_some hsrv
      rcases bind_eq_error.mp h with h | ⟨x, _, h⟩
      · rcases deref_eq_error.mp h with ⟨hnone, rfl⟩ | ⟨f, hf, hfree, _⟩
        · exact Or.inl ⟨rfl, v, srv, hv, hsrv, hnone⟩
        · obtain ⟨x, hx, _⟩ := ends.server v srv hv hsrv f hf
          rw [hx] at hfree
          cases hfree
      · cases h

theorem notificationPost_error {sender : NotifSender} {type : NotifType} {a b d : Int} {task : Option Ptr}
    (live : ∀ t, task = some t → t ∈ s.gRegTaskList.keys) :
    notificationPost K s sender type a b d task ≠ .error e := by
  intro h
  unfold notificationPost at h
  split at h
  next => cases h
  next ntf hn =>
    cases task with
    | none => cases h
    | some t =>
      obtain ⟨task, ht⟩ := Table.mem_keys.mp (live t rfl)
      simp only [regTaskAddNotification, deref_of_get? ht] at h
      cases h

theorem clientRegTask_live {t : Option Ptr} (ends : EndsOk s c) (h : clientRegTask s c.clientP = .ok t) :
    ∀ u, t = some u → u ∈ s.gRegTaskList.keys := by
  rintro u rfl
  cases hk : c.clientP with
  | none => rw [hk] at h; cases h
  | some k =>
    obtain ⟨cli, hcli, entry⟩ := ends.client k hk
    rw [hk] at h
    obtain ⟨f, x, hf, hx, rfl⟩ := clientRegTask_ok hcli h
    obtain ⟨y, hy, live⟩ := entry f hf
    cases hx.symm.trans hy
    exact live

theorem serverRegTask_live {t : Option Ptr} (ends : EndsOk s c) (h : serverRegTask s c.serverP = .ok t) :
    ∀ u, t = some u → u ∈ s.gRegTaskList.keys := by
  rintro u rfl
  cases hv : c.serverP with
  | none => rw [hv] at h; cases h
  | some v =>
    rw [hv] at h
    obtain ⟨srv, hsrv, _⟩ := bind_eq_ok.mp h
    obtain ⟨f, x, hf, hx, rfl⟩ := serverRegTask_ok (deref_some hsrv) h
    obtain ⟨y, hy, live⟩ := ends.server v srv hv (deref_some hsrv) f hf
    cases hx.symm.trans hy
    exact live

theorem notificationSend_error {sender : NotifSender} {type : NotifType} {p : Ptr}
    (h : notificationSend K s sender type p = .error e) (hc : s.gConnsList.get? p = some c)
    (ends : EndsOk s c) :
    (e = .nullDeref ∧ NoReceiver s c sender) ∨ (e = .useAfterFree ∧ ServerLost s c) := by
  have client := fun f => clientId_error (e := f) fun k hk => (ends.client k hk).imp fun _ => And.left
  simp only [notificationSend, deref_of_get? hc, ok_bind] at h
  split at h
  next => cases h
  next m hm =>
    obtain ⟨sub, hsub⟩ := ends.mem m hm
    simp only [derefSubMem, hsub, ok_bind] at h
    cases sender with
    | client =>
      simp only at h
      split at h
      next => cases h
      next =>
        rcases bind_eq_error.mp h with h | ⟨a, _, h⟩
        · exact absurd h (client e)
        rcases bind_eq_error.mp h with h | ⟨b, _, h⟩
        · obtain ⟨v, hv, hlost, rfl⟩ := serverId_error h
          exact Or.inr ⟨rfl, v, hv, hlost⟩
        rcases bind_eq_error.mp h with h | ⟨t, ht, h⟩
        · exact serverRegTask_error ends h
        exact absurd h (notificationPost_error (serverRegTask_live ends ht))
    | server =>
      simp only at h
      split at h
      next => cases h
      next =>
        rcases bind_eq_error.mp h with h | ⟨a, _, h⟩
        · obtain ⟨v, hv, hlost, rfl⟩ := serverId_error h
          exact Or.inr ⟨rfl, v, hv, hlost⟩
        rcases bind_eq_error.mp h with h | ⟨b, _, h⟩
        · exact absurd h (client e)
        rcases bind_eq_error.mp h with h | ⟨t, ht, h⟩
        · exact Or.inl (clientRegTask_error ends h)
        exact absurd h (notificationPost_error (clientRegTask_live ends ht))

theorem blame_of_send {sender : NotifSender} {type : NotifType} {p : Ptr}
    (h : notificationSend K s sender type p = .error e) (hc : s.gConnsList.get? p = some c)
    (ends : EndsOk s c) : Blame s c e := by
  rcases notificationSend_error h hc ends with ⟨he, alone⟩ | lost
  · cases sender with
    | client => exact Or.inl ⟨he, Or.inl alone⟩
    | server => exact Or.inl ⟨he, Or.inr alone⟩
  · exact Or.inr lost

end

end Ripc

import Ripc.DriverIds

namespace Ripc

variable {s s' s'' : Drv} {id : Int}

def Drv.Linked (s : Drv) (id : Int) (p : Ptr) : Prop :=
  ∃ k cli, s.gClientsList.get? k = some cli ∧ cli.id = id ∧ cli.connP = some p

def Drv.Connected (s : Drv) (id : Int) : Prop := ∃ p, s.Linked id p

/-- The connection is on the list of a server with this id. -/
def Drv.Serves (s : Drv) (p : Ptr) (a : Int) : Prop :=
  ∃ e x, s.servConns.get? e = some x ∧ x.conn = p ∧ s.idOf (.server x.server) = some a

/-- Only live servers have lists. -/
def EntriesLive (s : Drv) : Prop :=
  ∀ e x, s.servConns.get? e = some x → x.server ∈ s.gServersList.keys

theorem serverId_kept {ev : Event} {e : Ptr} {x : ServConnList} (he : s.event ev s')
    (hx : s.servConns.get? e = some x) (live : x.server ∈ s.gServersList.keys) :
    s'.idOf (.server x.server) = s.idOf (.server x.server) := by
  obtain ⟨ok, rfl⟩ := he
  cases ev with
  | addServer v name id owner =>
    have old : x.server ≠ v := fun he => ok.1 (he ▸ live)
    have new : (s.addServer v name id).idOf (.server x.server) = s.idOf (.server x.server) := by
      simp only [Drv.idOf, Drv.addServer, Table.get?_pushBack ok.1, if_neg old]
    cases owner with
    | none => exact new
    | some o => exact (map_modify (g := Server.id) (by intro _; rfl) x.server).trans new
  | addClient k id owner => cases owner <;> rfl
  | dropServer f y id =>
    simp only [Drv.apply, Drv.idOf, Drv.dropServer, Table.get?_erase, if_neg (ok.2.2 e x hx)]
  | addPool p shm => rw [Drv.apply, Drv.addPool, takeIds_frame]; rfl
  | teardown p ds => rw [Drv.apply, enqueueAll_eq]; rfl
  | _ => rfl

theorem mem_keys_iff_idOf {v : Ptr} : v ∈ s.gServersList.keys ↔ ∃ a, s.idOf (.server v) = some a := by
  simp [Table.mem_keys, Drv.idOf]

theorem EntriesLive.event {ev : Event} (h : EntriesLive s) (he : s.event ev s') : EntriesLive s' := by
  have kept : ∀ {e x}, s.servConns.get? e = some x → x.server ∈ s'.gServersList.keys := by
    intro e x hx
    rw [mem_keys_iff_idOf, serverId_kept he hx (h e x hx), ← mem_keys_iff_idOf]
    exact h e x hx
  obtain ⟨ok, rfl⟩ := he
  intro e x hx
  cases ev with
  | addServer v name id owner => cases owner <;> exact kept hx
  | addClient k id owner => cases owner <;> exact kept hx
  | addPool p shm =>
    rw [Drv.apply, Drv.addPool, takeIds_frame] at hx
    exact kept hx
  | link p k v m f =>
    rcases (servConns_link ok.2.2.2.2).mp hx with ⟨_, rfl⟩ | ⟨_, hx⟩
    · exact ok.2.2.1
    · exact kept hx
  | teardown p ds =>
    rw [Drv.apply, servConns_unlink, enqueueAll_eq] at hx
    exact kept hx.1
  | _ => exact kept hx

/-- What is known of the driver's memory between two events. -/
structure Orderly (s : Drv) : Prop where
  wf : Wf s
  ids : Ids s
  entries : EntriesLive s

theorem Orderly.event {ev : Event} (h : Orderly s) (he : s.event ev s') : Orderly s' :=
  ⟨h.wf.event he, h.ids.event he, h.entries.event he⟩

theorem Orderly.step {call : Call} (h : Orderly s) (hs : Returns s call s') : Orderly s' := by
  obtain ⟨r, hr⟩ := hs
  exact (step_ok h.wf hr).keeps (fun _ _ _ _ orderly ev => orderly.event ev) h

theorem Reachable.orderly (h : Reachable s) : Orderly s := by
  obtain ⟨calls, run⟩ := h
  exact run.invariant (fun _ _ _ h hs => h.step hs) ⟨.init, .init, nofun⟩

theorem Orderly.client_unique (h : Orderly s) (h0 : 0 ≤ id) {k k' : Ptr} {cli cli' : Client}
    (hk : s.gClientsList.get? k = some cli) (hk' : s.gClientsList.get? k' = some cli') (hid : cli.id = id)
    (hid' : cli'.id = id) : k = k' :=
  h.ids.client_unique hk' hk (hid'.symm ▸ h0) (hid.trans hid'.symm)

theorem Orderly.findClientById (h : Orderly s) (valid : isIdValid id = true) {k : Ptr} {cli : Client}
    (hk : s.gClientsList.get? k = some cli) (hid : cli.id = id) : findClientById s id = some k := by
  cases hf : Ripc.findClientById s id with
  | none =>
    rw [Ripc.findClientById, if_pos valid, Table.find?_eq_none] at hf
    exact absurd hid (by simpa using hf k cli hk)
  | some k' =>
    obtain ⟨cli', hk', hid', _⟩ := findClientById_some hf
    rw [h.client_unique (isIdValid_iff.mp valid).1 hk hk' hid hid']

theorem Orderly.linked_unique (h : Orderly s) (h0 : 0 ≤ id) {p q : Ptr} (hp : s.Linked id p) (hq : s.Linked id q) :
    p = q := by
  obtain ⟨k, cli, hk, hid, hp⟩ := hp
  obtain ⟨k', cli', hk', hid', hq⟩ := hq
  cases h.client_unique h0 hk hk' hid hid'
  cases hk.symm.trans hk'
  exact Option.some.inj (hp.symm.trans hq)

theorem Orderly.peer (h : Orderly s) (h0 : 0 ≤ id) :
    ∃ peer : Option Int, ∀ q, s.Linked id q → ∀ a, peer = some a ↔ s.Serves q a := by
  by_cases served : ∃ q a, s.Linked id q ∧ s.Serves q a
  · obtain ⟨q, a, hq, e, x, hx, hxq, ha⟩ := served
    refine ⟨some a, fun q' hq' b => ?_⟩
    cases h.linked_unique h0 hq hq'
    constructor
    · rintro ⟨⟩
      exact ⟨e, x, hx, hxq, ha⟩
    · rintro ⟨e', x', hx', hxq', hb⟩
      cases h.wf.links.entryUnique e x e' x' hx hx' (hxq.trans hxq'.symm)
      cases hx.symm.trans hx'
      exact ha.symm.trans hb
  · exact ⟨none, fun q hq a => ⟨nofun, fun hs => absurd ⟨q, a, hq, hs⟩ served⟩⟩

/-- The client with this id got no new connection, and what connection it still has is served as before. -/
structure Steady (s s' : Drv) (id : Int) : Prop where
  linked : ∀ p, s'.Linked id p → s.Linked id p
  serves : ∀ p a, s'.Linked id p → (s'.Serves p a ↔ s.Serves p a)

theorem Steady.refl : Steady s s id := ⟨fun _ h => h, fun _ _ _ => Iff.rfl⟩

theorem Steady.trans (h : Steady s s' id) (h' : Steady s' s'' id) : Steady s s'' id :=
  ⟨fun p hp => h.linked p (h'.linked p hp),
    fun p a hp => (h'.serves p a hp).trans (h.serves p a (h'.linked p hp))⟩

theorem Steady.connected (h : Steady s s' id) (hc : s'.Connected id) : s.Connected id := by
  obtain ⟨p, hp⟩ := hc
  exact ⟨p, h.linked p hp⟩

/-- The event connects some other client, if any. -/
def Event.Spares (s : Drv) (id : Int) : Event → Prop
  | .link _ k _ _ _ => ∀ cli, s.gClientsList.get? k = some cli → cli.id ≠ id
  | _ => True

theorem linked_teardown {p q : Ptr} {ds : List (Ptr × NotificationData)}
    (h : (s.apply (.teardown p ds)).Linked id q) : s.Linked id q ∧ q ≠ p := by
  obtain ⟨k, cli, hk, hid, hq⟩ := h
  rw [Drv.apply, clients_unlink, enqueueAll_eq, Option.map_eq_some_iff] at hk
  obtain ⟨old, hold, rfl⟩ := hk
  obtain ⟨hq, hne⟩ := forget_eq_some.mp hq
  exact ⟨⟨k, old, hold, hid, hq⟩, hne⟩

theorem linked_event {ev : Event} {q : Ptr} (he : s.event ev s') (spares : ev.Spares s id)
    (h : s'.Linked id q) : s.Linked id q := by
  obtain ⟨ok, rfl⟩ := he
  cases ev with
  | addServer v name a owner => cases owner <;> exact h
  | addClient k a owner =>
    have old : (s.addClient k a).Linked id q → s.Linked id q := by
      rintro ⟨k', cli, hk, hid, hq⟩
      rw [Drv.addClient, Table.get?_pushBack ok.1] at hk
      split at hk
      next =>
        cases hk
        cases hq
      next => exact ⟨k', cli, hk, hid, hq⟩
    cases owner with
    | none => exact old h
    | some o =>
      obtain ⟨k', cli, hk, hid, hq⟩ := h
      simp only [Drv.apply, Option.elim_some, Drv.attachClient, Table.get?_modify] at hk
      split at hk
      next =>
        obtain ⟨cli₀, hk₀, rfl⟩ := Option.map_eq_some_iff.mp hk
        exact old ⟨k', cli₀, hk₀, hid, hq⟩
      next => exact old ⟨k', cli, hk, hid, hq⟩
  | dropClient e x a =>
    obtain ⟨k, cli, hk, hid, hq⟩ := h
    exact ⟨k, cli, (Table.get?_erase_some.mp hk).2, hid, hq⟩
  | addPool p shm =>
    rw [Drv.apply, Drv.addPool, takeIds_frame] at h
    exact h
  | link p k v m e =>
    obtain ⟨k', cli, hk, hid, hq⟩ := h
    rw [Drv.apply, clients_link] at hk
    split at hk
    next he =>
      obtain ⟨cli₀, hk₀, rfl⟩ := Option.map_eq_some_iff.mp hk
      exact absurd hid (spares cli₀ (he ▸ hk₀))
    next => exact ⟨k', cli, hk, hid, hq⟩
  | teardown p ds => exact (linked_teardown h).1
  | _ => exact h

theorem entries_event {ev : Event} {q e : Ptr} {x : ServConnList} (orderly : Orderly s) (he : s.event ev s')
    (spares : ev.Spares s id) (h : s'.Linked id q) (hq : x.conn = q) :
    s'.servConns.get? e = some x ↔ s.servConns.get? e = some x := by
  have before := linked_event he spares h
  obtain ⟨ok, rfl⟩ := he
  cases ev with
  | addServer v name a owner => cases owner <;> rfl
  | addClient k a owner => cases owner <;> rfl
  | addPool p shm => rw [Drv.apply, Drv.addPool, takeIds_frame]
  | link p k v m f =>
    obtain ⟨k', cli, hk, _, hcq⟩ := before
    obtain ⟨c, hc, _⟩ := orderly.wf.links.clientConn k' cli q hk hcq
    have hne : q ≠ p := fun he => ok.1 (he ▸ Table.mem_keys.mpr ⟨c, hc⟩)
    rw [Drv.apply, servConns_link ok.2.2.2.2]
    constructor
    · rintro (⟨_, rfl⟩ | ⟨_, hx⟩)
      · exact absurd hq.symm hne
      · exact hx
    · refine fun hx => Or.inr ⟨?_, hx⟩
      rintro rfl
      exact ok.2.2.2.2 e rfl (Table.mem_keys.mpr ⟨x, hx⟩)
  | teardown p ds =>
    rw [Drv.apply, servConns_unlink, enqueueAll_eq]
    exact ⟨And.left, fun hx => ⟨hx, hq ▸ (linked_teardown h).2⟩⟩
  | _ => rfl

theorem Steady.event {ev : Event} (orderly : Orderly s) (he : s.event ev s') (spares : ev.Spares s id) :
    Steady s s' id := by
  refine ⟨fun p => linked_event he spares, fun p a hp => ?_⟩
  constructor
  · rintro ⟨e, x, hx, hxp, ha⟩
    have hx := (entries_event orderly he spares hp hxp).mp hx
    exact ⟨e, x, hx, hxp, (serverId_kept he hx (orderly.entries e x hx)).symm.trans ha⟩
  · rintro ⟨e, x, hx, hxp, ha⟩
    refine ⟨e, x, (entries_event orderly he spares hp hxp).mpr hx, hxp, ?_⟩
    exact (serverId_kept he hx (orderly.entries e x hx)).trans ha

theorem not_connected_teardown {p : Ptr} {ds : List (Ptr × NotificationData)} (orderly : Orderly s) (h0 : 0 ≤ id)
    (hp : s.Linked id p) : ¬(s.apply (.teardown p ds)).Connected id := by
  rintro ⟨q, hq⟩
  obtain ⟨hq, hne⟩ := linked_teardown hq
  exact hne (orderly.linked_unique h0 hq hp)

end Ripc

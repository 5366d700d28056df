import Ripc.DriverTeardown

namespace Ripc

theorem forgetClients_modify {clients : Table Client} {p k : Ptr}
    (own : ∀ cli, clients.get? k = some cli → cli.connP = some p) :
    forgetClients p (clients.modify k fun cli => { cli with connP := none }) = forgetClients p clients := by
  refine (Table.mapAt_mapAt _ _).trans (Table.mapAt_congr fun k' cli hk => ?_)
  by_cases he : k' = k
  · subst he
    simp [forget, own cli hk]
  · simp [he]

theorem unlink_clearClient {s : Drv} {p k : Ptr} {cli : Client} (hk : s.gClientsList.get? k = some cli)
    (hp : cli.connP = some p) (ds : List (Ptr × NotificationData)) :
    (Drv.enqueueAll { s with gClientsList := s.gClientsList.modify k fun cli => { cli with connP := none } }
      ds).unlink p = (s.enqueueAll ds).unlink p := by
  have same := forgetClients_modify fun cli' hk' => by
    cases hk.symm.trans hk'
    exact hp
  simp only [forgetClients] at same
  simp only [enqueueAll_eq, Drv.unlink, same]

theorem unlink_eraseEntry {s : Drv} {e : Ptr} {x : ServConnList} (hx : s.servConns.get? e = some x)
    (unique : ∀ f y, s.servConns.get? f = some y → y.conn = x.conn → f = e) (ds : List (Ptr × NotificationData)) :
    (Drv.enqueueAll { s with servConns := s.servConns.erase e } ds).unlink x.conn =
      (s.enqueueAll ds).unlink x.conn := by
  have same : forgetEntries x.conn (s.servConns.erase e) = forgetEntries x.conn s.servConns := by
    rw [eraseEntry_eq hx rfl unique]
    exact (Table.filterAt_filterAt _ _).trans (Table.filterAt_congr fun _ _ _ => Bool.and_self _)
  simp only [forgetEntries] at same
  simp only [enqueueAll_eq, Drv.unlink, same]

theorem clientCleanupConnection_ok {K : Kernel} {s s' : Drv} {k : Ptr}
    (h : clientCleanupConnection K s k = .ok s') (wf : Wf s) :
    ∃ cli, s.gClientsList.get? k = some cli ∧ ((cli.connP = none ∧ s' = s) ∨
      ∃ p ds, cli.connP = some p ∧ s.event (.teardown p ds) s') := by
  obtain ⟨cli, hk, h⟩ := bind_eq_ok.mp h
  have hk := deref_some hk
  refine ⟨cli, hk, ?_⟩
  split at h
  next hnone => cases h; exact Or.inl ⟨hnone, rfl⟩
  next p hp =>
    obtain ⟨c, hc, _⟩ := wf.links.clientConn k cli p hk hp
    have only := wf.links.only hc
    obtain ⟨ds, rfl, posts⟩ := deleteConnection_ok h hc (only.clearClient k)
    refine Or.inr ⟨p, ds, hp, ⟨Table.mem_keys.mpr ⟨c, hc⟩, fun x hx => ⟨?_, (posts x hx).2⟩⟩, ?_⟩
    · refine (posts x hx).1.transfer rfl rfl rfl rfl rfl rfl fun k' cli' hk' => ?_
      rw [Table.get?_modify] at hk'
      split at hk'
      next =>
        obtain ⟨old, hold, rfl⟩ := Option.map_eq_some_iff.mp hk'
        exact ⟨old, hold, rfl, rfl⟩
      next => exact ⟨cli', hk', rfl, rfl⟩
    · rw [Drv.apply, unlink_clearClient hk hp]

theorem serverCleanupConnection_ok {K : Kernel} {s s' : Drv} {v e : Ptr}
    (h : serverCleanupConnection K s v e = .ok s') (wf : Wf s) :
    ∃ x, s.servConns.get? e = some x ∧ ((x.server ≠ v ∧ s' = s) ∨
      ∃ ds, s.event (.teardown x.conn ds) s') := by
  obtain ⟨x, hx, h⟩ := bind_eq_ok.mp h
  obtain ⟨c, hc, h⟩ := bind_eq_ok.mp h
  have hx := deref_some hx
  have hc := deref_some hc
  obtain ⟨c', hc', hv⟩ := wf.links.entryConn e x hx
  cases hc.symm.trans hc'
  refine ⟨x, hx, ?_⟩
  split at h
  next hne => cases h; exact Or.inl ⟨fun he => hne (he ▸ hv), rfl⟩
  next =>
    have only := wf.links.only hc
    obtain ⟨ds, rfl, posts⟩ := deleteConnection_ok h hc (only.eraseEntry e)
    refine Or.inr ⟨ds, ⟨Table.mem_keys.mpr ⟨c, hc⟩, fun y hy => ⟨?_, (posts y hy).2⟩⟩, ?_⟩
    · exact (posts y hy).1.transfer rfl rfl rfl rfl rfl rfl fun k' cli' hk' => ⟨cli', hk', rfl, rfl⟩
    · rw [Drv.apply, unlink_eraseEntry hx fun f y hy hp => only.unique f y e x hy hx hp rfl]

/-- What a loop body keeps while it uses up the entries of the list, the loop keeps. -/
theorem forEachEntry_ok {body : Drv → Ptr → Except Fault Drv} {I : List Ptr → Drv → Prop}
    (round : ∀ e rest a b, I (e :: rest) a → body a e = .ok b → I rest b) {es : List Ptr} {s s' : Drv}
    (h : forEachEntry body es s = .ok s') (hs : I es s) : I [] s' := by
  induction es generalizing s with
  | nil => cases h; exact hs
  | cons e rest ih =>
    obtain ⟨s₁, h₁, h⟩ := bind_eq_ok.mp h
    exact ih h (round e rest s s₁ hs h₁)

theorem serverCleanupLoop_eq (K : Kernel) (v : Ptr) (es : List Ptr) (s : Drv) :
    serverCleanupLoop K v es s = forEachEntry (fun s e => serverCleanupConnection K s v e) es s := by
  induction es generalizing s with
  | nil => rfl
  | cons e rest ih => simp only [serverCleanupLoop, forEachEntry, ih]

def Event.IsTeardown : Event → Prop
  | .teardown _ _ => True
  | _ => False

/-- What any number of tear-downs leaves as it was. -/
structure Torn (s s' : Drv) : Prop where
  files : s'.files = s.files
  tasks : s'.gRegTaskList.keys = s.gRegTaskList.keys
  servers : s'.gServersList = s.gServersList
  serversEntries : s'.serversEntries = s.serversEntries
  clientsEntries : s'.clientsEntries = s.clientsEntries
  servConns : ∀ f y, s'.servConns.get? f = some y → s.servConns.get? f = some y
  clients : ∀ k cli, s.gClientsList.get? k = some cli → ∃ cli', s'.gClientsList.get? k = some cli' ∧
    cli'.id = cli.id ∧ cli'.taskP = cli.taskP ∧ (cli.connP = none → cli'.connP = none)

theorem Torn.refl (s : Drv) : Torn s s :=
  ⟨rfl, rfl, rfl, rfl, rfl, fun _ _ h => h, fun _ cli h => ⟨cli, h, rfl, rfl, id⟩⟩

theorem Torn.trans {s s' s'' : Drv} (h : Torn s s') (h' : Torn s' s'') : Torn s s'' := by
  refine ⟨h'.files.trans h.files, h'.tasks.trans h.tasks, h'.servers.trans h.servers,
    h'.serversEntries.trans h.serversEntries, h'.clientsEntries.trans h.clientsEntries,
    fun f y hf => h.servConns f y (h'.servConns f y hf), fun k cli hk => ?_⟩
  obtain ⟨cli', hk', hid, ht, hn⟩ := h.clients k cli hk
  obtain ⟨cli'', hk'', hid', ht', hn'⟩ := h'.clients k cli' hk'
  exact ⟨cli'', hk'', hid'.trans hid, ht'.trans ht, fun hc => hn' (hn hc)⟩

theorem Torn.teardown {s s' : Drv} {p : Ptr} {ds : List (Ptr × NotificationData)}
    (h : s.event (.teardown p ds) s') : Torn s s' := by
  obtain ⟨_, rfl⟩ := h
  rw [Drv.apply, enqueueAll_eq]
  refine ⟨rfl, keys_postAll _ _, rfl, rfl, rfl, fun f y hf => (servConns_unlink.mp hf).1, fun k cli hk => ?_⟩
  exact ⟨{ cli with connP := forget p cli.connP }, by rw [clients_unlink, hk, Option.map_some], rfl, rfl,
    fun hn => by simp [hn, forget]⟩

/-- The state of a loop of clean-ups that began in `s`. -/
structure Cleaning (s s' : Drv) : Prop where
  run : Reaches Drv.event Event.IsTeardown s s'
  wf : Wf s'
  torn : Torn s s'

theorem Cleaning.refl {s : Drv} (wf : Wf s) : Cleaning s s := ⟨.refl, wf, .refl s⟩

theorem Cleaning.trans {s s' s'' : Drv} (h : Cleaning s s') (h' : Cleaning s' s'') : Cleaning s s'' :=
  ⟨h.run.trans h'.run, h'.wf, h.torn.trans h'.torn⟩

theorem Cleaning.teardown {s s' : Drv} {p : Ptr} {ds : List (Ptr × NotificationData)} (wf : Wf s)
    (h : s.event (.teardown p ds) s') : Cleaning s s' :=
  ⟨.single h trivial, wf.event h, .teardown h⟩

theorem serverCleanupConnections_ok {K : Kernel} {s s' : Drv} {v : Ptr}
    (h : serverCleanupConnections K s v = .ok s') (wf : Wf s) :
    Cleaning s s' ∧ ∀ f y, s'.servConns.get? f = some y → y.server ≠ v := by
  obtain ⟨srv, _, h⟩ := bind_eq_ok.mp h
  rw [serverCleanupLoop_eq] at h
  have done := forEachEntry_ok (I := fun es a => Cleaning s a ∧
    ∀ f y, a.servConns.get? f = some y → y.server = v → f ∈ es) ?_ h ⟨.refl wf, ?_⟩
  · exact ⟨done.1, fun f y hf hv => nomatch done.2 f y hf hv⟩
  · rintro e rest a b ⟨so, left⟩ hb
    obtain ⟨x, hx, ⟨hne, rfl⟩ | ⟨ds, ht⟩⟩ := serverCleanupConnection_ok hb so.wf
    · refine ⟨so, fun f y hf hv => ?_⟩
      rcases List.mem_cons.mp (left f y hf hv) with rfl | hrest
      · cases hx.symm.trans hf
        exact absurd hv hne
      · exact hrest
    · refine ⟨so.trans (.teardown so.wf ht), fun f y hf hv => ?_⟩
      have hold := (Torn.teardown ht).servConns f y hf
      rcases List.mem_cons.mp (left f y hold hv) with rfl | hrest
      · cases hx.symm.trans hold
        obtain ⟨_, rfl⟩ := ht
        exact absurd rfl (servConns_unlink.mp hf).2
      · exact hrest
  · intro f y hf hv
    exact List.mem_map.mpr ⟨(f, y), List.mem_filter.mpr ⟨Table.get?_eq_some.mp hf, by simpa using hv⟩, rfl⟩

theorem mem_serversOf {s : Drv} {t e : Ptr} :
    e ∈ (s.serversOf t).map Prod.fst ↔ ∃ x, s.serversEntries.get? e = some x ∧ x.regTask = t := by
  simp only [Drv.serversOf, List.mem_map, List.mem_filter, decide_eq_true_eq, Table.get?_eq_some]
  constructor
  · rintro ⟨⟨f, x⟩, ⟨hm, ht⟩, rfl⟩
    exact ⟨x, hm, ht⟩
  · rintro ⟨x, hm, ht⟩
    exact ⟨(e, x), ⟨hm, ht⟩, rfl⟩

theorem mem_clientsOf {s : Drv} {t e : Ptr} :
    e ∈ (s.clientsOf t).map Prod.fst ↔ ∃ x, s.clientsEntries.get? e = some x ∧ x.regTask = t := by
  simp only [Drv.clientsOf, List.mem_map, List.mem_filter, decide_eq_true_eq, Table.get?_eq_some]
  constructor
  · rintro ⟨⟨f, x⟩, ⟨hm, ht⟩, rfl⟩
    exact ⟨x, hm, ht⟩
  · rintro ⟨x, hm, ht⟩
    exact ⟨(e, x), ⟨hm, ht⟩, rfl⟩

end Ripc

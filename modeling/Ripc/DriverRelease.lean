import Ripc.DriverCleanup

namespace Ripc

theorem serverDestroy_ok {s s' : Drv} {v : Ptr} (h : serverDestroy s v = .ok s') :
    ∃ srv, s.gServersList.get? v = some srv ∧
      s' = freeId { s with gServersList := s.gServersList.erase v } srv.id := by
  obtain ⟨srv, hv, h⟩ := bind_eq_ok.mp h
  cases h
  exact ⟨srv, deref_some hv, rfl⟩

theorem clientDestroy_ok {s s' : Drv} {k : Ptr} (h : clientDestroy s k = .ok s') :
    ∃ cli, s.gClientsList.get? k = some cli ∧
      s' = freeId { s with gClientsList := s.gClientsList.erase k } cli.id := by
  obtain ⟨cli, hk, h⟩ := bind_eq_ok.mp h
  cases h
  exact ⟨cli, deref_some hk, rfl⟩

theorem regTaskDeleteServer_ok {s s' : Drv} {e : Ptr} (h : regTaskDeleteServer s (some e) = .ok s') :
    ∃ x srv, s.serversEntries.get? e = some x ∧ s.gServersList.get? x.server = some srv ∧
      s' = s.dropServer e x srv.id := by
  obtain ⟨x, hx, h⟩ := bind_eq_ok.mp h
  obtain ⟨s₁, hd, h⟩ := bind_eq_ok.mp h
  obtain ⟨srv, hv, rfl⟩ := serverDestroy_ok hd
  obtain ⟨_, _, h⟩ := bind_eq_ok.mp h
  cases h
  exact ⟨x, srv, deref_some hx, hv, rfl⟩

theorem regTaskDeleteClient_ok {s s' : Drv} {e : Ptr} (h : regTaskDeleteClient s (some e) = .ok s') :
    ∃ x cli, s.clientsEntries.get? e = some x ∧ s.gClientsList.get? x.client = some cli ∧
      s' = s.dropClient e x cli.id := by
  obtain ⟨x, hx, h⟩ := bind_eq_ok.mp h
  obtain ⟨s₁, hd, h⟩ := bind_eq_ok.mp h
  obtain ⟨cli, hk, rfl⟩ := clientDestroy_ok hd
  obtain ⟨_, _, h⟩ := bind_eq_ok.mp h
  cases h
  exact ⟨x, cli, deref_some hx, hk, rfl⟩

def Event.IsCleanup : Event → Prop
  | .teardown _ _ | .dropServer _ _ _ | .dropClient _ _ _ => True
  | _ => False

theorem Event.IsTeardown.isCleanup {ev : Event} (h : ev.IsTeardown) : ev.IsCleanup := by
  cases ev <;> trivial

/-- The connections of task `t` are gone; its servers and clients go one by one. -/
structure Releasing (s : Drv) (t : Ptr) (a : Drv) : Prop where
  run : Reaches Drv.event Event.IsCleanup s a
  wf : Wf a
  files : a.files = s.files
  servers : ∀ f y e x, a.servConns.get? f = some y → a.serversEntries.get? e = some x →
    x.regTask = t → y.server ≠ x.server
  clients : ∀ e x, a.clientsEntries.get? e = some x → x.regTask = t →
    ∃ cli, a.gClientsList.get? x.client = some cli ∧ cli.connP = none

section

variable {K : Kernel} {s s' : Drv} {t : Ptr}

theorem cleanServers_ok (wf : Wf s)
    (h : forEachEntry (fun s e => do
      serverCleanupConnections K s (← deref s.serversEntries (some e)).server)
      ((s.serversOf t).map Prod.fst) s = .ok s') :
    Cleaning s s' ∧ ∀ f y e x, s'.servConns.get? f = some y → s.serversEntries.get? e = some x →
      x.regTask = t → y.server ≠ x.server := by
  have done := forEachEntry_ok (I := fun es a => Cleaning s a ∧ ∀ f y e x, a.servConns.get? f = some y →
    s.serversEntries.get? e = some x → x.regTask = t → y.server = x.server → e ∈ es) ?_ h ⟨.refl wf, ?_⟩
  · exact ⟨done.1, fun f y e x hf hx ht hv => nomatch done.2 f y e x hf hx ht hv⟩
  · rintro e rest a b ⟨so, left⟩ hb
    obtain ⟨x, hx, hb⟩ := bind_eq_ok.mp hb
    have hx := so.torn.serversEntries ▸ deref_some hx
    obtain ⟨clean, gone⟩ := serverCleanupConnections_ok hb so.wf
    refine ⟨so.trans clean, fun f y e' x' hf hx' ht hv => ?_⟩
    rcases List.mem_cons.mp (left f y e' x' (clean.torn.servConns f y hf) hx' ht hv) with rfl | hrest
    · cases hx.symm.trans hx'
      exact absurd hv (gone f y hf)
    · exact hrest
  · exact fun f y e x _ hx ht _ => mem_serversOf.mpr ⟨x, hx, ht⟩

theorem cleanClients_ok (wf : Wf s)
    (h : forEachEntry (fun s e => do
      clientCleanupConnection K s (← deref s.clientsEntries (some e)).client)
      ((s.clientsOf t).map Prod.fst) s = .ok s') :
    Cleaning s s' ∧ ∀ e x, s.clientsEntries.get? e = some x → x.regTask = t →
      ∃ cli, s'.gClientsList.get? x.client = some cli ∧ cli.connP = none := by
  have done := forEachEntry_ok (I := fun es a => Cleaning s a ∧ ∀ e x, s.clientsEntries.get? e = some x →
    x.regTask = t → e ∈ es ∨ ∃ cli, a.gClientsList.get? x.client = some cli ∧ cli.connP = none)
    ?_ h ⟨.refl wf, ?_⟩
  · exact ⟨done.1, fun e x hx ht => (done.2 e x hx ht).resolve_left List.not_mem_nil⟩
  · rintro e rest a b ⟨so, left⟩ hb
    obtain ⟨x, hx, hb⟩ := bind_eq_ok.mp hb
    have hx := so.torn.clientsEntries ▸ deref_some hx
    obtain ⟨cli, hcli, clean⟩ := clientCleanupConnection_ok hb so.wf
    have next : Cleaning a b ∧ ∃ cli', b.gClientsList.get? x.client = some cli' ∧ cli'.connP = none := by
      rcases clean with ⟨hnone, rfl⟩ | ⟨p, ds, hp, ht⟩
      · exact ⟨.refl so.wf, cli, hcli, hnone⟩
      · refine ⟨.teardown so.wf ht, { cli with connP := forget p cli.connP }, ?_, by simp [hp, forget]⟩
        obtain ⟨_, rfl⟩ := ht
        rw [Drv.apply, clients_unlink, enqueueAll_eq, hcli, Option.map_some]
    refine ⟨so.trans next.1, fun e' x' hx' ht => ?_⟩
    rcases left e' x' hx' ht with hmem | ⟨cli', hcli', hnone⟩
    · rcases List.mem_cons.mp hmem with rfl | hrest
      · cases hx.symm.trans hx'
        exact Or.inr next.2
      · exact Or.inl hrest
    · obtain ⟨cli'', h'', _, _, hkeep⟩ := next.1.torn.clients _ cli' hcli'
      exact Or.inr ⟨cli'', h'', hkeep hnone⟩
  · exact fun e x hx ht => Or.inl (mem_clientsOf.mpr ⟨x, hx, ht⟩)

/-- The third loop of `reg_task_delete` when the entries `es` are still to come. -/
structure ServersLeft (s : Drv) (t : Ptr) (es : List Ptr) (a : Drv) : Prop where
  so : Releasing s t a
  nodup : es.Nodup
  left : ∀ e, e ∈ es ↔ ∃ x, a.serversEntries.get? e = some x ∧ x.regTask = t

theorem ServersLeft.first {a : Drv} (so : Releasing s t a) :
    ServersLeft s t ((a.serversOf t).map Prod.fst) a :=
  ⟨so, a.serversEntries.nodup.sublist (List.filter_sublist.map _), fun _ => mem_serversOf⟩

theorem ServersLeft.event {e : Ptr} {rest : List Ptr} {a b : Drv} (h : ServersLeft s t (e :: rest) a)
    (hb : regTaskDeleteServer a (some e) = .ok b) :
    ∃ x id, x.regTask = t ∧ a.event (.dropServer e x id) b := by
  obtain ⟨x, srv, hx, hsrv, rfl⟩ := regTaskDeleteServer_ok hb
  obtain ⟨y, hy, ht⟩ := (h.left e).mp List.mem_cons_self
  cases hx.symm.trans hy
  exact ⟨x, srv.id, ht, ⟨hx, ⟨srv, hsrv, rfl⟩, fun f y hf => h.so.servers f y e x hf hx ht⟩, rfl⟩

theorem ServersLeft.round {e : Ptr} {rest : List Ptr} {a b : Drv} (h : ServersLeft s t (e :: rest) a)
    (hb : regTaskDeleteServer a (some e) = .ok b) : ServersLeft s t rest b := by
  obtain ⟨_, nodup⟩ := List.nodup_cons.mp h.nodup
  obtain ⟨x, id, _, ev⟩ := h.event hb
  refine ⟨⟨h.so.run.trans (.single ev trivial), h.so.wf.event ev, ?_, ?_, ?_⟩, nodup, ?_⟩
  all_goals obtain ⟨_, rfl⟩ := ev
  · exact h.so.files
  · exact fun f y e' x' hf hx' => h.so.servers f y e' x' hf (Table.get?_erase_some.mp hx').2
  · exact h.so.clients
  · exact Table.mem_rest_erase h.nodup h.left

/-- The last loop of `reg_task_delete` when the entries `es` are still to come. -/
structure ClientsLeft (s : Drv) (t : Ptr) (es : List Ptr) (a : Drv) : Prop where
  so : Releasing s t a
  noServers : ∀ e x, a.serversEntries.get? e = some x → x.regTask ≠ t
  nodup : es.Nodup
  left : ∀ e, e ∈ es ↔ ∃ x, a.clientsEntries.get? e = some x ∧ x.regTask = t

theorem ClientsLeft.first {a : Drv} (h : ServersLeft s t [] a) :
    ClientsLeft s t ((a.clientsOf t).map Prod.fst) a :=
  ⟨h.so, fun e x hx ht => List.not_mem_nil ((h.left e).mpr ⟨x, hx, ht⟩),
    a.clientsEntries.nodup.sublist (List.filter_sublist.map _), fun _ => mem_clientsOf⟩

theorem ClientsLeft.event {e : Ptr} {rest : List Ptr} {a b : Drv} (h : ClientsLeft s t (e :: rest) a)
    (hb : regTaskDeleteClient a (some e) = .ok b) :
    ∃ x id, x.regTask = t ∧ a.event (.dropClient e x id) b := by
  obtain ⟨x, cli, hx, hcli, rfl⟩ := regTaskDeleteClient_ok hb
  obtain ⟨y, hy, ht⟩ := (h.left e).mp List.mem_cons_self
  cases hx.symm.trans hy
  obtain ⟨cli', hcli', hnone⟩ := h.so.clients e x hx ht
  cases hcli.symm.trans hcli'
  exact ⟨x, cli.id, ht, ⟨hx, cli, hcli, rfl, hnone⟩, rfl⟩

theorem ClientsLeft.round {e : Ptr} {rest : List Ptr} {a b : Drv} (h : ClientsLeft s t (e :: rest) a)
    (hb : regTaskDeleteClient a (some e) = .ok b) : ClientsLeft s t rest b := by
  obtain ⟨_, nodup⟩ := List.nodup_cons.mp h.nodup
  obtain ⟨x, id, _, ev⟩ := h.event hb
  have wf := h.so.wf.event ev
  refine ⟨⟨h.so.run.trans (.single ev trivial), wf, ?_, ?_, ?_⟩, ?_, nodup, ?_⟩
  all_goals obtain ⟨_, rfl⟩ := ev
  · exact h.so.files
  · exact h.so.servers
  · intro e' x' hx' ht'
    obtain ⟨cli', hk', _⟩ := wf.clients.object e' x' x'.client hx' rfl
    obtain ⟨cli₀, h₀, hnone⟩ := h.so.clients e' x' (Table.get?_erase_some.mp hx').2 ht'
    cases h₀.symm.trans (Table.get?_erase_some.mp hk').2
    exact ⟨cli', hk', hnone⟩
  · exact h.noServers
  · exact Table.mem_rest_erase h.nodup h.left

theorem Releasing.first {s₁ s₂ : Drv} (clean₁ : Cleaning s s₁) (clean₂ : Cleaning s₁ s₂)
    (servers : ∀ f y e x, s₁.servConns.get? f = some y → s.serversEntries.get? e = some x →
      x.regTask = t → y.server ≠ x.server)
    (clients : ∀ e x, s₁.clientsEntries.get? e = some x → x.regTask = t →
      ∃ cli, s₂.gClientsList.get? x.client = some cli ∧ cli.connP = none) : Releasing s t s₂ := by
  have clean := clean₁.trans clean₂
  refine ⟨clean.run.mono fun ev => Event.IsTeardown.isCleanup, clean.wf, clean.torn.files, ?_, ?_⟩
  · intro f y e x hf hx
    exact servers f y e x (clean₂.torn.servConns f y hf) (clean.torn.serversEntries ▸ hx)
  · exact fun e x hx => clients e x (clean₂.torn.clientsEntries ▸ hx)

/-- The four loops of `reg_task_delete`, with the states between them. -/
structure TaskLoops (K : Kernel) (s : Drv) (t : Ptr) (s₁ s₂ s₃ s₄ : Drv) : Prop where
  cleanServers : forEachEntry (fun s e => do
    serverCleanupConnections K s (← deref s.serversEntries (some e)).server)
    ((s.serversOf t).map Prod.fst) s = .ok s₁
  cleanClients : forEachEntry (fun s e => do
    clientCleanupConnection K s (← deref s.clientsEntries (some e)).client)
    ((s₁.clientsOf t).map Prod.fst) s₁ = .ok s₂
  dropServers : forEachEntry (fun s e => regTaskDeleteServer s (some e)) ((s₂.serversOf t).map Prod.fst) s₂ = .ok s₃
  dropClients : forEachEntry (fun s e => regTaskDeleteClient s (some e)) ((s₃.clientsOf t).map Prod.fst) s₃ = .ok s₄

/-- `reg_task_delete`, call by call; it leaves everything as it is when the thread behind the task is gone. -/
theorem regTaskDelete_calls {task : RegTask} (ht : s.gRegTaskList.get? t = some task)
    (h : regTaskDelete K s t = .ok s') : (K.pidAlive task.taskP = false ∧ s' = s) ∨
      (K.pidAlive task.taskP = true ∧ ∃ s₁ s₂ s₃ s₄, TaskLoops K s t s₁ s₂ s₃ s₄ ∧
        s' = { s₄ with gRegTaskList := s₄.gRegTaskList.erase t, gRegTaskCount := s₄.gRegTaskCount - 1 }) := by
  obtain ⟨task', ht', h⟩ := bind_eq_ok.mp h
  cases (deref_some ht').symm.trans ht
  split at h
  next dead =>
    cases h
    exact Or.inl ⟨by simpa using dead, rfl⟩
  next alive =>
    obtain ⟨s₁, h₁, h⟩ := bind_eq_ok.mp h
    obtain ⟨s₂, h₂, h⟩ := bind_eq_ok.mp h
    obtain ⟨s₃, h₃, h⟩ := bind_eq_ok.mp h
    obtain ⟨s₄, h₄, h⟩ := bind_eq_ok.mp h
    cases h
    exact Or.inr ⟨by simpa using alive, s₁, s₂, s₃, s₄, ⟨h₁, h₂, h₃, h₄⟩, rfl⟩

/-- `reg_task_delete` tears down all that the task owns before the task goes. -/
theorem regTaskDelete_ok {task : RegTask} (wf : Wf s) (ht : s.gRegTaskList.get? t = some task)
    (h : regTaskDelete K s t = .ok s') : (K.pidAlive task.taskP = false ∧ s' = s) ∨
      ∃ a, Releasing s t a ∧ (∀ e x, a.serversEntries.get? e = some x → x.regTask ≠ t) ∧
        (∀ e x, a.clientsEntries.get? e = some x → x.regTask ≠ t) ∧
        s' = { a with gRegTaskList := a.gRegTaskList.erase t, gRegTaskCount := a.gRegTaskCount - 1 } := by
  refine (regTaskDelete_calls ht h).imp_right ?_
  rintro ⟨_, s₁, s₂, s₃, s₄, loops, same⟩
  obtain ⟨clean₁, servers⟩ := cleanServers_ok wf loops.cleanServers
  obtain ⟨clean₂, clients⟩ := cleanClients_ok clean₁.wf loops.cleanClients
  have so := Releasing.first clean₁ clean₂ servers clients
  have left := forEachEntry_ok (fun _ _ _ _ => ServersLeft.round) loops.dropServers (.first so)
  have done := forEachEntry_ok (fun _ _ _ _ => ClientsLeft.round) loops.dropClients (.first left)
  exact ⟨s₄, done.so, done.noServers, fun e x hx ht => List.not_mem_nil ((done.left e).mpr ⟨x, hx, ht⟩), same⟩

end

end Ripc

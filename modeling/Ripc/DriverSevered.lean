import Ripc.DriverUnowned

namespace Ripc

def Drv.OwnsServer (s : Drv) (t v : Ptr) : Prop :=
  ∃ e x, s.serversEntries.get? e = some x ∧ x.regTask = t ∧ x.server = v

def Drv.OwnsClient (s : Drv) (t k : Ptr) : Prop :=
  ∃ e x, s.clientsEntries.get? e = some x ∧ x.regTask = t ∧ x.client = k

/-- The connection is on the list of its server. -/
def Drv.Listed (s : Drv) (p : Ptr) : Prop := ∃ e x, s.servConns.get? e = some x ∧ x.conn = p

/-- What it takes to delete connection `p` when task `t` goes: both its sides are live and have a task,
and the walk over the task's servers and clients comes across it. -/
structure Severable (s : Drv) (t p : Ptr) (c : Connection) : Prop where
  owned : ¬Unowned s c
  live : ¬ServerLost s c
  found : s.Listed p ∨ ∃ k, c.clientP = some k ∧ s.OwnsClient t k

section

variable {K : Kernel} {s s' : Drv} {t p : Ptr} {c : Connection}

theorem notificationSend_sides {sender : NotifSender} {type : NotifType} {r : Int × Drv}
    (h : notificationSend K s sender type p = .ok r) (hc : s.gConnsList.get? p = some c)
    (hm : c.memP ≠ none) (hk : c.clientP ≠ none) (hv : c.serverP ≠ none) :
    ¬ServerLost s c ∧ ¬NoReceiver s c sender := by
  obtain ⟨m, hm⟩ := Option.ne_none_iff_exists'.mp hm
  obtain ⟨k, hk⟩ := Option.ne_none_iff_exists'.mp hk
  obtain ⟨v, hv⟩ := Option.ne_none_iff_exists'.mp hv
  have live : ∀ {id}, serverId s c.serverP = .ok id → ¬ServerLost s c := by
    rintro id hid ⟨w, hw, hlost⟩
    rw [hw] at hid
    obtain ⟨srv, hsrv, _⟩ := bind_eq_ok.mp hid
    rw [deref_some hsrv] at hlost
    cases hlost
  simp only [notificationSend, deref_of_get? hc, ok_bind, hm] at h
  obtain ⟨sub, _, h⟩ := bind_eq_ok.mp h
  cases sender with
  | client =>
    simp only [hk, Option.isNone_some, Bool.false_eq_true, if_false] at h
    obtain ⟨a, _, h⟩ := bind_eq_ok.mp h
    obtain ⟨b, hb, h⟩ := bind_eq_ok.mp h
    obtain ⟨u, hu, h⟩ := bind_eq_ok.mp h
    refine ⟨live hb, ?_⟩
    rintro ⟨w, srv, hw, hsrv, hnone⟩
    rw [hw] at hu
    simp only [serverRegTask, deref_of_get? hsrv, ok_bind, hnone] at hu
    cases hu
  | server =>
    simp only [hv, Option.isNone_some, Bool.false_eq_true, if_false] at h
    obtain ⟨a, ha, h⟩ := bind_eq_ok.mp h
    obtain ⟨b, _, h⟩ := bind_eq_ok.mp h
    obtain ⟨u, hu, h⟩ := bind_eq_ok.mp h
    refine ⟨live (hv ▸ ha), ?_⟩
    rintro ⟨k', cli, hk', hcli, hnone⟩
    rw [hk'] at hu
    simp only [clientRegTask, deref_of_get? hcli, ok_bind, hnone] at hu
    cases hu

theorem deleteConnection_sides (h : deleteConnection K s p = .ok s') (hc : s.gConnsList.get? p = some c)
    (hm : c.memP ≠ none) (hk : c.clientP ≠ none) (hv : c.serverP ≠ none) : ¬Unowned s c ∧ ¬ServerLost s c := by
  obtain ⟨⟨_, s₁⟩, h₁, h⟩ := bind_eq_ok.mp h
  obtain ⟨live, client⟩ := notificationSend_sides h₁ hc hm hk hv
  obtain ⟨ds, rfl, _⟩ := notificationSend_list h₁
  obtain ⟨⟨_, s₂⟩, h₂, h⟩ := bind_eq_ok.mp h
  obtain ⟨_, server⟩ := notificationSend_sides h₂ (conns_enqueueAll s ds ▸ hc) hm hk hv
  rw [enqueueAll_eq] at server
  exact ⟨fun alone => alone.elim server client, live⟩

theorem Wf.full (wf : Wf s) (hc : s.gConnsList.get? p = some c) :
    c.memP ≠ none ∧ c.clientP ≠ none ∧ c.serverP ≠ none := by
  obtain ⟨⟨k, hk⟩, ⟨m, hm⟩, ⟨v, hv⟩⟩ := wf.links.connFull p c hc
  simp [hk, hm, hv]

theorem serverCleanupConnection_severs {v e : Ptr} (h : serverCleanupConnection K s v e = .ok s') (wf : Wf s)
    (hc : s.gConnsList.get? p = some c) :
    s'.gConnsList.get? p = some c ∨ (¬Unowned s c ∧ ¬ServerLost s c ∧ s.Listed p) := by
  obtain ⟨x, hx, same | ⟨ds, _, rfl⟩⟩ := serverCleanupConnection_ok h wf
  · exact Or.inl (same.2 ▸ hc)
  by_cases hp : p = x.conn
  · subst hp
    simp only [serverCleanupConnection, deref_of_get? hx, deref_of_get? hc, ok_bind] at h
    split at h
    next => exact Or.inl (Except.ok.inj h ▸ hc)
    next =>
      obtain ⟨hm, hk, hv⟩ := wf.full hc
      have sides := deleteConnection_sides h hc hm hk hv
      exact Or.inr ⟨sides.1, sides.2, e, x, hx, rfl⟩
  · left
    rw [Drv.apply, conns_unlink, if_neg hp, conns_enqueueAll]
    exact hc

theorem clientCleanupConnection_severs {k : Ptr} (h : clientCleanupConnection K s k = .ok s') (wf : Wf s)
    (hc : s.gConnsList.get? p = some c) :
    s'.gConnsList.get? p = some c ∨ (¬Unowned s c ∧ ¬ServerLost s c ∧ c.clientP = some k) := by
  obtain ⟨cli, hcli, same | ⟨q, ds, hq, _, rfl⟩⟩ := clientCleanupConnection_ok h wf
  · exact Or.inl (same.2 ▸ hc)
  by_cases hp : p = q
  · subst hp
    simp only [clientCleanupConnection, deref_of_get? hcli, ok_bind, hq] at h
    obtain ⟨hm, hk, hv⟩ := wf.full hc
    have sides := deleteConnection_sides h hc hm hk hv
    obtain ⟨c', hc', hck⟩ := wf.links.clientConn k cli p hcli hq
    cases hc.symm.trans hc'
    refine Or.inr ⟨fun alone => sides.1 (alone.imp_right ?_), sides.2, hck⟩
    rintro ⟨k', cli', hk', hcli', hnone⟩
    by_cases he : k' = k
    · exact ⟨k', { cli' with connP := none }, hk', by simp [Table.get?_modify, he, he ▸ hcli'], hnone⟩
    · exact ⟨k', cli', hk', by simp [Table.get?_modify, he, hcli'], hnone⟩
  · left
    rw [Drv.apply, conns_unlink, if_neg hp, conns_enqueueAll]
    exact hc

theorem Torn.unowned (torn : Torn s s') (alone : Unowned s c) : Unowned s' c := by
  rcases alone with ⟨v, srv, hv, hsrv, hnone⟩ | ⟨k, cli, hk, hcli, hnone⟩
  · exact Or.inl ⟨v, srv, hv, torn.servers ▸ hsrv, hnone⟩
  · obtain ⟨cli', hcli', _, ht, _⟩ := torn.clients k cli hcli
    exact Or.inr ⟨k, cli', hk, hcli', ht.trans hnone⟩

theorem Torn.serverLost (torn : Torn s s') (lost : ServerLost s c) : ServerLost s' c := by
  obtain ⟨v, hv, hnone⟩ := lost
  exact ⟨v, hv, torn.servers ▸ hnone⟩

theorem Torn.listed (torn : Torn s s') (h : s'.Listed p) : s.Listed p := by
  obtain ⟨e, x, hx, hp⟩ := h
  exact ⟨e, x, torn.servConns e x hx, hp⟩

/-- While the connections of task `t` are cleaned up: those that are gone could be deleted. -/
structure Severing (s : Drv) (t : Ptr) (a : Drv) : Prop where
  clean : Cleaning s a
  kept : ∀ p c, s.gConnsList.get? p = some c → a.gConnsList.get? p = some c ∨ Severable s t p c

theorem Severing.refl (wf : Wf s) : Severing s t s := ⟨.refl wf, fun _ _ hc => Or.inl hc⟩

theorem Severing.next {a b : Drv} (h : Severing s t a) (clean : Cleaning a b)
    (severs : ∀ p c, a.gConnsList.get? p = some c → b.gConnsList.get? p = some c ∨
      (¬Unowned a c ∧ ¬ServerLost a c ∧ (a.Listed p ∨ ∃ k, c.clientP = some k ∧ s.OwnsClient t k))) :
    Severing s t b := by
  refine ⟨h.clean.trans clean, fun p c hc => ?_⟩
  rcases h.kept p c hc with hc' | gone
  · rcases severs p c hc' with hc'' | ⟨owned, live, found⟩
    · exact Or.inl hc''
    · have torn := h.clean.torn
      exact Or.inr ⟨fun alone => owned (torn.unowned alone), fun lost => live (torn.serverLost lost),
        found.imp_left torn.listed⟩
  · exact Or.inr gone

theorem Severing.servers (wf : Wf s) (h : forEachEntry (fun s e => do
      serverCleanupConnections K s (← deref s.serversEntries (some e)).server)
      ((s.serversOf t).map Prod.fst) s = .ok s') : Severing s t s' := by
  refine forEachEntry_ok (I := fun _ a => Severing s t a) ?_ h (.refl wf)
  intro e rest a b so hb
  obtain ⟨x, _, hb⟩ := bind_eq_ok.mp hb
  obtain ⟨srv, _, hb⟩ := bind_eq_ok.mp hb
  rw [serverCleanupLoop_eq] at hb
  refine forEachEntry_ok (I := fun _ a => Severing s t a) ?_ hb so
  intro f rest a b so hb
  have severs := fun p c => serverCleanupConnection_severs (p := p) (c := c) hb so.clean.wf
  refine so.next ?_ fun p c hc => (severs p c hc).imp_right fun ⟨ho, hl, hf⟩ => ⟨ho, hl, Or.inl hf⟩
  obtain ⟨y, _, ⟨_, rfl⟩ | ⟨ds, ev⟩⟩ := serverCleanupConnection_ok hb so.clean.wf
  · exact .refl so.clean.wf
  · exact .teardown so.clean.wf ev

theorem Severing.clients (so : Severing s t s') {a : Drv} (h : forEachEntry (fun s e => do
      clientCleanupConnection K s (← deref s.clientsEntries (some e)).client)
      ((s'.clientsOf t).map Prod.fst) s' = .ok a) : Severing s t a := by
  refine (forEachEntry_ok (I := fun es a => Severing s t a ∧ ∀ e ∈ es, ∃ x,
    s.clientsEntries.get? e = some x ∧ x.regTask = t) ?_ h ⟨so, fun e he => ?_⟩).1
  · rintro e rest a b ⟨so, mine⟩ hb
    obtain ⟨x, hx, ht⟩ := mine e List.mem_cons_self
    obtain ⟨y, hy, hb⟩ := bind_eq_ok.mp hb
    cases hx.symm.trans (so.clean.torn.clientsEntries ▸ deref_some hy)
    refine ⟨so.next ?_ fun p c hc => ?_, fun f hf => mine f (List.mem_cons_of_mem e hf)⟩
    · obtain ⟨cli, _, ⟨_, rfl⟩ | ⟨q, ds, _, ev⟩⟩ := clientCleanupConnection_ok hb so.clean.wf
      · exact .refl so.clean.wf
      · exact .teardown so.clean.wf ev
    · exact (clientCleanupConnection_severs hb so.clean.wf hc).imp_right fun ⟨ho, hl, hk⟩ =>
        ⟨ho, hl, Or.inr ⟨x.client, hk, e, x, hx, ht, rfl⟩⟩
  · obtain ⟨x, hx, ht⟩ := mem_clientsOf.mp he
    exact ⟨x, so.clean.torn.clientsEntries ▸ hx, ht⟩

end

/-- An end of the connection belongs to task `t`. -/
def Drv.Touches (s : Drv) (t : Ptr) (c : Connection) : Prop :=
  (∃ v, c.serverP = some v ∧ s.OwnsServer t v) ∨ ∃ k, c.clientP = some k ∧ s.OwnsClient t k

/-- The part of a release's fault that is about connection `p`. -/
def Drv.Blocks (s : Drv) (t : Ptr) (e : Fault) : Prop :=
  ∃ p c, s.gConnsList.get? p = some c ∧ s.Touches t c ∧ Blame s c e

section

variable {K : Kernel} {s a : Drv} {t : Ptr} {e : Fault}

theorem Cleaning.blocks (h : Cleaning s a) (wf : Wf s) (blocked : a.Blocks t e) : s.Blocks t e := by
  obtain ⟨p, c, hc, touch, fault⟩ := blocked
  have hc := h.conn hc
  refine ⟨p, c, hc, ?_, fault.ofTorn h.torn (wf.ends hc)⟩
  unfold Drv.Touches Drv.OwnsServer Drv.OwnsClient at touch ⊢
  rwa [h.torn.serversEntries, h.torn.clientsEntries] at touch

theorem cleanServers_error (wf : Wf s) (h : forEachEntry (fun s e => do
      serverCleanupConnections K s (← deref s.serversEntries (some e)).server)
      ((s.serversOf t).map Prod.fst) s = .error e) : s.Blocks t e := by
  have round := forEachEntry_error (I := fun es a => Cleaning s a ∧
    ∀ f ∈ es, ∃ x, s.serversEntries.get? f = some x ∧ x.regTask = t) ?_ h
    ⟨.refl wf, fun f hf => mem_serversOf.mp hf⟩
  · obtain ⟨f, rest, a, ⟨so, mine⟩, h⟩ := round
    obtain ⟨x, hx, ht⟩ := mine f List.mem_cons_self
    have hx' : a.serversEntries.get? f = some x := so.torn.serversEntries ▸ hx
    simp only [deref_of_get? hx', ok_bind] at h
    obtain ⟨srv, hsrv, _⟩ := so.wf.servers.object f x x.server hx' rfl
    obtain ⟨g, y, c, hy, hyv, hc, fault⟩ :=
      serverCleanupConnections_error so.wf (Table.mem_keys.mpr ⟨srv, hsrv⟩) h
    obtain ⟨c', hc', hv⟩ := so.wf.links.entryConn g y hy
    cases hc.symm.trans hc'
    exact so.blocks wf ⟨y.conn, c, hc, Or.inl ⟨y.server, hv, f, x, hx', ht, hyv.symm⟩, fault⟩
  · rintro f rest a b ⟨so, mine⟩ hb
    obtain ⟨x, _, hb⟩ := bind_eq_ok.mp hb
    exact ⟨so.trans (serverCleanupConnections_ok hb so.wf).1, fun g hg => mine g (List.mem_cons_of_mem f hg)⟩

theorem cleanClients_error (wf : Wf s) (h : forEachEntry (fun s e => do
      clientCleanupConnection K s (← deref s.clientsEntries (some e)).client)
      ((s.clientsOf t).map Prod.fst) s = .error e) : s.Blocks t e := by
  have round := forEachEntry_error (I := fun es a => Cleaning s a ∧
    ∀ f ∈ es, ∃ x, s.clientsEntries.get? f = some x ∧ x.regTask = t) ?_ h
    ⟨.refl wf, fun f hf => mem_clientsOf.mp hf⟩
  · obtain ⟨f, rest, a, ⟨so, mine⟩, h⟩ := round
    obtain ⟨x, hx, ht⟩ := mine f List.mem_cons_self
    have hx' : a.clientsEntries.get? f = some x := so.torn.clientsEntries ▸ hx
    simp only [deref_of_get? hx', ok_bind] at h
    obtain ⟨cli, hcli, _⟩ := so.wf.clients.object f x x.client hx' rfl
    obtain ⟨p, c, hp, hc, fault⟩ := clientCleanupConnection_error so.wf hcli h
    obtain ⟨c', hc', hk⟩ := so.wf.links.clientConn x.client cli p hcli hp
    cases hc.symm.trans hc'
    exact so.blocks wf ⟨p, c, hc, Or.inr ⟨x.client, hk, f, x, hx', ht, rfl⟩, fault⟩
  · rintro f rest a b ⟨so, mine⟩ hb
    obtain ⟨x, _, hb⟩ := bind_eq_ok.mp hb
    refine ⟨?_, fun g hg => mine g (List.mem_cons_of_mem f hg)⟩
    obtain ⟨cli, _, ⟨_, rfl⟩ | ⟨p, ds, _, ev⟩⟩ := clientCleanupConnection_ok hb so.wf
    · exact so
    · exact so.trans (.teardown so.wf ev)

theorem regTaskDelete_error {task : RegTask} (wf : Wf s) (ht : s.gRegTaskList.get? t = some task)
    (h : regTaskDelete K s t = .error e) : s.Blocks t e := by
  simp only [regTaskDelete, deref_of_get? ht, ok_bind] at h
  split at h
  next => cases h
  next =>
    rcases bind_eq_error.mp h with h | ⟨s₁, h₁, h⟩
    · exact cleanServers_error wf h
    obtain ⟨clean₁, servers⟩ := cleanServers_ok wf h₁
    rcases bind_eq_error.mp h with h | ⟨s₂, h₂, h⟩
    · exact clean₁.blocks wf (cleanClients_error clean₁.wf h)
    obtain ⟨clean₂, clients⟩ := cleanClients_ok clean₁.wf h₂
    have first := ServersLeft.first (Releasing.first clean₁ clean₂ servers clients)
    rcases bind_eq_error.mp h with h | ⟨s₃, h₃, h⟩
    · obtain ⟨f, rest, b, left, h⟩ := forEachEntry_error (fun _ _ _ _ => ServersLeft.round) h first
      obtain ⟨x, hx, _⟩ := (left.left f).mp List.mem_cons_self
      exact absurd h (regTaskDeleteServer_error left.so.wf hx)
    have second := ClientsLeft.first (forEachEntry_ok (fun _ _ _ _ => ServersLeft.round) h₃ first)
    rcases bind_eq_error.mp h with h | ⟨_, _, h⟩
    · obtain ⟨f, rest, b, left, h⟩ := forEachEntry_error (fun _ _ _ _ => ClientsLeft.round) h second
      obtain ⟨x, hx, _⟩ := (left.left f).mp List.mem_cons_self
      exact absurd h (regTaskDeleteClient_error left.so.wf hx)
    · cases h

end

end Ripc

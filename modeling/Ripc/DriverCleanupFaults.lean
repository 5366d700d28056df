import Ripc.DriverFaults

namespace Ripc

section

variable {K : Kernel} {s : Drv} {c : Connection} {e : Fault} {p : Ptr}

theorem Blame.ofEnqueueAll {ds : List (Ptr × NotificationData)} (h : Blame (s.enqueueAll ds) c e) :
    Blame s c e := by
  rw [enqueueAll_eq] at h
  exact h

theorem safeDisconnectSubmem_error (hc : s.gConnsList.get? p = some c)
    (mem : ∀ m, c.memP = some m → ∃ sub, s.subMem? m = some sub) : safeDisconnectSubmem s p ≠ .error e := by
  simp only [safeDisconnectSubmem, deref_of_get? hc, ok_bind]
  split
  next => simp
  next m hm =>
    obtain ⟨sub, hsub⟩ := mem m hm
    simp only [derefSubMem, hsub, ok_bind]
    simp

theorem detachClient_error (hc : s.gConnsList.get? p = some c)
    (client : ∀ k, c.clientP = some k → ∃ cli, s.gClientsList.get? k = some cli) :
    detachClient s p ≠ .error e := by
  simp only [detachClient, deref_of_get? hc, ok_bind]
  split
  next => exact nofun
  next k hk =>
    obtain ⟨cli, hcli⟩ := client k hk
    simp only [deref_of_get? hcli, ok_bind]
    exact nofun

theorem detachServer_error (hc : s.gConnsList.get? p = some c) (h : detachServer s p = .error e) :
    e = .useAfterFree ∧ ServerLost s c := by
  simp only [detachServer, deref_of_get? hc, ok_bind] at h
  split at h
  next => cases h
  next v hv =>
    rcases bind_eq_error.mp h with h | ⟨_, _, h⟩
    · rcases deref_eq_error.mp h with ⟨hn, _⟩ | ⟨w, hw, hlost, rfl⟩
      · cases hn
      · exact ⟨rfl, w, hv.trans hw, hlost⟩
    · cases h

theorem deleteConnection_error (h : deleteConnection K s p = .error e) (hc : s.gConnsList.get? p = some c)
    (only : OnlyLinks s p c) (ends : EndsOk s c) : Blame s c e := by
  rcases bind_eq_error.mp h with h | ⟨⟨_, s₁⟩, h₁, h⟩
  · exact blame_of_send h hc ends
  obtain ⟨ds₁, rfl, _⟩ := notificationSend_list h₁
  rcases bind_eq_error.mp h with h | ⟨⟨_, s₂⟩, h₂, h⟩
  · exact (blame_of_send h (conns_enqueueAll s ds₁ ▸ hc) (ends.enqueueAll ds₁)).ofEnqueueAll
  obtain ⟨ds₂, rfl, _⟩ := notificationSend_list h₂
  have hc := conns_enqueueAll s (ds₁ ++ ds₂) ▸ hc
  have only := only.enqueueAll (ds₁ ++ ds₂)
  have ends := ends.enqueueAll (ds₁ ++ ds₂)
  rw [← enqueueAll_append] at h
  rcases bind_eq_error.mp h with h | ⟨s₃, h₃, h⟩
  · exact absurd h (safeDisconnectSubmem_error hc ends.mem)
  obtain ⟨conns₃, rfl, hc₃, _⟩ := safeDisconnectSubmem_ok h₃ hc only.mem
  rcases bind_eq_error.mp h with h | ⟨s₄, h₄, h⟩
  · exact absurd h (detachClient_error hc₃ fun k hk => (ends.client k hk).imp fun _ => And.left)
  obtain ⟨conns₄, rfl, hc₄, _⟩ := detachClient_ok h₄ hc₃ only.client
  rcases bind_eq_error.mp h with h | ⟨s₅, _, h⟩
  · obtain ⟨rfl, v, hv, hlost⟩ := detachServer_error hc₄ h
    have fault : Blame (s.enqueueAll (ds₁ ++ ds₂)) c .useAfterFree := Or.inr ⟨rfl, v, hv, hlost⟩
    exact fault.ofEnqueueAll
  · cases h

theorem clearClient_taskP {clients : Table Client} {k k' : Ptr} {cli : Client} :
    (clients.modify k fun c => { c with connP := none }).get? k' = some cli →
      ∃ old, clients.get? k' = some old ∧ old.taskP = cli.taskP := by
  intro h
  rw [Table.get?_modify] at h
  split at h
  next =>
    obtain ⟨old, hold, rfl⟩ := Option.map_eq_some_iff.mp h
    exact ⟨old, hold, rfl⟩
  next => exact ⟨cli, h, rfl⟩

theorem clientCleanupConnection_error {k : Ptr} {cli : Client} (wf : Wf s)
    (hk : s.gClientsList.get? k = some cli) (h : clientCleanupConnection K s k = .error e) :
    ∃ p c, cli.connP = some p ∧ s.gConnsList.get? p = some c ∧ Blame s c e := by
  simp only [clientCleanupConnection, deref_of_get? hk, ok_bind] at h
  split at h
  next => cases h
  next p hp =>
    obtain ⟨c, hc, _⟩ := wf.links.clientConn k cli p hk hp
    have ends := wf.ends hc
    refine ⟨p, c, hp, hc, ?_⟩
    have fault := deleteConnection_error h hc ((wf.links.only hc).clearClient k) ⟨ends.mem, ?_, ends.server⟩
    · rcases fault with ⟨rfl, server | ⟨k', cli', hk', hcli', hnone⟩⟩ | lost
      · exact Or.inl ⟨rfl, Or.inl server⟩
      · obtain ⟨old, hold, ht⟩ := clearClient_taskP hcli'
        exact Or.inl ⟨rfl, Or.inr ⟨k', old, hk', hold, ht.trans hnone⟩⟩
      · exact Or.inr lost
    · intro k' hk'
      obtain ⟨cli', hcli', entry⟩ := ends.client k' hk'
      simp only [Table.get?_modify, hcli', Option.map_some]
      split <;> exact ⟨_, rfl, entry⟩

theorem serverCleanupConnection_error {v f : Ptr} {x : ServConnList} (wf : Wf s)
    (hx : s.servConns.get? f = some x) (h : serverCleanupConnection K s v f = .error e) :
    ∃ c, s.gConnsList.get? x.conn = some c ∧ Blame s c e := by
  obtain ⟨c, hc, _⟩ := wf.links.entryConn f x hx
  have ends := wf.ends hc
  simp only [serverCleanupConnection, deref_of_get? hx, deref_of_get? hc, ok_bind] at h
  split at h
  next => cases h
  next =>
    have fault := deleteConnection_error h hc ((wf.links.only hc).eraseEntry f)
      ⟨ends.mem, ends.client, ends.server⟩
    exact ⟨c, hc, fault⟩

theorem forEachEntry_error {body : Drv → Ptr → Except Fault Drv} {I : List Ptr → Drv → Prop}
    (round : ∀ f rest a b, I (f :: rest) a → body a f = .ok b → I rest b) {es : List Ptr} {s : Drv}
    (h : forEachEntry body es s = .error e) (hs : I es s) :
    ∃ f rest a, I (f :: rest) a ∧ body a f = .error e := by
  induction es generalizing s with
  | nil => cases h
  | cons f rest ih =>
    rcases bind_eq_error.mp h with h | ⟨b, hb, h⟩
    · exact ⟨f, rest, s, hs, h⟩
    · exact ih h (round f rest s b hs hb)

theorem Blame.ofTorn {s' : Drv} (h : Blame s' c e) (torn : Torn s s') (ends : EndsOk s c) : Blame s c e := by
  rcases h with ⟨rfl, ⟨v, srv, hv, hsrv, hnone⟩ | ⟨k, cli, hk, hcli, hnone⟩⟩ | ⟨rfl, v, hv, hlost⟩
  · exact Or.inl ⟨rfl, Or.inl ⟨v, srv, hv, torn.servers ▸ hsrv, hnone⟩⟩
  · obtain ⟨old, hold, _⟩ := ends.client k hk
    obtain ⟨cli', hcli', _, ht, _⟩ := torn.clients k old hold
    cases hcli.symm.trans hcli'
    exact Or.inl ⟨rfl, Or.inr ⟨k, old, hk, hold, ht.symm.trans hnone⟩⟩
  · exact Or.inr ⟨rfl, v, hv, torn.servers ▸ hlost⟩

theorem Cleaning.conn {s' : Drv} (h : Cleaning s s') {q : Ptr} (hc : s'.gConnsList.get? q = some c) :
    s.gConnsList.get? q = some c := by
  obtain ⟨evs, run, teardowns⟩ := h.run
  refine run.keeps (I := fun a => a.gConnsList.get? q = some c → s.gConnsList.get? q = some c) ?_ id hc
  rintro a ev b hev ih ⟨_, rfl⟩ hb
  have hev := teardowns ev hev
  cases ev with
  | teardown p ds =>
    rw [Drv.apply, conns_unlink, conns_enqueueAll] at hb
    split at hb
    next => cases hb
    next => exact ih hb
  | _ => exact hev.elim

theorem serverCleanupConnections_error {v : Ptr} (wf : Wf s) (live : v ∈ s.gServersList.keys)
    (h : serverCleanupConnections K s v = .error e) :
    ∃ f x c, s.servConns.get? f = some x ∧ x.server = v ∧ s.gConnsList.get? x.conn = some c ∧ Blame s c e := by
  obtain ⟨srv, hv⟩ := Table.mem_keys.mp live
  simp only [serverCleanupConnections, deref_of_get? hv, ok_bind, serverCleanupLoop_eq] at h
  have round := forEachEntry_error (I := fun es a => Cleaning s a ∧ es.Nodup ∧
    ∀ f ∈ es, ∃ y, a.servConns.get? f = some y ∧ y.server = v) ?_ h ⟨.refl wf, ?_, ?_⟩
  · obtain ⟨f, rest, a, ⟨so, nodup, left⟩, hb⟩ := round
    obtain ⟨x, hx, hxv⟩ := left f List.mem_cons_self
    obtain ⟨c, hc, fault⟩ := serverCleanupConnection_error so.wf hx hb
    have hc := so.conn hc
    exact ⟨f, x, c, so.torn.servConns f x hx, hxv, hc, fault.ofTorn so.torn (wf.ends hc)⟩
  · rintro f rest a b ⟨so, nodup, left⟩ hb
    obtain ⟨notIn, nodup⟩ := List.nodup_cons.mp nodup
    obtain ⟨x, hx, ⟨_, rfl⟩ | ⟨ds, ev⟩⟩ := serverCleanupConnection_ok hb so.wf
    · exact ⟨so, nodup, fun g hg => left g (List.mem_cons_of_mem f hg)⟩
    · refine ⟨so.trans (.teardown so.wf ev), nodup, fun g hg => ?_⟩
      obtain ⟨y, hy, hyv⟩ := left g (List.mem_cons_of_mem f hg)
      refine ⟨y, ?_, hyv⟩
      rw [ev.2, Drv.apply, servConns_unlink, enqueueAll_eq]
      refine ⟨hy, fun hp => ?_⟩
      exact notIn (so.wf.links.entryUnique g y f x hy hx hp ▸ hg)
  · exact s.servConns.nodup.sublist (List.filter_sublist.map _)
  · intro f hf
    obtain ⟨⟨g, y⟩, hm, rfl⟩ := List.mem_map.mp hf
    obtain ⟨hm, hyv⟩ := List.mem_filter.mp hm
    exact ⟨y, Table.get?_eq_some.mpr hm, by simpa using hyv⟩

end

end Ripc

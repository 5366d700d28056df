import Ripc.DriverParties

namespace Ripc

/-- What deleting the connections `ps` one by one leaves. -/
structure Parted (s : Drv) (ps : List Ptr) (a : Drv) : Prop where
  conns : ∀ p, a.gConnsList.get? p = if p ∈ ps then none else s.gConnsList.get? p
  clients : ∀ k, a.gClientsList.get? k =
    (s.gClientsList.get? k).map fun cli => { cli with connP := cli.connP.filter (· ∉ ps) }
  entries : ∀ e x, a.servConns.get? e = some x ↔ s.servConns.get? e = some x ∧ x.conn ∉ ps
  parties : ∀ p, p ∉ ps → a.parties? p = s.parties? p
  known : ∀ p ∈ ps, ∃ q, s.parties? p = some q
  nodup : ps.Nodup

section

variable {K : Kernel} {s s' a b : Drv} {p t v k : Ptr} {q : Parties} {ps : List Ptr}

theorem forget_eq_filter (p : Ptr) (o : Option Ptr) : forget p o = o.filter (· ≠ p) := by
  cases o with
  | none => rfl
  | some r => by_cases he : r = p <;> simp [forget, Option.filter, he]

theorem Parted.nil : Parted s [] s := by
  refine ⟨fun p => by simp, fun k => ?_, fun e x => by simp, fun _ _ => rfl, nofun, List.nodup_nil⟩
  cases s.gClientsList.get? k with
  | none => rfl
  | some cli =>
    obtain ⟨id, task, conn⟩ := cli
    cases conn <;> simp [Option.filter]

theorem Parted.cons (h : s.Parts p s') (rest : Parted s' ps a) : Parted s (p :: ps) a := by
  obtain ⟨q, hq, ok, rfl⟩ := h
  have gone : p ∉ ps := by
    intro hm
    obtain ⟨q', hq'⟩ := rest.known p hm
    obtain ⟨c, k, v, m, sides⟩ := sides_of_parties hq'
    have conn := sides.conn
    rw [Drv.apply, conns_unlink, if_pos rfl] at conn
    cases conn
  refine ⟨fun r => ?_, fun k => ?_, fun e x => ?_, fun r hr => ?_, fun r hr => ?_,
    List.nodup_cons.mpr ⟨gone, rest.nodup⟩⟩
  · rw [rest.conns, Drv.apply, conns_unlink, conns_enqueueAll]
    by_cases he : r = p <;> simp [he]
  · rw [rest.clients, Drv.apply, clients_unlink, enqueueAll_eq, Option.map_map]
    congr 1
    funext cli
    simp only [Function.comp, forget_eq_filter, Option.filter_filter]
    congr 2
    funext r
    simp [not_or]
  · rw [rest.entries, Drv.apply, servConns_unlink, enqueueAll_eq, List.mem_cons, not_or, and_assoc]
  · obtain ⟨ne, hr⟩ := not_or.mp (mt List.mem_cons.mpr hr)
    rw [rest.parties r hr, Drv.apply, parties_teardown ne]
  · rcases List.mem_cons.mp hr with rfl | later
    · exact ⟨q, hq⟩
    · obtain ⟨q', hq'⟩ := rest.known r later
      have ne : r ≠ p := by
        rintro rfl
        exact gone later
      rw [Drv.apply, parties_teardown ne] at hq'
      exact ⟨q', hq'⟩

theorem Trace.parted (run : Trace Drv.Parts s ps a) : Parted s ps a := by
  induction run with
  | nil => exact .nil
  | cons head _ ih => exact .cons head ih

theorem Drv.Parts.cleaning (wf : Wf s) (h : s.Parts p s') : Cleaning s s' := by
  obtain ⟨q, _, ev⟩ := h
  exact .teardown wf ev

theorem Reaches.cleaning {P : Ptr → Prop} (wf : Wf s) (run : Reaches Drv.Parts P s a) : Cleaning s a :=
  run.keeps (I := fun a => Cleaning s a) (fun _ _ _ _ so h => so.trans (h.cleaning so.wf)) (.refl wf)

/-- The connection is on the list of server `v`. -/
def Drv.ListedBy (s : Drv) (v p : Ptr) : Prop := ∃ e x, s.servConns.get? e = some x ∧ x.server = v ∧ x.conn = p

theorem Reaches.known {P : Ptr → Prop} (run : Reaches Drv.Parts P s a) : ∃ ps, Parted s ps a ∧ ∀ p ∈ ps, P p := by
  obtain ⟨ps, run, sort⟩ := run
  exact ⟨ps, run.parted, sort⟩

theorem serverCleanupConnections_parts (wf : Wf s) (room : K.Notifies)
    (h : serverCleanupConnections K s v = .ok s') : Reaches Drv.Parts (s.ListedBy v) s s' := by
  obtain ⟨srv, _, h⟩ := bind_eq_ok.mp h
  rw [serverCleanupLoop_eq] at h
  refine forEachEntry_ok (I := fun _ a => Reaches Drv.Parts (s.ListedBy v) s a) ?_ h .refl
  intro e rest a b run hb
  have clean := run.cleaning wf
  obtain ⟨x, hx, ⟨_, rfl⟩ | ⟨own, parts⟩⟩ := serverCleanupConnection_parts clean.wf room hb
  · exact run
  · exact run.trans (.single parts ⟨e, x, clean.torn.servConns e x hx, own, rfl⟩)

/-- The connections that go with task `t`. -/
inductive Drv.Belongs (s : Drv) (t p : Ptr) : Prop
  | server {v : Ptr} (own : s.OwnsServer t v) (listed : s.ListedBy v p)
  | client {k : Ptr} {cli : Client} (own : s.OwnsClient t k) (live : s.gClientsList.get? k = some cli)
      (conn : cli.connP = some p)

theorem cleanServers_parts (wf : Wf s) (room : K.Notifies)
    (h : forEachEntry (fun s e => do
      serverCleanupConnections K s (← deref s.serversEntries (some e)).server)
      ((s.serversOf t).map Prod.fst) s = .ok s') : Reaches Drv.Parts (s.Belongs t) s s' := by
  have done := forEachEntry_ok (I := fun es a => Reaches Drv.Parts (s.Belongs t) s a ∧
    ∀ e ∈ es, ∃ x, s.serversEntries.get? e = some x ∧ x.regTask = t) ?_ h ⟨.refl, fun e he => mem_serversOf.mp he⟩
  · exact done.1
  · rintro e rest a b ⟨run, mine⟩ hb
    have clean := run.cleaning wf
    obtain ⟨x, hx, ht⟩ := mine e List.mem_cons_self
    obtain ⟨y, hy, hb⟩ := bind_eq_ok.mp hb
    cases hx.symm.trans (clean.torn.serversEntries ▸ deref_some hy)
    have more := serverCleanupConnections_parts clean.wf room hb
    refine ⟨run.trans (more.mono fun p listed => ?_), fun f hf => mine f (List.mem_cons_of_mem e hf)⟩
    obtain ⟨f, y, hf, own, hp⟩ := listed
    exact .server ⟨e, x, hx, ht, rfl⟩ ⟨f, y, clean.torn.servConns f y hf, own, hp⟩

theorem cleanClients_parts (wf : Wf s) (room : K.Notifies)
    (h : forEachEntry (fun s e => do
      clientCleanupConnection K s (← deref s.clientsEntries (some e)).client)
      ((s.clientsOf t).map Prod.fst) s = .ok s') : Reaches Drv.Parts (s.Belongs t) s s' := by
  have done := forEachEntry_ok (I := fun es a => Reaches Drv.Parts (s.Belongs t) s a ∧
    ∀ e ∈ es, ∃ x, s.clientsEntries.get? e = some x ∧ x.regTask = t) ?_ h ⟨.refl, fun e he => mem_clientsOf.mp he⟩
  · exact done.1
  · rintro e rest a b ⟨run, mine⟩ hb
    have clean := run.cleaning wf
    obtain ⟨x, hx, ht⟩ := mine e List.mem_cons_self
    obtain ⟨y, hy, hb⟩ := bind_eq_ok.mp hb
    cases hx.symm.trans (clean.torn.clientsEntries ▸ deref_some hy)
    refine ⟨?_, fun f hf => mine f (List.mem_cons_of_mem e hf)⟩
    obtain ⟨cli, hcli, ⟨_, rfl⟩ | ⟨p, hp, parts⟩⟩ := clientCleanupConnection_parts clean.wf room hb
    · exact run
    · obtain ⟨ps, parted, _⟩ := run.known
      rw [parted.clients, Option.map_eq_some_iff] at hcli
      obtain ⟨cli₀, hcli₀, rfl⟩ := hcli
      exact run.trans (.single parts (.client ⟨e, x, hx, ht, rfl⟩ hcli₀ (Option.filter_eq_some_iff.mp hp).1))

/-- No queue and no connection has changed. -/
structure SameNews (s s' : Drv) : Prop where
  queue : ∀ t, s'.queue t = s.queue t
  conns : s'.gConnsList = s.gConnsList

theorem SameNews.refl : SameNews s s := ⟨fun _ => rfl, rfl⟩

theorem SameNews.trans (h : SameNews s a) (h' : SameNews a b) : SameNews s b :=
  ⟨fun t => (h'.queue t).trans (h.queue t), h'.conns.trans h.conns⟩

theorem regTaskDeleteServer_sameNews {e : Option Ptr} (h : regTaskDeleteServer s e = .ok s') : SameNews s s' := by
  cases e with
  | none =>
    cases h
    exact .refl
  | some e =>
    obtain ⟨x, srv, _, _, rfl⟩ := regTaskDeleteServer_ok h
    exact ⟨fun t => (queue_modify x.regTask (by intro _; rfl)).trans (List.append_nil _), rfl⟩

theorem regTaskDeleteClient_sameNews {e : Option Ptr} (h : regTaskDeleteClient s e = .ok s') : SameNews s s' := by
  cases e with
  | none =>
    cases h
    exact .refl
  | some e =>
    obtain ⟨x, cli, _, _, rfl⟩ := regTaskDeleteClient_ok h
    exact ⟨fun t => (queue_modify x.regTask (by intro _; rfl)).trans (List.append_nil _), rfl⟩

theorem forEachEntry_sameNews {body : Drv → Ptr → Except Fault Drv} {es : List Ptr}
    (round : ∀ e a b, body a e = .ok b → SameNews a b) (h : forEachEntry body es s = .ok s') : SameNews s s' :=
  forEachEntry_ok (I := fun _ a => SameNews s a) (fun e _ a b same hb => same.trans (round e a b hb)) h .refl

end

/-- The loops of `reg_task_delete`, before the task itself goes and its notifications with it. -/
def regTaskEmpty (K : Kernel) (s : Drv) (regTask : Ptr) : Except Fault Drv := do
  let s ← forEachEntry (fun s e => do
    serverCleanupConnections K s (← deref s.serversEntries (some e)).server)
    ((s.serversOf regTask).map Prod.fst) s
  let s ← forEachEntry (fun s e => do
    clientCleanupConnection K s (← deref s.clientsEntries (some e)).client)
    ((s.clientsOf regTask).map Prod.fst) s
  let s ← forEachEntry (fun s e => regTaskDeleteServer s (some e)) ((s.serversOf regTask).map Prod.fst) s
  forEachEntry (fun s e => regTaskDeleteClient s (some e)) ((s.clientsOf regTask).map Prod.fst) s

section

variable {K : Kernel} {s s' a : Drv} {t : Ptr}

theorem TaskLoops.empty {s₁ s₂ s₃ s₄ : Drv} (h : TaskLoops K s t s₁ s₂ s₃ s₄) : regTaskEmpty K s t = .ok s₄ := by
  simp only [regTaskEmpty, h.cleanServers, h.cleanClients, h.dropServers, h.dropClients, ok_bind]

/-- Exactly the connections of the task are deleted. -/
theorem TaskLoops.parts {s₁ s₂ s₃ : Drv} (wf : Wf s) (room : K.Notifies) (h : TaskLoops K s t s₁ s₂ s₃ a) :
    ∃ ps, Trace Drv.Parts s ps s₂ ∧ (∀ p, p ∈ ps ↔ s.Belongs t p) ∧ SameNews s₂ a := by
  obtain ⟨h₁, h₂, h₃, h₄⟩ := h
  obtain ⟨clean₁, servers⟩ := cleanServers_ok wf h₁
  obtain ⟨_, clients⟩ := cleanClients_ok clean₁.wf h₂
  obtain ⟨ps, run, mine⟩ := cleanServers_parts wf room h₁
  obtain ⟨ps', run', mine'⟩ := cleanClients_parts clean₁.wf room h₂
  have first := run.parted
  have whole := (run.append run').parted
  refine ⟨ps ++ ps', run.append run', fun p => ⟨fun hp => ?_, fun hp => ?_⟩, ?_⟩
  · rcases List.mem_append.mp hp with hp | hp
    · exact mine p hp
    · cases mine' p hp with
      | server own listed =>
        obtain ⟨e, x, hx, ht, hv⟩ := own
        obtain ⟨f, y, hf, hy, hp⟩ := listed
        exact .server ⟨e, x, clean₁.torn.serversEntries ▸ hx, ht, hv⟩ ⟨f, y, clean₁.torn.servConns f y hf, hy, hp⟩
      | client own live conn =>
        obtain ⟨e, x, hx, ht, hk⟩ := own
        rw [first.clients, Option.map_eq_some_iff] at live
        obtain ⟨cli, hcli, rfl⟩ := live
        exact .client ⟨e, x, clean₁.torn.clientsEntries ▸ hx, ht, hk⟩ hcli (Option.filter_eq_some_iff.mp conn).1
  · by_contra left
    cases hp with
    | server own listed =>
      obtain ⟨e, x, hx, ht, rfl⟩ := own
      obtain ⟨f, y, hf, hy, rfl⟩ := listed
      have kept := (first.entries f y).mpr ⟨hf, fun hm => left (List.mem_append_left _ hm)⟩
      exact servers f y e x kept hx ht hy
    | client own live conn =>
      obtain ⟨e, x, hx, ht, rfl⟩ := own
      obtain ⟨cli, hcli, idle⟩ := clients e x (clean₁.torn.clientsEntries ▸ hx) ht
      rw [whole.clients, live, Option.map_some, Option.some.injEq] at hcli
      subst hcli
      simp [conn, Option.filter, left] at idle
  · have same := forEachEntry_sameNews (fun _ _ _ => regTaskDeleteServer_sameNews) h₃
    exact same.trans (forEachEntry_sameNews (fun _ _ _ => regTaskDeleteClient_sameNews) h₄)

end

end Ripc

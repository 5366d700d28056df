import Ripc.DriverSevered

namespace Ripc

section

variable {α β : Type} {objs₀ objs : Table α} {entries₀ entries : Table β} {obj regTask : β → Ptr} {id : α → Int}
  {t : Ptr} {used used' : List Int}

/-- While the entries of task `t` are dropped one by one: what is gone has given back its id, and nobody
else's objects are touched. -/
structure Emptying (objs₀ objs : Table α) (entries₀ entries : Table β) (obj regTask : β → Ptr) (id : α → Int)
    (t : Ptr) (used : List Int) : Prop where
  entryWas : ∀ e x, entries.get? e = some x → entries₀.get? e = some x
  objWas : ∀ k o, objs.get? k = some o → objs₀.get? k = some o
  gone : ∀ e x o, entries₀.get? e = some x → regTask x = t → objs₀.get? (obj x) = some o →
    entries.get? e = some x ∨ (objs.get? (obj x) = none ∧ id o ∉ used)
  others : ∀ k o, objs₀.get? k = some o → (∀ e x, entries₀.get? e = some x → regTask x = t → obj x ≠ k) →
    objs.get? k = some o

theorem Emptying.refl : Emptying objs objs entries entries obj regTask id t used :=
  ⟨fun _ _ h => h, fun _ _ h => h, fun _ _ _ h _ _ => Or.inl h, fun _ _ h _ => h⟩

theorem Emptying.less (h : Emptying objs₀ objs entries₀ entries obj regTask id t used) (sub : used' ⊆ used) :
    Emptying objs₀ objs entries₀ entries obj regTask id t used' :=
  { h with gone := fun e x o hx ht ho => (h.gone e x o hx ht ho).imp_right fun ⟨hn, hid⟩ =>
      ⟨hn, fun hm => hid (sub hm)⟩ }

theorem Emptying.drop (h : Emptying objs₀ objs entries₀ entries obj regTask id t used) {e : Ptr} {x : β} {o : α}
    (hx : entries.get? e = some x) (ht : regTask x = t) (ho : objs.get? (obj x) = some o) (sub : used' ⊆ used)
    (free : id o ∉ used') :
    Emptying objs₀ (objs.erase (obj x)) entries₀ (entries.erase e) obj regTask id t used' := by
  refine ⟨fun f y hy => h.entryWas f y (Table.get?_erase_some.mp hy).2,
    fun k o hk => h.objWas k o (Table.get?_erase_some.mp hk).2, ?_, ?_⟩
  · intro f y o' hy hty ho'
    rcases h.gone f y o' hy hty ho' with hleft | ⟨hnone, hid⟩
    · by_cases hf : f = e
      · subst hf
        cases hleft.symm.trans hx
        cases (h.objWas _ _ ho).symm.trans ho'
        exact Or.inr ⟨by simp [Table.get?_erase], free⟩
      · exact Or.inl (Table.get?_erase_some.mpr ⟨hf, hleft⟩)
    · refine Or.inr ⟨?_, fun hm => hid (sub hm)⟩
      rw [Table.get?_erase]
      split
      · rfl
      · exact hnone
  · intro k o' hk alone
    exact Table.get?_erase_some.mpr ⟨(alone e x (h.entryWas e x hx) ht).symm, h.others k o' hk alone⟩

end

def UsedValid (s : Drv) : Prop := ∀ id ∈ s.gIdGen, isIdValid id = true

theorem takeIds_valid {ids : List Int} {s : Drv} (h : UsedValid s) (fresh : FreshIds s.gIdGen ids) :
    UsedValid (s.takeIds ids) := by
  induction ids generalizing s with
  | nil => exact h
  | cons id ids ih =>
    refine ih (fun i hi => ?_) fresh.2
    simp only [Drv.takeId] at hi
    split at hi
    next => exact h i hi
    next h0 =>
      rcases List.mem_cons.mp hi with rfl | hi
      · exact isIdValid_iff.mpr ⟨by omega, (fresh.1 (by omega)).1⟩
      · exact h i hi

theorem freeId_subset (s : Drv) (id : Int) : (freeId s id).gIdGen ⊆ s.gIdGen := by
  intro i hi
  simp only [freeId] at hi
  split at hi
  · exact (List.mem_filter.mp hi).1
  · exact hi

theorem freeId_free {s : Drv} (h : UsedValid s) (id : Int) : id ∉ (freeId s id).gIdGen := by
  simp only [freeId]
  split
  next => simp
  next invalid => exact fun hm => invalid (h id hm)

theorem UsedValid.event {s s' : Drv} {ev : Event} (h : UsedValid s) (he : s.event ev s') : UsedValid s' := by
  obtain ⟨ok, rfl⟩ := he
  cases ev with
  | addServer v name id owner =>
    have new : UsedValid (s.addServer v name id) := takeIds_valid h ok.2.1
    cases owner <;> exact new
  | addClient k id owner =>
    have new : UsedValid (s.addClient k id) := takeIds_valid h ok.2.1
    cases owner <;> exact new
  | addPool p shm => exact takeIds_valid h ok.2.2.1
  | dropServer e x id => exact fun i hi => h i (freeId_subset s id hi)
  | dropClient e x id => exact fun i hi => h i (freeId_subset s id hi)
  | teardown p ds => rw [Drv.apply, enqueueAll_eq]; exact h
  | _ => exact h

theorem Reachable.usedValid {s : Drv} (h : Reachable s) : UsedValid s := by
  obtain ⟨calls, run⟩ := h
  refine (run.invariant (I := fun s => Wf s ∧ UsedValid s) (fun a call b h hs => ⟨h.1.step hs, ?_⟩)
    ⟨.init, fun id hid => absurd hid List.not_mem_nil⟩).2
  obtain ⟨r, hr⟩ := hs
  exact (step_ok h.1 hr).keeps (fun _ _ _ _ valid ev => valid.event ev) h.2

section

variable {K : Kernel} {s s' a : Drv} {t : Ptr}

/-- While the last two loops of `reg_task_delete` run; `s` is the state before them. -/
structure Dropping (s : Drv) (t : Ptr) (a : Drv) : Prop where
  valid : UsedValid a
  conns : a.gConnsList = s.gConnsList
  pools : a.gShmList = s.gShmList
  tasks : a.gRegTaskList.keys = s.gRegTaskList.keys
  count : a.gRegTaskCount = s.gRegTaskCount
  servers : Emptying s.gServersList a.gServersList s.serversEntries a.serversEntries ServersList.server
    ServersList.regTask Server.id t a.gIdGen
  clients : Emptying s.gClientsList a.gClientsList s.clientsEntries a.clientsEntries ClientsList.client
    ClientsList.regTask Client.id t a.gIdGen

theorem Dropping.refl (valid : UsedValid s) : Dropping s t s :=
  ⟨valid, rfl, rfl, rfl, rfl, .refl, .refl⟩

theorem Dropping.server {b : Drv} {e : Ptr} {x : ServersList} (h : Dropping s t a)
    (hx : a.serversEntries.get? e = some x) (ht : x.regTask = t)
    (hb : regTaskDeleteServer a (some e) = .ok b) : Dropping s t b := by
  obtain ⟨y, srv, hy, hsrv, rfl⟩ := regTaskDeleteServer_ok hb
  cases hx.symm.trans hy
  have less := freeId_subset a srv.id
  exact ⟨fun i hi => h.valid i (less hi), h.conns, h.pools, (Table.keys_modify _).trans h.tasks, h.count,
    h.servers.drop hx ht hsrv less (freeId_free h.valid srv.id), h.clients.less less⟩

theorem Dropping.client {b : Drv} {e : Ptr} {x : ClientsList} (h : Dropping s t a)
    (hx : a.clientsEntries.get? e = some x) (ht : x.regTask = t)
    (hb : regTaskDeleteClient a (some e) = .ok b) : Dropping s t b := by
  obtain ⟨y, cli, hy, hcli, rfl⟩ := regTaskDeleteClient_ok hb
  cases hx.symm.trans hy
  have less := freeId_subset a cli.id
  exact ⟨fun i hi => h.valid i (less hi), h.conns, h.pools, (Table.keys_modify _).trans h.tasks, h.count,
    h.servers.less less, h.clients.drop hx ht hcli less (freeId_free h.valid cli.id)⟩

theorem Cleaning.frame (h : Cleaning s a) : a.gRegTaskCount = s.gRegTaskCount ∧ a.gIdGen = s.gIdGen := by
  refine h.run.keeps (I := fun b => b.gRegTaskCount = s.gRegTaskCount ∧ b.gIdGen = s.gIdGen) ?_ ⟨rfl, rfl⟩
  rintro b ev b' isTeardown same ⟨_, rfl⟩
  cases ev with
  | teardown p ds =>
    rw [Drv.apply, enqueueAll_eq]
    exact same
  | _ => exact isTeardown.elim

/-- A sub-memory only ever loses its connection to a tear-down. -/
theorem Cleaning.subMem (h : Cleaning s a) {m : SubMemPtr} {sub : SubMem} (hm : s.subMem? m = some sub) :
    ∃ sub', a.subMem? m = some sub' ∧ ∀ q, sub'.connP = some q → sub.connP = some q := by
  refine h.run.keeps (I := fun b => ∃ sub', b.subMem? m = some sub' ∧
    ∀ q, sub'.connP = some q → sub.connP = some q) ?_ ⟨sub, hm, fun _ hq => hq⟩
  rintro b ev b' isTeardown ⟨sub', hsub', back⟩ ⟨_, rfl⟩
  cases ev with
  | teardown p ds =>
    refine ⟨{ sub' with connP := forget p sub'.connP }, ?_, fun q hq => back q (forget_eq_some.mp hq).1⟩
    simp only [Drv.subMem?] at hsub'
    rw [Drv.apply, Drv.subMem?, subMemAt_unlink, enqueueAll_eq, hsub', Option.map_some]
  | _ => exact isTeardown.elim

theorem Cleaning.entry (h : Cleaning s a) {f : Ptr} {y : ServConnList} (hy : s.servConns.get? f = some y) :
    a.gConnsList.get? y.conn = none ∨ a.servConns.get? f = some y := by
  refine h.run.keeps (I := fun b => b.gConnsList.get? y.conn = none ∨ b.servConns.get? f = some y) ?_ (Or.inr hy)
  rintro b ev b' isTeardown hb ⟨_, rfl⟩
  cases ev with
  | teardown p ds =>
    rw [Drv.apply, conns_unlink, servConns_unlink, enqueueAll_eq]
    by_cases hp : y.conn = p
    · exact Or.inl (if_pos hp)
    · rw [if_neg hp]
      exact hb.imp_right fun hy => ⟨hy, hp⟩
  | _ => exact isTeardown.elim

theorem Releasing.severed (so : Releasing s t a) (clean : Cleaning s a) {p : Ptr} {c : Connection}
    (hc : s.gConnsList.get? p = some c) (wf : Wf s) (touch : s.Touches t c) (can : Severable s t p c) :
    a.gConnsList.get? p = none := by
  by_contra hne
  obtain ⟨c', hc'⟩ := Option.ne_none_iff_exists'.mp hne
  cases (clean.conn hc').symm.trans hc
  have notClient : ∀ k, c.clientP = some k → ¬s.OwnsClient t k := by
    rintro k hk ⟨e, x, hx, ht, rfl⟩
    obtain ⟨cli, hcli, hnone⟩ := so.clients e x (clean.torn.clientsEntries ▸ hx) ht
    obtain ⟨cli', hcli', hp⟩ := so.wf.links.connClient p c x.client hc' hk
    cases hcli.symm.trans hcli'
    rw [hnone] at hp
    cases hp
  rcases touch with ⟨v, hv, e, x, hx, ht, rfl⟩ | ⟨k, hk, owned⟩
  · rcases can.found with ⟨f, y, hy, rfl⟩ | ⟨k, hk, owned⟩
    · obtain ⟨c', hc'', hserver⟩ := wf.links.entryConn f y hy
      cases hc.symm.trans hc''
      have hy' := (clean.entry hy).resolve_left hne
      refine so.servers f y e x hy' (clean.torn.serversEntries ▸ hx) ht ?_
      exact Option.some.inj (hserver.symm.trans hv)
    · exact notClient k hk owned
  · exact notClient k hk owned

/-- The four loops of `reg_task_delete` and what comes after them. -/
theorem regTaskDelete_loops {task : RegTask} (ht : s.gRegTaskList.get? t = some task)
    (alive : K.pidAlive task.taskP = true) (wf : Wf s) (valid : UsedValid s) (h : regTaskDelete K s t = .ok s') :
    ∃ b a, Severing s t b ∧ Releasing s t b ∧ Dropping b t a ∧
      (∀ e x, a.serversEntries.get? e = some x → x.regTask ≠ t) ∧
      (∀ e x, a.clientsEntries.get? e = some x → x.regTask ≠ t) ∧
      s' = { a with gRegTaskList := a.gRegTaskList.erase t, gRegTaskCount := a.gRegTaskCount - 1 } := by
  rcases regTaskDelete_calls ht h with ⟨dead, _⟩ | ⟨_, s₁, s₂, s₃, s₄, ⟨h₁, h₂, h₃, h₄⟩, rfl⟩
  · rw [alive] at dead
    cases dead
  obtain ⟨clean₁, servers⟩ := cleanServers_ok wf h₁
  obtain ⟨clean₂, clients⟩ := cleanClients_ok clean₁.wf h₂
  have severing := (Severing.servers wf h₁).clients h₂
  have valid₂ : UsedValid s₂ := by
    intro id hid
    rw [(clean₁.trans clean₂).frame.2] at hid
    exact valid id hid
  have so := Releasing.first clean₁ clean₂ servers clients
  have left := forEachEntry_ok (I := fun es a => ServersLeft s t es a ∧ Dropping s₂ t a) ?_ h₃
    ⟨.first so, .refl valid₂⟩
  · have done := forEachEntry_ok (I := fun es a => ClientsLeft s t es a ∧ Dropping s₂ t a) ?_ h₄
      ⟨.first left.1, left.2⟩
    · exact ⟨s₂, s₄, severing, so, done.2, done.1.noServers,
        fun e x hx ht => List.not_mem_nil ((done.1.left e).mpr ⟨x, hx, ht⟩), rfl⟩
    · rintro e rest b c ⟨todo, dropping⟩ hc
      obtain ⟨x, hx, ht⟩ := (todo.left e).mp List.mem_cons_self
      exact ⟨todo.round hc, dropping.client hx ht hc⟩
  · rintro e rest b c ⟨todo, dropping⟩ hc
    obtain ⟨x, hx, ht⟩ := (todo.left e).mp List.mem_cons_self
    exact ⟨todo.round hc, dropping.server hx ht hc⟩

end

end Ripc

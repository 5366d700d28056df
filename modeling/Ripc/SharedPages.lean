import Ripc.DriverRuns

namespace Ripc

/-- The page frames from `first` on that `size` bytes cover. -/
def Covers (first size f : Nat) : Prop := first ≤ f ∧ f < first + size / pageSize

/-- The block of page frames that `alloc_pages` gave to the pool. -/
def Shm.Block (shm : Shm) (f : Nat) : Prop := shm.pages ≤ f ∧ f < shm.pages + 2 ^ shmRegionOrder

/-- A call that would make a connection finds none in the list. -/
def Call.ConnectsAlone (call : Call) (s : Drv) : Prop :=
  ∀ filp con k cli v, call.op = .ioctl filp (.connectToServer con) → call.kernel.copyFromUser = true →
    findClientById s con.clientId = some k → s.gClientsList.get? k = some cli → cli.connP = none →
    findServerByName s con.serverName.toList = .ok (some v) → call.kernel.kmalloc .conn s ≠ none →
    s.gConnsList.keys = []

/-- What holds while connections are made one at a time: there is one pool at most, one
connection at most, and it uses the pool's first slot. -/
structure OnePool (s : Drv) : Prop where
  wf : Wf s
  slots : ∀ q shm i, s.gShmList.get? q = some shm →
    (shm.subMems i).pages = shm.pages + i * shmRegionPageNumber ∧ (shm.subMems i).size = shmRegionPageSize
  pool : ∀ q q', q ∈ s.gShmList.keys → q' ∈ s.gShmList.keys → q = q'
  alone : ∀ p p', p ∈ s.gConnsList.keys → p' ∈ s.gConnsList.keys → p = p'
  first : ∀ p c m, s.gConnsList.get? p = some c → c.memP = some m → m.slot = ⟨0, by decide⟩

theorem OnePool.init : OnePool Drv.init := ⟨.init, nofun, nofun, nofun, nofun⟩

theorem slots_free {s : Drv} (wf : Wf s) (none : s.gConnsList.keys = []) {q : Ptr} {shm : Shm}
    (hq : s.gShmList.get? q = some shm) (i : Fin shmPoolSize) : (shm.subMems i).connP = .none := by
  cases hp : (shm.subMems i).connP with
  | none => rfl
  | some p =>
    obtain ⟨c, hc, _⟩ := wf.links.memConn ⟨q, i⟩ (shm.subMems i) p (by simp [subMemAt, hq]) hp
    have live : p ∈ s.gConnsList.keys := Table.mem_keys.mpr ⟨c, hc⟩
    rw [none] at live
    cases live

theorem shmGetFreeSubmem_first {shm : Shm} (h : ∀ i, (shm.subMems i).connP = none) :
    shmGetFreeSubmem shm = some ⟨0, by decide⟩ := by
  have free : (shm.subMems ⟨0, by decide⟩).connP.isNone = true := by rw [h]; rfl
  exact List.find?_cons_of_pos free

theorem findFreeSubmem_first {s : Drv} {m : SubMemPtr} (wf : Wf s) (none : s.gConnsList.keys = [])
    (h : findFreeSubmem s = some m) : m.slot = ⟨0, by decide⟩ := by
  obtain ⟨⟨q, shm⟩, hm, hf⟩ := List.exists_of_findSome?_eq_some h
  rw [shmGetFreeSubmem_first fun i => slots_free wf none (Table.get?_eq_some.mpr hm) i] at hf
  cases hf
  rfl

theorem OnePool.noPool {s : Drv} (h : OnePool s) (full : findFreeSubmem s = none) : s.gShmList.keys = [] := by
  refine List.eq_nil_iff_forall_not_mem.mpr fun q hq => ?_
  obtain ⟨shm, hshm⟩ := Table.mem_keys.mp hq
  have taken : ∀ i : Fin shmPoolSize, ∃ p c, s.gConnsList.get? p = some c ∧ c.memP = some ⟨q, i⟩ := by
    intro i
    have notFree := List.findSome?_eq_none_iff.mp full (q, shm) (Table.get?_eq_some.mp hshm)
    have used : ¬(shm.subMems i).connP.isNone = true :=
      List.find?_eq_none.mp (Option.map_eq_none_iff.mp notFree) i (List.mem_finRange i)
    obtain ⟨p, hp⟩ : ∃ p, (shm.subMems i).connP = some p := by
      refine Option.ne_none_iff_exists'.mp fun hn => used ?_
      rw [hn]
      rfl
    obtain ⟨c, hc, hm⟩ := h.wf.links.memConn ⟨q, i⟩ (shm.subMems i) p (by simp [subMemAt, hshm]) hp
    exact ⟨p, c, hc, hm⟩
  obtain ⟨p, c, hc, hm⟩ := taken ⟨0, by decide⟩
  obtain ⟨p', c', hc', hm'⟩ := taken ⟨1, by decide⟩
  cases h.alone p p' (Table.mem_keys.mpr ⟨c, hc⟩) (Table.mem_keys.mpr ⟨c', hc'⟩)
  cases hc.symm.trans hc'
  cases hm.symm.trans hm'

theorem OnePool.noConn {s : Drv} (h : OnePool s) (full : findFreeSubmem s = none) : s.gConnsList.keys = [] := by
  refine List.eq_nil_iff_forall_not_mem.mpr fun p hp => ?_
  obtain ⟨c, hc⟩ := Table.mem_keys.mp hp
  obtain ⟨_, ⟨m, hm⟩, _⟩ := h.wf.links.connFull p c hc
  obtain ⟨sub, hsub, _⟩ := h.wf.links.connMem p c m hc hm
  obtain ⟨shm, hshm, _⟩ := Option.map_eq_some_iff.mp hsub
  have live := Table.mem_keys.mpr ⟨shm, hshm⟩
  rw [h.noPool full] at live
  cases live

theorem OnePool.addPool {s s' : Drv} {p : Ptr} {shm : Shm} (h : OnePool s)
    (ev : s.event (.addPool p shm) s') : OnePool s' := by
  have wf := h.wf.event ev
  obtain ⟨⟨fresh, full, _, ⟨_, slots⟩, _⟩, rfl⟩ := ev
  have noPool := h.noPool full
  rw [Drv.apply, Drv.addPool, takeIds_frame] at wf ⊢
  refine ⟨wf, fun q shm' i hq => ?_, ?_, h.alone, h.first⟩
  · rw [Table.get?_pushFront fresh] at hq
    split at hq
    next =>
      cases hq
      exact ⟨(slots i).1, (slots i).2.1⟩
    next => exact h.slots q shm' i hq
  · intro q q' hq hq'
    rw [Table.keys_pushFront fresh, noPool, List.mem_singleton] at hq hq'
    rw [hq, hq']

theorem OnePool.link {s s' : Drv} {p k v : Ptr} {m : SubMemPtr} {e : Option Ptr} (h : OnePool s)
    (none : s.gConnsList.keys = []) (ev : s.event (.link p k v m e) s') : OnePool s' := by
  have wf := h.wf.event ev
  obtain ⟨⟨fresh, _, _, free, _⟩, rfl⟩ := ev
  refine ⟨wf, fun q shm i hq => ?_, ?_, ?_, ?_⟩
  · simp only [Drv.apply, Drv.link, Drv.setSubMem, Table.get?_modify] at hq
    split at hq
    next =>
      obtain ⟨old, hold, rfl⟩ := Option.map_eq_some_iff.mp hq
      have hslot := h.slots q old i hold
      simp only
      split <;> exact hslot
    next => exact h.slots q shm i hq
  · simpa only [Drv.apply, Drv.link, Drv.setSubMem, Table.keys_modify] using h.pool
  · intro q q' hq hq'
    rw [Drv.apply, Drv.link, Table.keys_pushBack fresh, none, List.nil_append, List.mem_singleton] at hq hq'
    rw [hq, hq']
  · intro q c m' hc hm
    rw [Drv.apply, conns_link fresh] at hc
    split at hc
    next =>
      cases hc
      cases hm
      exact findFreeSubmem_first h.wf none free
    next =>
      have live := Table.mem_keys.mpr ⟨c, hc⟩
      rw [none] at live
      cases live

theorem OnePool.unlink {s : Drv} (h : OnePool s) (p : Ptr) : OnePool (s.unlink p) := by
  have old : ∀ {q c}, (s.unlink p).gConnsList.get? q = some c → s.gConnsList.get? q = some c :=
    fun hc => (Table.get?_erase_some.mp hc).2
  refine ⟨h.wf.unlink p, fun q shm i hq => ?_, ?_, ?_, fun q c m hc hm => h.first q c m (old hc) hm⟩
  · rw [Drv.unlink, Table.get?_mapAt] at hq
    obtain ⟨before, hb, rfl⟩ := Option.map_eq_some_iff.mp hq
    exact h.slots q before i hb
  · simpa only [Drv.unlink, Table.keys_mapAt] using h.pool
  · intro q q' hq hq'
    obtain ⟨c, hc⟩ := Table.mem_keys.mp hq
    obtain ⟨c', hc'⟩ := Table.mem_keys.mp hq'
    exact h.alone q q' (Table.mem_keys.mpr ⟨c, old hc⟩) (Table.mem_keys.mpr ⟨c', old hc'⟩)

/-- The events that make neither a pool nor a connection. -/
def Event.IsQuiet : Event → Prop
  | .addPool _ _ | .link _ _ _ _ _ => False
  | _ => True

theorem OnePool.event {s s' : Drv} {ev : Event} (h : OnePool s) (quiet : ev.IsQuiet)
    (he : s.event ev s') : OnePool s' := by
  have wf := h.wf.event he
  obtain ⟨ok, rfl⟩ := he
  cases ev with
  | addServer v name id owner => cases owner <;> exact ⟨wf, h.slots, h.pool, h.alone, h.first⟩
  | addClient k id owner => cases owner <;> exact ⟨wf, h.slots, h.pool, h.alone, h.first⟩
  | addPool | link => exact quiet.elim
  | mmaped p =>
    refine ⟨wf, h.slots, h.pool, ?_, fun q c m hc hm => ?_⟩
    · simpa only [Drv.apply, Table.keys_modify] using h.alone
    · rw [Drv.apply, Table.get?_modify] at hc
      split at hc
      next =>
        obtain ⟨old, hold, rfl⟩ := Option.map_eq_some_iff.mp hc
        exact h.first q old m hold hm
      next => exact h.first q c m hc hm
  | teardown p ds =>
    have posted := h.wf.enqueueAll ds
    rw [Drv.apply, enqueueAll_eq]
    rw [enqueueAll_eq] at posted
    exact OnePool.unlink ⟨posted, h.slots, h.pool, h.alone, h.first⟩ p
  | _ => exact ⟨wf, h.slots, h.pool, h.alone, h.first⟩

theorem Call.May.quiet {call : Call} {s : Drv} {ev : Event} (h : call.May s ev)
    (other : ∀ filp con, call.op ≠ .ioctl filp (.connectToServer con)) : ev.IsQuiet := by
  cases ev with
  | addPool p shm =>
    obtain ⟨filp, con, op⟩ := h
    exact other filp con op
  | link p k v m e =>
    obtain ⟨filp, con, op, _⟩ := h
    exact other filp con op
  | _ => trivial

theorem OnePool.connect {K : Kernel} {s s' : Drv} {r : Reply} {filp : Ptr} {con : ConnectToServer}
    (h : OnePool s) (alone : (Call.mk K (.ioctl filp (.connectToServer con))).ConnectsAlone s)
    (hs : connectToServer K s con = .ok (r, s')) : OnePool s' := by
  rcases connectToServer_ok hs with ⟨_, rfl⟩ | ⟨k, cli, v, s₁, copy, hk, hcli, hnone, hf, pool, done⟩
  · exact h
  have h₁ : OnePool s₁ := by
    rcases pool with rfl | ⟨p, shm, ev, _⟩
    · exact h
    · exact h.addPool ev
  rcases done with ⟨_, rfl⟩ | ⟨_, p, m, e, hp, ev, _⟩
  · exact h₁
  refine h₁.link ?_ ev
  rcases pool with rfl | ⟨q, shm, ⟨⟨_, full, _⟩, rfl⟩, _⟩
  · exact alone filp con k cli v rfl copy hk hcli hnone hf (by rw [hp]; exact nofun)
  · rw [Drv.apply, Drv.addPool, takeIds_frame]
    exact h.noConn full

theorem OnePool.step {s s' : Drv} {call : Call} (h : OnePool s) (alone : call.ConnectsAlone s)
    (hs : Returns s call s') : OnePool s' := by
  obtain ⟨r, hr⟩ := hs
  by_cases other : ∀ filp con, call.op ≠ .ioctl filp (.connectToServer con)
  · exact (step_ok h.wf hr).keeps (fun _ _ _ may ha he => ha.event (may.quiet other) he) h
  · obtain ⟨K, op⟩ := call
    simp only [not_forall, not_not] at other
    obtain ⟨filp, con, rfl⟩ := other
    simp only [Ripc.step, ipcIoctl] at hr
    split at hr
    next => cases hr; exact h
    next => exact h.connect alone hr

/-- What the kernel is promised about the pages of a state: a mapping stays inside the block of its
pool, and two slots never share a frame. -/
structure PagesSafe (s : Drv) : Prop where
  inBlock : ∀ K arg r s' first size, ipcMmap K s arg = .ok (r, s') → r.out = .mapped first size →
    ∃ (m : SubMemPtr) (shm : Shm), s.gShmList.get? m.shm = some shm ∧ first = (shm.subMems m.slot).pages ∧
      size = (shm.subMems m.slot).size ∧ ∀ f, Covers first size f → shm.Block f
  apart : ∀ m m' sub sub' f, s.subMem? m = some sub → s.subMem? m' = some sub' → m ≠ m' →
    Covers sub.pages sub.size f → ¬Covers sub'.pages sub'.size f

theorem OnePool.pagesSafe {s : Drv} (h : OnePool s) : PagesSafe s := by
  constructor
  · intro K arg r s' first size hr hout
    obtain ⟨p, c, m, sub, hc, hm, hsub, rfl, rfl⟩ :=
      (ipcMmap_ok (P := fun _ => True) hr (fun _ _ _ _ => trivial) fun _ => trivial).2 first size hout
    obtain ⟨shm, hshm, rfl⟩ := Option.map_eq_some_iff.mp hsub
    refine ⟨m, shm, hshm, rfl, rfl, fun f ⟨hlo, hhi⟩ => ?_⟩
    obtain ⟨hpages, hsize⟩ := h.slots m.shm shm m.slot hshm
    rw [h.first p c m hc hm] at hpages hsize hlo hhi
    rw [hpages] at hlo hhi
    rw [hsize] at hhi
    simp only [shmRegionPageSize, shmRegionPageNumber, shmRegionOrder, pageSize] at hlo hhi
    refine ⟨by omega, ?_⟩
    rw [shmRegionOrder]
    omega
  · rintro ⟨q, i⟩ ⟨q', i'⟩ sub sub' f hsub hsub' hne ⟨hlo, hhi⟩ ⟨hlo', hhi'⟩
    obtain ⟨shm, hshm, rfl⟩ := Option.map_eq_some_iff.mp hsub
    obtain ⟨shm', hshm', rfl⟩ := Option.map_eq_some_iff.mp hsub'
    cases h.pool q q' (Table.mem_keys.mpr ⟨shm, hshm⟩) (Table.mem_keys.mpr ⟨shm', hshm'⟩)
    cases hshm.symm.trans hshm'
    obtain ⟨hpages, hsize⟩ := h.slots q shm i hshm
    obtain ⟨hpages', hsize'⟩ := h.slots q shm i' hshm
    have hi : i.val ≠ i'.val := fun he => hne (by rw [Fin.ext he])
    simp only [hpages, hsize, hpages', hsize', shmRegionPageSize, shmRegionPageNumber, shmRegionOrder,
      pageSize] at hlo hhi hlo' hhi'
    omega

/-- While no connection is made beside another one, the pages that are mapped are the pool's own. -/
theorem sharedPages_safe {calls : List Call} {s : Drv}
    (run : Trace (fun s call s' => call.ConnectsAlone s ∧ Returns s call s') Drv.init calls s) :
    PagesSafe s :=
  (run.invariant (fun _ _ _ h hs => OnePool.step h hs.1 hs.2) OnePool.init).pagesSafe

/-- One client connects and maps its memory. -/
theorem sharedPages_safe_connected :
    ∃ s, runChecked (fun s _ => decide (s.gConnsList.keys = [])) Drv.init connectedRun = some s ∧
      s.gConnsList.keys = [1] ∧ PagesSafe s := by
  have keys : (runChecked (fun s _ => decide (s.gConnsList.keys = [])) Drv.init connectedRun).map
      (fun s => s.gConnsList.keys) = some [1] := by decide
  obtain ⟨s, hs, hk⟩ := Option.map_eq_some_iff.mp keys
  have run := runChecked_trace (G := fun s call => call.ConnectsAlone s)
    (fun _ _ hc _ _ _ _ _ _ _ _ _ _ _ _ => of_decide_eq_true hc) hs
  exact ⟨s, hs, hk, sharedPages_safe run⟩

def Out.mapping : Out → Option (Nat × Nat)
  | .mapped first size => some (first, size)
  | _ => none

theorem Out.mapping_eq_some {o : Out} {first size : Nat} (h : o.mapping = some (first, size)) :
    o = .mapped first size := by
  cases o <;> cases h
  rfl

/-- A second client connects while the first one still is: its slot lies behind the one page that
the pool has. -/
theorem sharedPages_second_connection : ∃ s r s', Trace Returns Drv.init twoConnections s ∧
    ipcMmap (.plenty ⟨3, 3⟩) s (packIds 7 0) = .ok (r, s') ∧ r.out = .mapped 1 4096 ∧
    s.gShmList.entries.map (fun e => e.2.pages) = [0] ∧ ¬PagesSafe s := by
  have facts : ((runCalls Drv.init twoConnections).bind fun s =>
      (ipcMmap (.plenty ⟨3, 3⟩) s (packIds 7 0)).toOption.map fun a =>
        (a.1.out.mapping, s.gShmList.entries.map fun e => e.2.pages)) = some (some (1, 4096), [0]) := by decide
  obtain ⟨s, hs, facts⟩ := Option.bind_eq_some_iff.mp facts
  obtain ⟨⟨r, s'⟩, hr, facts⟩ := Option.map_eq_some_iff.mp facts
  have hr := toOption_eq_some.mp hr
  obtain ⟨hout, pages⟩ := Prod.mk.inj facts
  have hout := Out.mapping_eq_some hout
  refine ⟨s, r, s', runCalls_trace hs, hr, hout, pages, fun safe => ?_⟩
  obtain ⟨m, shm, hshm, _, _, inside⟩ := safe.inBlock _ _ _ _ _ _ hr hout
  have base : shm.pages ∈ s.gShmList.entries.map fun e => e.2.pages :=
    List.mem_map.mpr ⟨(m.shm, shm), Table.get?_eq_some.mp hshm, rfl⟩
  rw [pages, List.mem_singleton] at base
  have inside := (inside 1 ⟨le_rfl, by decide⟩).2
  rw [base] at inside
  exact absurd inside (by decide)

end Ripc

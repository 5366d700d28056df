import Ripc.DriverProvided

namespace Ripc

/-- The sub-memories of the driver. -/
def Drv.slots (s : Drv) : List SubMemPtr :=
  s.gShmList.keys.flatMap fun q => (List.finRange shmPoolSize).map (SubMemPtr.mk q)

/-- A call beside the largest number of connections there has been so far. -/
def metered (before : Drv × Nat) (call : Call) : Option (Drv × Nat) :=
  (step before.1 call).toOption.map fun done => (done.2, max before.2 done.2.gConnsList.keys.length)

variable {s s' : Drv} {K : Kernel}

theorem length_slots (s : Drv) : s.slots.length = shmPoolSize * s.gShmList.keys.length := by
  simp [Drv.slots, List.length_flatMap, Nat.mul_comm]

theorem mem_slots {m : SubMemPtr} : m ∈ s.slots ↔ ∃ sub, s.subMem? m = some sub := by
  have slot : m ∈ s.slots ↔ m.shm ∈ s.gShmList.keys := by
    simp only [Drv.slots, List.mem_flatMap, List.mem_map, List.mem_finRange, true_and]
    constructor
    · rintro ⟨q, hq, i, rfl⟩
      exact hq
    · exact fun h => ⟨m.shm, h, m.slot, rfl⟩
  rw [slot, Table.mem_keys]
  simp [Drv.subMem?, subMemAt]

theorem nodup_slots (s : Drv) : s.slots.Nodup := by
  refine List.nodup_flatMap.mpr ⟨fun q _ => ?_, ?_⟩
  · exact (List.nodup_finRange _).map fun i j h => (SubMemPtr.mk.inj h).2
  · refine s.gShmList.nodup.imp fun {q q'} hne => ?_
    intro m hm hm'
    obtain ⟨i, -, rfl⟩ := List.mem_map.mp hm
    obtain ⟨j, -, he⟩ := List.mem_map.mp hm'
    exact hne (SubMemPtr.mk.inj he).1.symm

theorem Wf.connections_le_slots (wf : Wf s) : s.gConnsList.keys.length ≤ shmPoolSize * s.gShmList.keys.length := by
  rw [← length_slots]
  refine wf.links.connMem.length_le s.gConnsList.nodup fun p hp => ?_
  obtain ⟨c, hc⟩ := Table.mem_keys.mp hp
  obtain ⟨-, ⟨m, hm⟩, -⟩ := wf.links.connFull p c hc
  obtain ⟨sub, hsub, -⟩ := wf.links.connMem p c m hc hm
  exact ⟨c, m, hc, hm, mem_slots.mpr ⟨sub, hsub⟩⟩

/-- Where no sub-memory is free, every one of them has a connection. -/
theorem slot_taken (full : findFreeSubmem s = none) {m : SubMemPtr} {sub : SubMem} (h : s.subMem? m = some sub) :
    ∃ p, sub.connP = some p := by
  obtain ⟨shm, hshm, rfl⟩ := Option.map_eq_some_iff.mp h
  have none_free := List.findSome?_eq_none_iff.mp full (m.shm, shm) (Table.get?_eq_some.mp hshm)
  rw [Option.map_eq_none_iff, shmGetFreeSubmem, List.find?_eq_none] at none_free
  have taken := none_free m.slot (List.mem_finRange _)
  rw [Option.isNone_iff_eq_none] at taken
  exact Option.ne_none_iff_exists'.mp taken

theorem Wf.slots_le_connections (wf : Wf s) (full : findFreeSubmem s = none) :
    shmPoolSize * s.gShmList.keys.length ≤ s.gConnsList.keys.length := by
  rw [← length_slots]
  refine wf.links.memConn.length_le (nodup_slots s) fun m hm => ?_
  obtain ⟨sub, hsub⟩ := mem_slots.mp hm
  obtain ⟨p, hp⟩ := slot_taken full hsub
  obtain ⟨c, hc, -⟩ := wf.links.memConn m sub p hsub hp
  exact ⟨sub, p, hsub, hp, Table.mem_keys.mpr ⟨c, hc⟩⟩

/-- The event makes no pool and no connection. -/
def Event.Shrinks : Event → Prop
  | .addPool _ _ | .link _ _ _ _ _ => False
  | _ => True

theorem Event.Shrinks.event {ev : Event} (h : ev.Shrinks) (he : s.event ev s') :
    s'.gShmList.keys = s.gShmList.keys ∧ s'.gConnsList.keys.length ≤ s.gConnsList.keys.length := by
  obtain ⟨-, rfl⟩ := he
  cases ev with
  | addPool | link => cases h
  | addServer v name id owner => cases owner <;> exact ⟨rfl, le_rfl⟩
  | addClient k id owner => cases owner <;> exact ⟨rfl, le_rfl⟩
  | mmaped p => exact ⟨rfl, by rw [Drv.apply, Table.keys_modify]⟩
  | teardown p ds =>
    rw [Drv.apply, enqueueAll_eq]
    refine ⟨Table.keys_mapAt _, ?_⟩
    rw [Drv.unlink, Table.keys_erase]
    exact List.length_filter_le _ _
  | _ => exact ⟨rfl, le_rfl⟩

theorem Reaches.shrinks (h : Reaches Drv.event Event.Shrinks s s') :
    s'.gShmList.keys = s.gShmList.keys ∧ s'.gConnsList.keys.length ≤ s.gConnsList.keys.length := by
  refine h.keeps (I := fun a => a.gShmList.keys = s.gShmList.keys ∧
    a.gConnsList.keys.length ≤ s.gConnsList.keys.length) (fun a ev b shrinks ha he => ?_) ⟨rfl, le_rfl⟩
  have here := shrinks.event he
  exact ⟨here.1.trans ha.1, here.2.trans ha.2⟩

theorem size_addPool {p : Ptr} {shm : Shm} (he : s.event (.addPool p shm) s') :
    s'.gShmList.keys.length = s.gShmList.keys.length + 1 ∧ s'.gConnsList = s.gConnsList := by
  obtain ⟨⟨fresh, -⟩, rfl⟩ := he
  rw [Drv.apply, Drv.addPool, takeIds_frame]
  exact ⟨by rw [Table.keys_pushFront fresh, List.length_cons], rfl⟩

theorem size_link {p k v : Ptr} {m : SubMemPtr} {e : Option Ptr} (he : s.event (.link p k v m e) s') :
    s'.gShmList.keys = s.gShmList.keys ∧ s'.gConnsList.keys.length = s.gConnsList.keys.length + 1 := by
  obtain ⟨⟨fresh, -⟩, rfl⟩ := he
  refine ⟨Table.keys_modify _, ?_⟩
  rw [Drv.apply, Drv.link, Table.keys_pushBack fresh, List.length_append, List.length_singleton]

theorem connectClientToServer_succeeds {v k : Ptr} {cli : Client} {ret : Int} (succeeds : K.Succeeds)
    (hk : s.gClientsList.get? k = some cli) (free : cli.connP = none)
    (h : connectClientToServer K s v k = .ok (ret, s')) : ret = 0 := by
  obtain ⟨⟨o, s₁⟩, hf, -⟩ := bind_eq_ok.mp h
  have found : o ≠ none := by
    rcases getFreeSubmem_ok hf with ⟨-, -, short⟩ | ⟨q, -, -, rfl⟩
    · exact fun ho => succeeds.kmalloc .shm s (short ho)
    · exact Option.some_ne_none _
  obtain ⟨m, rfl⟩ := Option.ne_none_iff_exists'.mp found
  obtain ⟨p, hp⟩ := Option.ne_none_iff_exists'.mp (succeeds.kmalloc .conn s₁)
  rw [connectClientToServer_linked hf hp hk free] at h
  obtain ⟨srv, -, h⟩ := bind_eq_ok.mp h
  cases h
  rfl

/-- A request for a connection changes nothing, or makes the connection, with a pool for it if there is no free
sub-memory. -/
theorem connectToServer_grows {con : ConnectToServer} {r : Reply} (succeeds : K.Succeeds)
    (h : connectToServer K s con = .ok (r, s')) : s' = s ∨ ∃ s₁ p k v m e,
      (s₁ = s ∧ findFreeSubmem s ≠ none ∨ ∃ q shm, s.event (.addPool q shm) s₁) ∧ s₁.event (.link p k v m e) s' := by
  have case := connectToServer_case K s con
  rw [h] at case
  generalize answered : (Except.ok (r, s') : Answer) = a at case
  cases case with
  | notCopied | connected | noServer => cases answered; exact Or.inl rfl
  | noClient | faultyName | endlessName => cases answered
  | @asks k cli v copy hk hcli free hf =>
    obtain ⟨⟨ret, s₂⟩, hc, done⟩ := bind_eq_ok.mp answered.symm
    cases done
    have zero := connectClientToServer_succeeds succeeds hcli free hc
    obtain ⟨s₁, pool, done⟩ := connectClientToServer_ok hc hcli free
    rcases done with ⟨refused, -⟩ | ⟨-, p, m, e, -, linked, -⟩
    · omega
    · refine Or.inr ⟨s₁, p, k, v, m, e, ?_, linked⟩
      rcases pool with rfl | ⟨q, shm, gains, -⟩
      · obtain ⟨-, -, -, first, -⟩ := linked.1
        exact Or.inl ⟨rfl, first ▸ Option.some_ne_none m⟩
      · exact Or.inr ⟨q, shm, gains⟩

theorem Call.May.shrinks {call : Call} {ev : Event} (other : ∀ filp con, call.op ≠ .ioctl filp (.connectToServer con))
    (may : call.May s ev) : ev.Shrinks := by
  cases ev with
  | addPool =>
    obtain ⟨filp, con, hop⟩ := may
    exact other filp con hop
  | link =>
    obtain ⟨filp, con, hop, -⟩ := may
    exact other filp con hop
  | _ => trivial

/-- There are as many pools as the most connections so far have needed, and each connection has its sub-memory. -/
structure Pooled (s : Drv) (peak : Nat) : Prop where
  wf : Wf s
  pools : s.gShmList.keys.length = (peak + shmPoolSize - 1) / shmPoolSize
  below : s.gConnsList.keys.length ≤ peak

theorem Pooled.shrinks {peak : Nat} (h : Pooled s peak) (wf : Wf s') (run : Reaches Drv.event Event.Shrinks s s') :
    Pooled s' (max peak s'.gConnsList.keys.length) := by
  obtain ⟨same, fewer⟩ := run.shrinks
  have peaked : max peak s'.gConnsList.keys.length = peak := max_eq_left (fewer.trans h.below)
  rw [peaked]
  exact ⟨wf, by rw [same, h.pools], fewer.trans h.below⟩

theorem Pooled.grows {peak : Nat} {s₁ : Drv} {p k v : Ptr} {m : SubMemPtr} {e : Option Ptr} (h : Pooled s peak)
    (pool : s₁ = s ∧ findFreeSubmem s ≠ none ∨ ∃ q shm, s.event (.addPool q shm) s₁)
    (linked : s₁.event (.link p k v m e) s') (wf : Wf s') : Pooled s' (max peak s'.gConnsList.keys.length) := by
  obtain ⟨same, more⟩ := size_link linked
  have room := wf.connections_le_slots
  have before := h.pools
  have below := h.below
  refine ⟨wf, ?_, le_max_right _ _⟩
  rw [same] at room ⊢
  simp only [shmPoolSize] at room before ⊢
  rcases pool with ⟨rfl, -⟩ | ⟨q, shm, gains⟩
  · omega
  · obtain ⟨one, conns⟩ := size_addPool gains
    have full := h.wf.slots_le_connections gains.1.2.1
    rw [conns] at more
    simp only [shmPoolSize] at full
    omega

theorem Pooled.step {peak : Nat} {call : Call} (h : Pooled s peak) (provided : call.Provided s)
    (hs : Returns s call s') : Pooled s' (max peak s'.gConnsList.keys.length) := by
  have wf := h.wf.step hs
  obtain ⟨r, hr⟩ := hs
  by_cases connects : ∃ filp con, call.op = .ioctl filp (.connectToServer con)
  · obtain ⟨filp, con, hop⟩ := connects
    obtain ⟨K, op⟩ := call
    cases hop
    have same : s' = s ∨ connectToServer K s con = .ok (r, s') := by
      simp only [Ripc.step, ipcIoctl] at hr
      split at hr
      next => cases hr; exact Or.inl rfl
      next => exact Or.inr hr
    rcases same with rfl | hr
    · exact h.shrinks wf .refl
    · rcases connectToServer_grows provided.succeeds hr with rfl | ⟨s₁, p, k, v, m, e, pool, linked⟩
      · exact h.shrinks wf .refl
      · exact h.grows pool linked wf
  · have other : ∀ filp con, call.op ≠ .ioctl filp (.connectToServer con) := fun filp con hop =>
      connects ⟨filp, con, hop⟩
    exact h.shrinks wf ((step_ok h.wf hr).mono fun ev may => may.shrinks other)

theorem metered_eq {x y : Drv × Nat} {call : Call} (h : metered x call = some y) :
    Returns x.1 call y.1 ∧ y.2 = max x.2 y.1.gConnsList.keys.length := by
  obtain ⟨⟨r, s⟩, hr, rfl⟩ := Option.map_eq_some_iff.mp h
  exact ⟨⟨r, toOption_eq_some.mp hr⟩, rfl⟩

/-- Memory is never given back, and yet there are never more blocks of pages than the largest number of connections
at one time has filled: the driver keeps exactly as many as that many connections need. -/
theorem pools_of_peak {calls : List Call} {peak : Nat}
    (run : Trace (fun x call y => call.Provided x.1 ∧ metered x call = some y) (Drv.init, 0) calls (s, peak)) :
    s.pageBlocks.length = (peak + shmPoolSize - 1) / shmPoolSize := by
  have pooled : Pooled s peak := by
    refine run.invariant (I := fun x => Pooled x.1 x.2) (fun x call y h hs => ?_) ⟨.init, rfl, le_rfl⟩
    obtain ⟨returns, peaked⟩ := metered_eq hs.2
    exact peaked ▸ h.step hs.1 returns
  rw [← pooled.pools, Drv.pageBlocks, Table.keys, List.length_map, List.length_map]

theorem pools_of_peak_two : ∃ s,
    runIf metered (fun x call => noIdErrorCheck x.1 call) (Drv.init, 0) twoConnections = some (s, 2) ∧
      s.pageBlocks.length = 1 := by
  have peak : (runIf metered (fun x call => noIdErrorCheck x.1 call) (Drv.init, 0) twoConnections).map
      Prod.snd = some 2 := by decide
  obtain ⟨⟨s, _⟩, hs, rfl⟩ := Option.map_eq_some_iff.mp peak
  have run : Trace (fun x call y => call.Provided x.1 ∧ metered x call = some y) (Drv.init, 0) twoConnections
      (s, 2) := by
    refine (runIf_trace hs).mono fun x call y hcall h => ⟨⟨?_, noIdErrorCheck_sound x.1 call h.1⟩, h.2⟩
    obtain ⟨current, hk⟩ := twoConnections_plenty call hcall
    exact hk ▸ Kernel.plenty_succeeds current
  exact ⟨s, hs, pools_of_peak run⟩

end Ripc

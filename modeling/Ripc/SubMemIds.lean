import Ripc.DriverAsks
import Ripc.DriverQueues
import Ripc.DriverRuns
import Ripc.IdPack

namespace Ripc

/-- No sub-memory has the id 0, and no queued notification carries it. -/
structure NoZero (s : Drv) : Prop where
  subMem : ∀ m, s.idOf (.subMem m) ≠ some 0
  queued : ∀ t, ∀ d ∈ s.queue t, d.subMemId ≠ 0

/-- When the call makes a new pool, somebody still holds the id 0. -/
def ZeroTaken (s : Drv) (call : Call) : Prop := call.Asks s poolSites → 0 ∈ s.gIdGen

/-- `ida_alloc_range` answers the smallest free id. -/
def Kernel.LowestFree (K : Kernel) : Prop :=
  ∀ site used i, 0 ≤ i → i < K.idaAllocRange site used → i ∈ used

variable {s s' : Drv} {ev : Event}

theorem NoZero.init : NoZero Drv.init := by
  constructor <;> simp [Drv.idOf, Drv.init, Drv.subMem?, subMemAt, Drv.queue]

theorem answers_notMem {K : Kernel} {sites : List IdSite} {used : List Int} {id : Int} (taken : id ∈ used)
    (h0 : 0 ≤ id) : id ∉ K.answers sites used := by
  induction sites generalizing used with
  | nil => exact List.not_mem_nil
  | cons site sites ih =>
    intro h
    rcases List.mem_cons.mp h with rfl | later
    · exact (K.idaAllocRange_ok site used h0).2 taken
    · refine ih ?_ later
      split
      · exact taken
      · exact List.mem_cons_of_mem _ taken

theorem length_answers {K : Kernel} {sites : List IdSite} {used : List Int} :
    (K.answers sites used).length = sites.length := by
  induction sites generalizing used with
  | nil => rfl
  | cons site sites ih => simp [Kernel.answers, ih]

theorem subMem_event {m : SubMemPtr} {id : Int} (he : s.event ev s') (hm : s'.idOf (.subMem m) = some id) :
    s.idOf (.subMem m) = some id ∨ ∃ p shm, ev = .addPool p shm ∧ id ∈ ev.newIds := by
  have new := idOf_event he hm
  obtain ⟨ok, rfl⟩ := he
  cases ev with
  | addServer v name i owner => exact Or.inl (by cases owner <;> exact hm)
  | addClient k i owner => exact Or.inl (by cases owner <;> exact hm)
  | addPool p shm => exact new.imp_right fun h => ⟨p, shm, rfl, h⟩
  | _ => exact Or.inl (new.resolve_right List.not_mem_nil)

theorem mem_queue_event {t : Ptr} {d : NotificationData} (he : s.event ev s') (hd : d ∈ s'.queue t) :
    d ∈ s.queue t ∨ ∃ p, Posts s p d t := by
  have live : t ∈ s'.gRegTaskList.keys := by
    by_contra dead
    rw [Drv.queue, Table.get?_eq_none.mpr dead] at hd
    exact List.not_mem_nil hd
  have kept : ∀ {f : RegTask → RegTask} {t' : Ptr}, (∀ task, (f task).notifList = task.notifList) →
      d ∈ ((s.gRegTaskList.modify t' f).get? t).elim [] RegTask.notifList → d ∈ s.queue t := by
    intro f t' same h
    rwa [queue_modify t' same, List.append_nil] at h
  obtain ⟨ok, rfl⟩ := he
  cases ev with
  | openTask f t' task =>
    simp only [Drv.apply, Drv.queue, Drv.openTask, Table.get?_pushFront ok.2] at hd
    split at hd
    next => exact absurd hd List.not_mem_nil
    next => exact Or.inl hd
  | closeTask f t' =>
    simp only [Drv.apply, Drv.queue, Drv.closeTask, Table.get?_erase] at hd
    split at hd
    next => exact absurd hd List.not_mem_nil
    next => exact Or.inl hd
  | setMonitor t' => exact Or.inl (kept (by intro _; rfl) hd)
  | dequeue t' =>
    simp only [Drv.apply, Drv.queue, Table.get?_modify] at hd
    split at hd
    next =>
      cases ht : s.gRegTaskList.get? t with
      | none => simp [ht] at hd
      | some task =>
        rw [ht] at hd
        exact Or.inl (by simpa [Drv.queue, ht] using List.mem_of_mem_tail hd)
    next => exact Or.inl hd
  | addServer v name id owner =>
    cases owner with
    | none => exact Or.inl hd
    | some o => exact Or.inl (kept (by intro _; rfl) hd)
  | addClient k id owner =>
    cases owner with
    | none => exact Or.inl hd
    | some o => exact Or.inl (kept (by intro _; rfl) hd)
  | dropServer e x id => exact Or.inl (kept (by intro _; rfl) hd)
  | dropClient e x id => exact Or.inl (kept (by intro _; rfl) hd)
  | addPool p shm =>
    rw [Drv.apply, Drv.addPool, takeIds_frame] at hd
    exact Or.inl hd
  | closeFile f => exact Or.inl hd
  | link p k v m e => exact Or.inl hd
  | mmaped p => exact Or.inl hd
  | post p t' d' =>
    have was : t ∈ s.gRegTaskList.keys := by
      rwa [Drv.apply, Drv.enqueue, Table.keys_modify] at live
    rcases List.mem_append.mp ((congrArg (d ∈ ·) (queue_enqueue was t' d')).mp hd) with old | new
    · exact Or.inl old
    · split at new
      next he => exact Or.inr ⟨p, List.mem_singleton.mp new ▸ he ▸ ok.1⟩
      next => exact absurd new List.not_mem_nil
  | teardown p ds =>
    rw [Drv.apply, enqueueAll_eq] at hd live
    have was : t ∈ s.gRegTaskList.keys := by
      have : t ∈ (postAll s.gRegTaskList ds).keys := live
      rwa [keys_postAll] at this
    rcases List.mem_append.mp ((congrArg (d ∈ ·) (queue_postAll was ds)).mp hd) with old | new
    · exact Or.inl old
    · obtain ⟨x, hx, rfl⟩ := List.mem_map.mp new
      obtain ⟨hx, ht⟩ := List.mem_filter.mp hx
      exact Or.inr ⟨p, of_decide_eq_true ht ▸ (ok.2 x hx).1⟩

theorem NoZero.event (h : NoZero s) (he : s.event ev s') (pool : 0 ∈ ev.newIds → ∀ p shm, ev ≠ .addPool p shm) :
    NoZero s' := by
  constructor
  · intro m hm
    rcases subMem_event he hm with old | ⟨p, shm, rfl, hz⟩
    · exact h.subMem m old
    · exact pool hz p shm rfl
  · intro t d hd
    have holds : ∀ {m sub}, s.subMem? m = some sub → d.subMemId = sub.id → d.subMemId ≠ 0 := by
      intro m sub hm hid h0
      exact h.subMem m (by rw [idOf_subMem hm, ← hid, h0])
    rcases mem_queue_event he hd with old | ⟨p, ⟨_, _, hm, hid, _⟩ | ⟨_, _, hm, hid, _⟩⟩
    · exact h.queued t d old
    · exact holds hm hid
    · exact holds hm hid

theorem NoZero.step {call : Call} (h : NoZero s) (wf : Wf s) (hs : Returns s call s') (zero : ZeroTaken s call) :
    NoZero s' := by
  have quiet : ∀ {a b : Drv}, Reaches Drv.event Event.AddsNothing a b → NoZero a → NoZero b := by
    intro a b run ha
    refine run.keeps (fun a ev b nothing ha he => ha.event he ?_) ha
    rw [nothing]
    exact fun hz => absurd hz List.not_mem_nil
  rcases step_asks wf hs with run | ⟨ev, s₁, sites, he, asks, ids, run⟩
  · exact quiet run h
  · refine quiet run (h.event he ?_)
    rintro hz p shm rfl
    rw [ids] at hz
    have all : sites = poolSites := by
      have len := congrArg List.length ids
      rw [length_answers] at len
      cases asks with
      | server | client => simp [Event.newIds, Shm.ids, shmPoolSize] at len
      | pool => rfl
    exact answers_notMem (zero (all ▸ asks)) le_rfl hz

theorem packError_low : unpackId2 packError ≠ 0 := by decide

/-- The low half of a packed pair is 0 only for a second id of 0. -/
theorem unpackId2_packIds_ne_zero {a b : Int} (hb : b ≠ 0) : unpackId2 (packIds a b) ≠ 0 := by
  by_cases valid : isIdValid a = true ∧ isIdValid b = true
  · rw [unpackId2_packIds valid.1 valid.2]
    exact hb
  · rw [packIds, if_neg valid]
    exact packError_low

/-- While every new pool is made with the id 0 in use, sub-memory ids are not 0, and the request that a server
makes from a notification passes the check of `ipc_mmap`. -/
theorem subMemIds_nonzero {calls : List Call}
    (run : Trace (fun s call s' => ZeroTaken s call ∧ Returns s call s') Drv.init calls s) :
    (∀ m sub, s.subMem? m = some sub → sub.id ≠ 0) ∧
      ∀ t, ∀ d ∈ s.queue t, ∀ serverId, unpackId2 (packIds serverId d.subMemId) ≠ 0 := by
  have inv : Wf s ∧ NoZero s := run.invariant (I := fun s => Wf s ∧ NoZero s)
    (fun _ _ _ h hs => ⟨h.1.step hs.2, h.2.step h.1 hs.2 hs.1⟩) ⟨.init, .init⟩
  refine ⟨fun m sub hm h0 => inv.2.subMem m ?_, fun t d hd serverId => ?_⟩
  · rw [idOf_subMem hm, h0]
  · exact unpackId2_packIds_ne_zero (inv.2.queued t d hd)

/-- The id 0 is in use, or the call makes no pool. -/
def zeroTakenCheck (s : Drv) (call : Call) : Bool :=
  decide (0 ∈ s.gIdGen) || (match call.op with
    | .ioctl _ (.connectToServer _) => false
    | _ => true)

theorem zeroTakenCheck_sound (s : Drv) (call : Call) (h : zeroTakenCheck s call = true) : ZeroTaken s call := by
  intro asks
  generalize hsites : poolSites = sites at asks
  cases asks with
  | server | client => exact absurd (congrArg List.length hsites) (by decide)
  | pool op => simpa [zeroTakenCheck, op] using h

/-- A client connects and maps: the server hears of sub-memory 2. -/
theorem subMemIds_nonzero_connected : ∃ s t, Trace Returns Drv.init
      (connectedRun ++ [callOf 2 (.mmap 2 (packIds 1 0))]) s ∧
    s.queue t = [⟨.client, .newConnection, 2, 1, 0⟩] ∧ unpackId2 (packIds 0 2) ≠ 0 := by
  have facts : ∃ s, Trace (fun s call s' => ZeroTaken s call ∧ Returns s call s') Drv.init
      (connectedRun ++ [callOf 2 (.mmap 2 (packIds 1 0))]) s ∧
      s.queue 1 = [⟨.client, .newConnection, 2, 1, 0⟩] :=
    runChecked_check zeroTakenCheck_sound (by decide)
  obtain ⟨s, run, hq⟩ := facts
  exact ⟨s, 1, run.mono fun _ _ _ _ h => h.2, hq, (subMemIds_nonzero run).2 1
    ⟨.client, .newConnection, 2, 1, 0⟩ (hq ▸ List.mem_singleton_self _) 0⟩

/-- The smallest id that is not in use, while there is one in the range. -/
def lowestFree (used : List Int) : Int :=
  match (List.range (used.length + 1)).find? fun (i : Nat) => (i : Int) ∉ used with
  | some i => if (i : Int) ≤ maxIdValue then i else -ENOSPC
  | none => -ENOSPC

theorem lowestFree_ok {used : List Int} (h : 0 ≤ lowestFree used) :
    (lowestFree used ≤ maxIdValue ∧ lowestFree used ∉ used) ∧ ∀ i, 0 ≤ i → i < lowestFree used → i ∈ used := by
  unfold lowestFree at h ⊢
  split at h
  next n hn =>
    obtain ⟨free, _, below⟩ := List.find?_range_eq_some.mp hn
    split at h
    next hle =>
      rw [if_pos hle]
      refine ⟨⟨hle, by simpa using free⟩, fun i h0 hi => ?_⟩
      lift i to Nat using h0
      simpa using below i (by omega)
    next => exact absurd h (by decide)
  next => exact absurd h (by decide)

/-- A kernel that grants every request, with the smallest free id. -/
def Kernel.lowest (current : TaskStruct) : Kernel :=
  { Kernel.plenty current with
    idaAllocRange := fun _ used => lowestFree used
    idaAllocRange_ok := fun _ _ h => (lowestFree_ok h).1 }

theorem Kernel.lowest_lowestFree (current : TaskStruct) : (Kernel.lowest current).LowestFree :=
  fun _ _ i h0 hi => (lowestFree_ok (by have : i < lowestFree _ := hi; omega)).2 i h0 hi

def lowestCall (pid : Nat) (op : Op) : Call := ⟨.lowest ⟨pid, pid⟩, op⟩

/-- The server that holds the id 0 unregisters before a client connects to the other one and maps. -/
def recycledZero : List Call :=
  [lowestCall 1 .open, lowestCall 2 .open,
    lowestCall 1 (.ioctl 1 (.registerServer ⟨shortName 88, Vector.replicate 4 0⟩)),
    lowestCall 1 (.ioctl 1 (.registerServer ⟨shortName 65, Vector.replicate 4 0⟩)),
    lowestCall 2 (.ioctl 2 .registerClient), lowestCall 1 (.ioctl 1 (.serverUnregister (packIds 0 0))),
    lowestCall 2 (.ioctl 2 (.connectToServer ⟨2, shortName 65⟩)), lowestCall 2 (.mmap 2 (packIds 2 0))]

/-- The pool takes the id 0 over for its first sub-memory; the server is told so and may not map it. -/
theorem subMemIds_zero : (∀ call ∈ recycledZero, call.kernel.LowestFree) ∧
    ∃ s, Trace Returns Drv.init recycledZero s ∧ s.idOf (.subMem ⟨1, ⟨0, by decide⟩⟩) = some 0 ∧
      s.queue 1 = [⟨.client, .newConnection, 0, 2, 1⟩] ∧
      (step s (lowestCall 1 (.mmap 1 (packIds 1 0)))).toOption.map (fun r => r.1.ret) = some (-EINVAL) := by
  constructor
  · intro call hc
    simp only [recycledZero, List.mem_cons, List.not_mem_nil, or_false] at hc
    rcases hc with rfl | rfl | rfl | rfl | rfl | rfl | rfl | rfl <;> exact Kernel.lowest_lowestFree _
  · exact runCalls_check (by decide)

end Ripc

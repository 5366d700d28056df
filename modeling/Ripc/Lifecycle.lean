import Ripc.LifecycleSteps

namespace Ripc

/-- In `initialize`, between the test and the thread. -/
def LifecyclePc.opening : LifecyclePc → Bool
  | .newContext | .openDevice | .setRunning | .startThread | .clearRunning | .resetFailed => true
  | _ => false

/-- In `shutdown` or in the destructor, behind `join`. -/
def LifecyclePc.joined : LifecyclePc → Bool
  | .lock _ | .test _ | .clear _ | .reset _ | .clearInitialized _ | .unlock true _ | .destroy => true
  | _ => false

namespace Lifecycle

variable {c c' : Lifecycle} {move : LifecycleMove} {moves : List LifecycleMove} {env : Surroundings} {i : Nat}

/-- The thread is not assigned to or destroyed while it is joinable, one listener runs at most, and none when the
context goes. -/
structure Safe (c : Lifecycle) : Prop where
  assigns : c.pc = .startThread → c.listenerThread = none
  destroys : c.pc = .destroy → c.listenerThread = none
  oneLoop : ∀ i j, (c.loops i).isReturned = false → (c.loops j).isReturned = false → i = j
  resets : ∀ last, c.pc = .reset last → ∀ i, (c.loops i).isReturned = true

/-- Where the flag is taken down, it is up unless there is no thread to join. -/
def Fits (c : Lifecycle) : LifecycleMove → Prop
  | .call _ => ∀ last, c.pc = .exchange last → c.listenerRunning = false → c.listenerThread = none
  | _ => True

/-- What a listener's step leaves. -/
structure Listens (c : Lifecycle) (i : Nat) (c' : Lifecycle) : Prop where
  pc : c'.pc = c.pc
  initialized : c'.isInitialized = c.isInitialized
  thread : c'.listenerThread = c.listenerThread
  running : c'.listenerRunning = true → c.listenerRunning = true
  others : ∀ j, j ≠ i → c'.loops j = c.loops j

theorem listens_gotoLoop (i : Nat) (pc : LoopPc) : c.Listens i (c.gotoLoop i pc) :=
  ⟨rfl, rfl, rfl, id, fun _ other => Function.update_of_ne other _ _⟩

theorem listens_finish (i : Nat) (e : Ending) : c.Listens i (c.finish e) := ⟨rfl, rfl, rfl, id, fun _ _ => rfl⟩

theorem Listens.mutex (h : c.Listens i c') (owner : Option LifecycleOwner) :
    c.Listens i { c' with managerMutex := owner } :=
  ⟨h.pc, h.initialized, h.thread, h.running, h.others⟩

theorem loopStep_listens (h : c.loopStep i env = some c') : (c.loops i).isReturned = false ∧ c.Listens i c' := by
  unfold loopStep at h
  split at h
  next => cases h
  next hpc =>
    refine ⟨by rw [hpc]; rfl, ?_⟩
    split at h
    next => cases h
    next =>
      split at h
      next => exact Option.some.inj h ▸ listens_gotoLoop i _
      next =>
        split at h
        next => exact Option.some.inj h ▸ listens_gotoLoop i _
        next =>
          split at h
          next => exact Option.some.inj h ▸ listens_gotoLoop i _
          next => exact Option.some.inj h ▸ listens_finish i _
  next hpc =>
    refine ⟨by rw [hpc]; rfl, ?_⟩
    split at h
    next => exact Option.some.inj h ▸ listens_finish i _
    next => exact Option.some.inj h ▸ listens_gotoLoop i _
  next hpc => exact ⟨by rw [hpc]; rfl, Option.some.inj h ▸ listens_gotoLoop i _⟩
  next hpc => exact ⟨by rw [hpc]; rfl, Option.some.inj h ▸ listens_gotoLoop i _⟩
  next hpc =>
    refine ⟨by rw [hpc]; rfl, ?_⟩
    split at h
    next => split at h <;> exact Option.some.inj h ▸ listens_gotoLoop i _
    next => exact Option.some.inj h ▸ listens_gotoLoop i _
  next hpc =>
    refine ⟨by rw [hpc]; rfl, ?_⟩
    cases h
    split
    next => exact listens_finish i _
    next => exact listens_gotoLoop i _
  next hpc =>
    cases h
    have goes := listens_gotoLoop (c := c) i .stopped
    exact ⟨by rw [hpc]; rfl, goes.pc, goes.initialized, goes.thread, fun up => (by cases up), goes.others⟩
  next hpc => exact ⟨by rw [hpc]; rfl, Option.some.inj h ▸ listens_gotoLoop i _⟩
  next hpc =>
    refine ⟨by rw [hpc]; rfl, ?_⟩
    split at h <;> exact Option.some.inj h ▸ listens_gotoLoop i _
  next hpc =>
    refine ⟨by rw [hpc]; rfl, ?_⟩
    split at h
    next => exact Option.some.inj h ▸ (listens_gotoLoop i _).mutex _
    next => cases h
  next hpc =>
    refine ⟨by rw [hpc]; rfl, ?_⟩
    split at h
    all_goals
      split at h
      next => exact Option.some.inj h ▸ listens_finish i _
      next => exact Option.some.inj h ▸ (listens_gotoLoop i _).mutex _
  next hpc => exact ⟨by rw [hpc]; rfl, Option.some.inj h ▸ listens_gotoLoop i _⟩

/-- Every listener but the one behind `listener_thread` has returned, and that one belongs to an initialized manager. -/
structure Whole (c : Lifecycle) : Prop where
  others : ∀ i, c.listenerThread ≠ some i → (c.loops i).isReturned = true
  kept : c.listenerThread ≠ none → c.isInitialized = true ∨ c.pc = .setInitialized
  opening : c.pc.opening = true → c.isInitialized = false
  joined : c.pc.joined = true → c.listenerThread = none

theorem Whole.safe (whole : c.Whole) : c.Safe := by
  refine ⟨fun hpc => ?_, fun hpc => whole.joined (by rw [hpc]; rfl), fun i j hi hj => ?_, fun last hpc i => ?_⟩
  · have fresh := whole.opening (by rw [hpc]; rfl)
    by_contra joinable
    rcases whole.kept joinable with up | hpc'
    · rw [fresh] at up
      cases up
    · rw [hpc] at hpc'
      cases hpc'
  · have own : ∀ k, (c.loops k).isReturned = false → c.listenerThread = some k := by
      intro k hk
      by_contra other
      rw [whole.others k other] at hk
      cases hk
    exact Option.some.inj ((own i hi).symm.trans (own j hj))
  · refine whole.others i ?_
    rw [whole.joined (by rw [hpc]; rfl)]
    simp

theorem Whole.same (whole : c.Whole) (loops : c'.loops = c.loops) (thread : c'.listenerThread = c.listenerThread)
    (kept : c.listenerThread ≠ none → c'.isInitialized = true ∨ c'.pc = .setInitialized)
    (opening : c'.pc.opening = true → c'.isInitialized = false)
    (joined : c'.pc.joined = true → c.listenerThread = none) : c'.Whole :=
  ⟨by rw [loops, thread]; exact whole.others, by rw [thread]; exact kept, opening, by rw [thread]; exact joined⟩

theorem Whole.listener (whole : c.Whole) (h : c.loopStep i env = some c') : c'.Whole := by
  obtain ⟨running, listens⟩ := loopStep_listens h
  refine ⟨fun j hj => ?_, ?_, ?_, ?_⟩
  · rw [listens.thread] at hj
    have returned := whole.others j hj
    have other : j ≠ i := by
      rintro rfl
      rw [running] at returned
      cases returned
    rw [listens.others j other]
    exact returned
  · rw [listens.thread, listens.initialized, listens.pc]
    exact whole.kept
  · rw [listens.pc, listens.initialized]
    exact whole.opening
  · rw [listens.pc, listens.thread]
    exact whole.joined

theorem startThread_free (free : c.listenerThread = none) : c.startThread = { c with
    loops := Function.update c.loops c.started .getContext
    started := c.started + 1
    listenerThread := some c.started
    pc := .setInitialized } := by
  simp [startThread, free]

theorem startThread_joinable (joinable : c.listenerThread ≠ none) : c.startThread.ending = some .terminated ∧
    c.startThread.pc = c.pc ∧ c.startThread.listenerThread = c.listenerThread ∧
    c.startThread.listenerRunning = c.listenerRunning := by
  have some : c.listenerThread.isSome = true := Option.isSome_iff_ne_none.mpr joinable
  simp [startThread, some, finish]

theorem Whole.startThread (whole : c.Whole) (hpc : c.pc = .startThread) : c.startThread.Whole := by
  have free := whole.safe.assigns hpc
  rw [startThread_free free]
  refine ⟨fun i hi => ?_, fun _ => Or.inr rfl, fun h => (by cases h), fun h => (by cases h)⟩
  have other : i ≠ c.started := fun same => hi (by rw [same])
  have before := whole.others i (by rw [free]; simp)
  show (Function.update c.loops c.started .getContext i).isReturned = true
  rw [Function.update_of_ne other]
  exact before

theorem Whole.goes (whole : c.Whole) (hpc : c.pc ≠ .setInitialized) (loops : c'.loops = c.loops)
    (thread : c'.listenerThread = c.listenerThread) (initialized : c'.isInitialized = c.isInitialized)
    (opening : c'.pc.opening = true → c.isInitialized = false)
    (joined : c'.pc.joined = true → c.listenerThread = none) : c'.Whole :=
  whole.same loops thread (fun joinable => Or.inl (initialized ▸ (whole.kept joinable).resolve_right hpc))
    (fun h => initialized ▸ opening h) joined

theorem Whole.plain (whole : c.Whole) (hpc : c.pc ≠ .setInitialized) (loops : c'.loops = c.loops)
    (thread : c'.listenerThread = c.listenerThread) (initialized : c'.isInitialized = c.isInitialized)
    (closed : c'.pc.opening = false) (running : c'.pc.joined = false) : c'.Whole := by
  refine whole.goes hpc loops thread initialized (fun h => ?_) fun h => ?_
  · rw [closed] at h
    cases h
  · rw [running] at h
    cases h

theorem Whole.behindJoin (whole : c.Whole) (hpc : c.pc ≠ .setInitialized) (loops : c'.loops = c.loops)
    (thread : c'.listenerThread = c.listenerThread) (initialized : c'.isInitialized = c.isInitialized)
    (closed : c'.pc.opening = false) (joined : c.pc.joined = true) : c'.Whole := by
  have free := whole.joined joined
  refine whole.goes hpc loops thread initialized (fun h => ?_) fun _ => free
  rw [closed] at h
  cases h

theorem Whole.exchange {last : Bool} (whole : c.Whole) (fits : c.Fits (.call env)) (hpc : c.pc = .exchange last) :
    Whole { c.goto (if c.listenerRunning then .join last else .lock last) with listenerRunning := false } := by
  cases up : c.listenerRunning with
  | true => exact whole.plain (by rw [hpc]; simp) rfl rfl rfl rfl rfl
  | false => exact whole.goes (by rw [hpc]; simp) rfl rfl rfl (fun h => by cases h) fun _ => fits last hpc up

theorem Whole.join {last : Bool} (whole : c.Whole) (hi : c.listenerThread = some i)
    (returned : (c.loops i).isReturned = true) : Whole { c.goto (.lock last) with listenerThread := none } := by
  refine ⟨fun j _ => ?_, fun joinable => absurd rfl joinable, fun h => (by cases h), fun _ => rfl⟩
  by_cases own : j = i
  · rw [own]
    exact returned
  · exact whole.others j fun hj => own (Option.some.inj (hj.symm.trans hi))

theorem Whole.call (whole : c.Whole) (fits : c.Fits (.call env)) (h : c.callStep env = some c') : c'.Whole := by
  unfold callStep at h
  split at h
  next => cases h
  next => cases h
  next hpc =>
    split at h
    next =>
      cases h
      exact whole.plain (by rw [hpc]; simp) rfl rfl rfl rfl rfl
    next => cases h
  next hpc =>
    cases h
    cases up : c.isInitialized with
    | true => exact whole.plain (by rw [hpc]; simp) rfl rfl rfl rfl rfl
    | false => exact whole.goes (by rw [hpc]; simp) rfl rfl rfl (fun _ => up) fun h => by cases h
  next hpc =>
    cases h
    have fresh := whole.opening (by rw [hpc]; rfl)
    exact whole.goes (by rw [hpc]; simp) rfl rfl rfl (fun _ => fresh) fun h => by cases h
  next hpc =>
    have fresh := whole.opening (by rw [hpc]; rfl)
    split at h
    next =>
      cases h
      exact whole.plain (by rw [hpc]; simp) rfl rfl rfl rfl rfl
    next =>
      cases h
      exact whole.goes (by rw [hpc]; simp) rfl rfl rfl (fun _ => fresh) fun h => by cases h
  next hpc =>
    cases h
    have fresh := whole.opening (by rw [hpc]; rfl)
    exact whole.goes (by rw [hpc]; simp) rfl rfl rfl (fun _ => fresh) fun h => by cases h
  next hpc =>
    have fresh := whole.opening (by rw [hpc]; rfl)
    cases h
    split
    next => exact whole.startThread hpc
    next => exact whole.goes (by rw [hpc]; simp) rfl rfl rfl (fun _ => fresh) fun h => by cases h
  next hpc =>
    cases h
    have fresh := whole.opening (by rw [hpc]; rfl)
    exact whole.goes (by rw [hpc]; simp) rfl rfl rfl (fun _ => fresh) fun h => by cases h
  next hpc =>
    cases h
    have fresh := whole.opening (by rw [hpc]; rfl)
    exact whole.goes (by rw [hpc]; simp) rfl rfl fresh.symm (fun h => by cases h) fun h => by cases h
  next hpc =>
    cases h
    exact whole.same rfl rfl (fun _ => Or.inl rfl) (fun h => by cases h) fun h => by cases h
  next last hpc =>
    cases h
    exact whole.exchange fits hpc
  next last hpc =>
    split at h
    next free =>
      cases h
      exact whole.goes (by rw [hpc]; simp) rfl rfl rfl (fun h => by cases h) fun _ => free
    next i hi =>
      split at h
      next returned =>
        cases h
        exact whole.join hi returned
      next => cases h
  next last hpc =>
    split at h
    next =>
      cases h
      exact whole.behindJoin (by rw [hpc]; simp) rfl rfl rfl rfl (by rw [hpc]; rfl)
    next => cases h
  next last hpc =>
    have free := whole.joined (by rw [hpc]; rfl)
    cases h
    refine whole.goes (by rw [hpc]; simp) rfl rfl rfl (fun h => ?_) fun _ => free
    cases up : c.isInitialized with
    | true =>
      rw [up] at h
      cases h
    | false => rfl
  next last hpc =>
    cases h
    exact whole.behindJoin (by rw [hpc]; simp) rfl rfl rfl rfl (by rw [hpc]; rfl)
  next last hpc =>
    cases h
    exact whole.behindJoin (by rw [hpc]; simp) rfl rfl rfl rfl (by rw [hpc]; rfl)
  next last hpc =>
    have free := whole.joined (by rw [hpc]; rfl)
    cases h
    exact whole.same rfl rfl (fun joinable => absurd free joinable) (fun h => by cases h) fun _ => free
  next last result hpc =>
    cases h
    cases last with
    | true => exact whole.behindJoin (by rw [hpc]; simp) rfl rfl rfl rfl (by rw [hpc]; rfl)
    | false => exact whole.plain (by rw [hpc]; simp) rfl rfl rfl rfl rfl
  next hpc =>
    cases h
    exact ⟨whole.others, whole.kept, whole.opening, whole.joined⟩

theorem begin_ok {pc : LifecyclePc} (h : c.begin pc = some c') :
    (c.pc = .outside ∨ ∃ result, c.pc = .returned result) ∧ c' = c.goto pc := by
  unfold begin at h
  split at h
  next hpc => exact ⟨Or.inl hpc, (Option.some.inj h).symm⟩
  next result hpc => exact ⟨Or.inr ⟨result, hpc⟩, (Option.some.inj h).symm⟩
  next => cases h

theorem Whole.begin {pc : LifecyclePc} (whole : c.Whole) (h : c.begin pc = some c') (opening : pc.opening = false)
    (joined : pc.joined = false) : c'.Whole := by
  obtain ⟨outside, rfl⟩ := begin_ok h
  have hpc : c.pc ≠ .setInitialized := by
    rcases outside with hpc | ⟨result, hpc⟩ <;> simp [hpc]
  refine whole.goes hpc rfl rfl rfl (fun h => ?_) fun h => ?_
  · exact absurd (opening.symm.trans h) (by simp)
  · exact absurd (joined.symm.trans h) (by simp)

theorem Whole.step (whole : c.Whole) (fits : c.Fits move) (h : c.step move = some c') : c'.Whole := by
  unfold Lifecycle.step at h
  split at h
  next => cases h
  next =>
    cases move with
    | doInitialize => exact whole.begin h rfl rfl
    | doShutdown => exact whole.begin h rfl rfl
    | destructor => exact whole.begin h rfl rfl
    | call env => exact whole.call fits h
    | listener i env => exact whole.listener h

theorem start_whole : start.Whole :=
  ⟨fun _ _ => rfl, fun joinable => absurd rfl joinable, fun h => (by cases h), fun h => (by cases h)⟩

/-- The flag is down and the thread will not be joined any more. -/
structure Lost (c : Lifecycle) : Prop where
  joinable : c.listenerThread ≠ none
  flag : c.listenerRunning = true → c.pc = .startThread ∨ c.pc = .clearRunning
  noJoin : ∀ last, c.pc ≠ .join last
  notStarted : c.pc ≠ .setInitialized

theorem Lost.listener (lost : c.Lost) (h : c.loopStep i env = some c') : c'.Lost := by
  obtain ⟨_, listens⟩ := loopStep_listens h
  refine ⟨listens.thread ▸ lost.joinable, fun up => ?_, fun last => ?_, ?_⟩
  · rw [listens.pc]
    exact lost.flag (listens.running up)
  · rw [listens.pc]
    exact lost.noJoin last
  · rw [listens.pc]
    exact lost.notStarted

theorem Lost.goes (lost : c.Lost) (start : c.pc ≠ .startThread) (clear : c.pc ≠ .clearRunning)
    (thread : c'.listenerThread = c.listenerThread) (running : c'.listenerRunning = c.listenerRunning)
    (noJoin : ∀ last, c'.pc ≠ .join last) (notStarted : c'.pc ≠ .setInitialized) : c'.Lost := by
  refine ⟨thread ▸ lost.joinable, fun up => ?_, noJoin, notStarted⟩
  rcases lost.flag (running ▸ up) with hpc | hpc
  · exact absurd hpc start
  · exact absurd hpc clear

theorem Lost.call (lost : c.Lost) (h : c.callStep env = some c') : c'.Lost := by
  unfold callStep at h
  split at h
  next => cases h
  next => cases h
  next hpc =>
    split at h
    next =>
      cases h
      exact lost.goes (by simp [hpc]) (by simp [hpc]) rfl rfl (by simp [goto]) (by simp [goto])
    next => cases h
  next hpc =>
    cases h
    cases c.isInitialized <;> exact lost.goes (by simp [hpc]) (by simp [hpc]) rfl rfl (by simp [goto]) (by simp [goto])
  next hpc =>
    cases h
    exact lost.goes (by simp [hpc]) (by simp [hpc]) rfl rfl (by simp [goto]) (by simp [goto])
  next hpc =>
    split at h
    next =>
      cases h
      exact lost.goes (by simp [hpc]) (by simp [hpc]) rfl rfl (by simp [goto]) (by simp [goto])
    next =>
      cases h
      exact lost.goes (by simp [hpc]) (by simp [hpc]) rfl rfl (by simp [goto]) (by simp [goto])
  next hpc =>
    cases h
    exact ⟨lost.joinable, fun _ => Or.inl rfl, by simp [goto], by simp [goto]⟩
  next hpc =>
    cases h
    split
    next =>
      -- the process ends here
      obtain ⟨_, same, thread, running⟩ := startThread_joinable lost.joinable
      exact ⟨thread ▸ lost.joinable, fun _ => Or.inl (same.trans hpc), by simp [same, hpc], by simp [same, hpc]⟩
    next => exact ⟨lost.joinable, fun _ => Or.inr rfl, by simp [goto], by simp [goto]⟩
  next hpc =>
    cases h
    exact ⟨lost.joinable, fun up => (by cases up), by simp [goto], by simp [goto]⟩
  next hpc =>
    cases h
    exact lost.goes (by simp [hpc]) (by simp [hpc]) rfl rfl (by simp [goto]) (by simp [goto])
  next hpc => exact absurd hpc lost.notStarted
  next last hpc =>
    have down : c.listenerRunning = false := by
      cases up : c.listenerRunning with
      | true => rcases lost.flag up with h' | h' <;> simp [hpc] at h'
      | false => rfl
    cases h
    rw [down]
    exact ⟨lost.joinable, fun up => (by cases up), by simp [goto], by simp [goto]⟩
  next last hpc => exact absurd hpc (lost.noJoin last)
  next last hpc =>
    split at h
    next =>
      cases h
      exact lost.goes (by simp [hpc]) (by simp [hpc]) rfl rfl (by simp [goto]) (by simp [goto])
    next => cases h
  next last hpc =>
    cases h
    cases c.isInitialized <;> exact lost.goes (by simp [hpc]) (by simp [hpc]) rfl rfl (by simp [goto]) (by simp [goto])
  next last hpc =>
    cases h
    exact lost.goes (by simp [hpc]) (by simp [hpc]) rfl rfl (by simp [goto]) (by simp [goto])
  next last hpc =>
    cases h
    exact lost.goes (by simp [hpc]) (by simp [hpc]) rfl rfl (by simp [goto]) (by simp [goto])
  next last hpc =>
    cases h
    exact lost.goes (by simp [hpc]) (by simp [hpc]) rfl rfl (by simp [goto]) (by simp [goto])
  next last result hpc =>
    cases h
    cases last <;> exact lost.goes (by simp [hpc]) (by simp [hpc]) rfl rfl (by simp [goto]) (by simp [goto])
  next hpc =>
    cases h
    exact ⟨lost.joinable, lost.flag, lost.noJoin, lost.notStarted⟩

theorem Lost.begin {pc : LifecyclePc} (lost : c.Lost) (h : c.begin pc = some c') (noJoin : ∀ last, pc ≠ .join last)
    (notStarted : pc ≠ .setInitialized) : c'.Lost := by
  obtain ⟨outside, rfl⟩ := begin_ok h
  have hpc : c.pc ≠ .startThread ∧ c.pc ≠ .clearRunning := by
    rcases outside with hpc | ⟨result, hpc⟩ <;> simp [hpc]
  exact lost.goes hpc.1 hpc.2 rfl rfl noJoin notStarted

theorem Lost.step (lost : c.Lost) (h : c.step move = some c') : c'.Lost := by
  unfold Lifecycle.step at h
  split at h
  next => cases h
  next =>
    cases move with
    | doInitialize => exact lost.begin h (by simp) (by simp)
    | doShutdown => exact lost.begin h (by simp) (by simp)
    | destructor => exact lost.begin h (by simp) (by simp)
    | call env => exact lost.call h
    | listener i env => exact lost.listener h

/-- A `shutdown` that finds the flag down beside a joinable thread gives the thread up. -/
theorem lost_of_not_fits (h : c.step move = some c') (unfit : ¬c.Fits move) : c'.Lost := by
  cases move with
  | call env =>
    simp only [Fits, not_forall] at unfit
    obtain ⟨last, hpc, down, joinable⟩ := unfit
    unfold Lifecycle.step at h
    split at h
    next => cases h
    next =>
      simp only [callStep, hpc, down] at h
      cases h
      exact ⟨joinable, fun up => (by cases up), by simp [goto], by simp [goto]⟩
  | doInitialize | doShutdown | destructor | listener => exact absurd trivial unfit

/-- A run keeps to the condition, or has given the thread up. -/
theorem fits_or_lost {c₀ : Lifecycle} (run : Trace (fun c move c' => c.step move = some c') c₀ moves c) :
    Trace (fun c move c' => c.Fits move ∧ c.step move = some c') c₀ moves c ∨ c.Lost := by
  induction run with
  | nil => exact Or.inl .nil
  | @cons a b c move moves head rest ih =>
    by_cases fits : a.Fits move
    · exact ih.imp_left fun inside => .cons ⟨fits, head⟩ inside
    · have lost : b.Lost := lost_of_not_fits head fits
      exact Or.inr (rest.invariant (fun _ _ _ lost hs => lost.step hs) lost)

/-- Runs in which every `shutdown` finds the flag up, or no thread to join, are safe throughout; and a run that gets to
the end of the manager safely is one of them. -/
theorem lifecycle_safe (run : Trace (fun c move c' => c.step move = some c') start moves c) :
    (Trace (fun c move c' => c.Fits move ∧ c.step move = some c') start moves c → c.Safe) ∧
      (c.pc = .destroy → c.Safe → Trace (fun c move c' => c.Fits move ∧ c.step move = some c') start moves c) := by
  refine ⟨fun inside => ?_, fun hpc safe => ?_⟩
  · have whole : c.Whole := inside.invariant (fun _ _ _ whole hs => whole.step hs.1 hs.2) start_whole
    exact whole.safe
  · rcases fits_or_lost run with inside | lost
    · exact inside
    · exact absurd (safe.destroys hpc) lost.joinable

def fitsCheck (c : Lifecycle) : LifecycleMove → Bool
  | .call _ =>
    match c.pc with
    | .exchange _ => c.listenerRunning || c.listenerThread.isNone
    | _ => true
  | _ => true

theorem fitsCheck_sound (h : c.fitsCheck move = true) : c.Fits move := by
  cases move with
  | call env =>
    intro last hpc down
    simpa [fitsCheck, hpc, down] using h
  | doInitialize | doShutdown | destructor | listener => trivial

/-- The device opens, the thread starts, nothing throws, and `poll` reports a hangup. -/
def hangup : Surroundings := ⟨false, 3, true, .event true false, .nothing, false⟩

def calls (n : Nat) : List LifecycleMove := List.replicate n (.call hangup)

def listens (n : Nat) : List LifecycleMove := List.replicate n (.listener 0 hangup)

/-- The hangup comes while `shutdown` is at its `join`; then the manager ends. -/
def joinedRun : List LifecycleMove :=
  .doInitialize :: calls 8 ++ listens 4 ++ .doShutdown :: calls 1 ++ listens 2 ++ calls 7 ++ .destructor :: calls 4

theorem lifecycle_safe_joined : ∃ c, runIf step fitsCheck start joinedRun = some c ∧ c.pc = .destroy ∧ c.Safe := by
  have facts : (runIf step fitsCheck start joinedRun).map pc = some .destroy := by decide
  obtain ⟨c, hc, hpc⟩ := Option.map_eq_some_iff.mp facts
  have inside := (runIf_trace hc).mono fun a move b _ hs => And.intro (fitsCheck_sound hs.1) hs.2
  have run : Trace (fun c move c' => c.step move = some c') start joinedRun c :=
    inside.mono fun _ _ _ _ hs => hs.2
  exact ⟨c, hc, hpc, (lifecycle_safe run).1 inside⟩

/-- The listener stops at a hangup by itself; `shutdown` does not join it, and `initialize` comes to its thread. -/
def restartRun : List LifecycleMove :=
  .doInitialize :: calls 8 ++ listens 8 ++ .doShutdown :: calls 7 ++ .doInitialize :: calls 5

theorem lifecycle_unsafe : ∃ c c', Trace (fun c move c' => c.step move = some c') start restartRun c ∧ ¬c.Safe ∧
    c.pc = .startThread ∧ c.listenerThread = some 0 ∧ c.step (.call hangup) = some c' ∧
    c'.ending = some .terminated := by
  have facts : ((runIf step (fun _ _ => true) start restartRun).bind fun c => (c.step (.call hangup)).map fun c' =>
      (c.pc, c.listenerThread, c'.ending)) = some (.startThread, some 0, some .terminated) := by decide
  obtain ⟨c, hc, facts⟩ := Option.bind_eq_some_iff.mp facts
  obtain ⟨c', hc', facts⟩ := Option.map_eq_some_iff.mp facts
  simp only [Prod.mk.injEq] at facts
  obtain ⟨hpc, thread, ending⟩ := facts
  refine ⟨c, c', (runIf_trace hc).mono fun _ _ _ _ hs => hs.2, fun safe => ?_, hpc, thread, hc', ending⟩
  have free := safe.assigns hpc
  rw [thread] at free
  cases free

end Lifecycle

end Ripc

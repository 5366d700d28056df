import Ripc.WaitSteps

namespace Ripc

/-- The thread holds `m_lock`. -/
def CallPc.holds : CallPc → Bool
  | .predicateSent _ | .predicateRunning _ | .fallAsleep _ | .testRunning _ | .unlock _ | .setMode _ => true
  | _ => false

/-- The thread sleeps, or is about to. -/
def CallPc.sleeps : CallPc → Bool
  | .fallAsleep _ | .asleep _ => true
  | _ => false

/-- The thread has found a request that is not answered, and what it has yet to read lets it sleep. -/
def CallPc.waits (isRunning : Bool) : CallPc → Bool
  | .predicateRunning _ => isRunning
  | pc => pc.sleeps

def HandlerPc.holds : HandlerPc → Bool
  | .notify | .unlock => true
  | _ => false

namespace Waiters

/-- The listener is on its way to `notify_all`. -/
def NotifyPending (s : Waiters) : Prop :=
  (s.listener = .testBlocking ∧ s.isUsingBlocking = true) ∨ s.listener = .lock ∨ s.listener = .notify

/-- No thread sleeps that may go on, or it is going to be notified. -/
def NoneForgotten (s : Waiters) : Prop :=
  ∀ i w, s.pcs i = .asleep w → s.mayGoOn = true → s.NotifyPending

/-- The thread sleeps, or is going to, although it may go on. -/
def due (s : Waiters) : CallPc → Bool
  | .predicateRunning _ => !s.isRequestSent && s.isRunning
  | pc => pc.sleeps && s.mayGoOn

/-- What must not come while a thread waits: the reply when the blocking mode is off, the mode's end before the
listener has tested it for the reply, the disconnection, and the failure of another thread's request. -/
def Fits (s : Waiters) : WaitMove → Prop
  | .listener =>
    match s.listener with
    | .unset => s.isUsingBlocking = true ∨ ∀ i, (s.pcs i).waits s.isRunning = false
    | .stop => ∀ i, (s.pcs i).sleeps = false
    | _ => True
  | .thread i _ =>
    match s.pcs i with
    | .setUnsent => s.NotifyPending ∨ ∀ j, (s.pcs j).waits s.isRunning = false
    | .setMode false => s.listener = .testBlocking → ∀ j, s.due (s.pcs j) = false
    | _ => True
  | _ => True

/-- The mutex is held by at most one, and whoever is due is going to be notified. -/
structure Attended (s : Waiters) : Prop where
  threads : ∀ i, (s.pcs i).holds = true → s.lock = some (.thread i)
  listener : s.listener.holds = true → s.lock = some .listener
  due : ∀ i, s.due (s.pcs i) = true → s.NotifyPending

variable {s s' : Waiters} {i : Nat} {pc : CallPc}

theorem start_attended : start.Attended := ⟨by simp [start, CallPc.holds], by simp [start, HandlerPc.holds],
  by simp [start, Waiters.due, CallPc.sleeps]⟩

theorem Attended.noneForgotten (h : s.Attended) : s.NoneForgotten := by
  intro i w asleep goOn
  exact h.due i (by simp [asleep, Waiters.due, CallPc.sleeps, goOn])

theorem Attended.goto (h : s.Attended) (holds : pc.holds = true → (s.pcs i).holds = true)
    (hd : s.due pc = true → s.NotifyPending) : (s.goto i pc).Attended where
  threads j hj := by
    by_cases e : j = i
    · subst e
      simp only [Waiters.goto, Function.update_self] at hj
      exact h.threads j (holds hj)
    · simp only [Waiters.goto, Function.update_of_ne e] at hj
      exact h.threads j hj
  listener := h.listener
  due j hj := by
    by_cases e : j = i
    · subst e
      simp only [Waiters.goto, Function.update_self] at hj
      exact hd hj
    · simp only [Waiters.goto, Function.update_of_ne e] at hj
      exact h.due j hj

theorem Attended.acquire (h : s.Attended) (free : s.lock = none) (hd : s.due pc = true → s.NotifyPending) :
    ({ s.goto i pc with lock := some (.thread i) } : Waiters).Attended where
  threads j hj := by
    by_cases e : j = i
    · rw [e]
    · simp only [Waiters.goto, Function.update_of_ne e] at hj
      have held := h.threads j hj
      rw [free] at held
      cases held
  listener hl := by
    have held := h.listener hl
    rw [free] at held
    cases held
  due j hj := by
    by_cases e : j = i
    · subst e
      simp only [Waiters.goto, Function.update_self] at hj
      exact hd hj
    · simp only [Waiters.goto, Function.update_of_ne e] at hj
      exact h.due j hj

theorem Attended.release (h : s.Attended) (hi : (s.pcs i).holds = true) (out : pc.holds = false)
    (hd : s.due pc = true → s.NotifyPending) : (s.release i pc).Attended where
  threads j hj := by
    by_cases e : j = i
    · subst e
      simp only [Waiters.release, Waiters.goto, Function.update_self, out] at hj
      cases hj
    · simp only [Waiters.release, Waiters.goto, Function.update_of_ne e] at hj
      have held := (h.threads i hi).symm.trans (h.threads j hj)
      cases held
      exact absurd rfl e
  listener hl := by
    have held := (h.threads i hi).symm.trans (h.listener hl)
    cases held
  due j hj := by
    by_cases e : j = i
    · subst e
      simp only [Waiters.release, Waiters.goto, Function.update_self] at hj
      exact hd hj
    · simp only [Waiters.release, Waiters.goto, Function.update_of_ne e] at hj
      exact h.due j hj

theorem Attended.written (h : s.Attended) (pcs : s'.pcs = s.pcs) (lock : s'.lock = s.lock)
    (listener : s'.listener.holds = true → s.listener.holds = true)
    (hd : ∀ j, s'.due (s.pcs j) = true → s'.NotifyPending) : s'.Attended := by
  refine ⟨fun j hj => ?_, fun hl => ?_, fun j hj => ?_⟩
  · rw [pcs] at hj
    rw [lock]
    exact h.threads j hj
  · rw [lock]
    exact h.listener (listener hl)
  · rw [pcs] at hj
    exact hd j hj

theorem Attended.outside (h : s.Attended) (hl : s.listener.holds = true) : (s.pcs i).holds = false := by
  by_contra holds
  have held := (h.listener hl).symm.trans (h.threads i (by simpa using holds))
  cases held

theorem due_congr (sent : s'.isRequestSent = s.isRequestSent) (running : s'.isRunning = s.isRunning) :
    s'.due pc = s.due pc := by
  cases pc with
  | predicateRunning w => simp only [Waiters.due, sent, running]
  | _ => simp only [Waiters.due, mayGoOn, sent, running]

theorem due_waits (hd : s.due pc = true) : pc.waits s.isRunning = true := by
  cases pc with
  | predicateRunning w => exact (Bool.and_eq_true_iff.mp hd).2
  | asleep w | fallAsleep w => rfl
  | _ => cases hd

theorem not_due (h : pc.waits true = false) : ¬s.due pc = true := by
  intro hd
  cases pc with
  | predicateRunning w | asleep w | fallAsleep w => cases h
  | _ => cases hd

theorem Attended.leave (h : s.Attended) (out : pc.holds = false) (awake : pc.waits true = false) :
    (s.goto i pc).Attended :=
  h.goto (fun holds => by rw [out] at holds; cases holds) fun hd => absurd hd (not_due awake)

theorem Attended.setUnsent (h : s.Attended) (fits : s.NotifyPending ∨ ∀ j, (s.pcs j).waits s.isRunning = false) :
    ({ s with isRequestSent := false } : Waiters).Attended := by
  refine h.written rfl rfl id fun j hd => ?_
  rcases fits with pending | none
  · exact pending
  · have waits := due_waits hd
    simp only [none j] at waits
    cases waits

theorem Attended.setSent (h : s.Attended) : ({ s with isRequestSent := true } : Waiters).Attended := by
  refine h.written rfl rfl id fun j hd => h.due j ?_
  cases hpc : s.pcs j with
  | predicateRunning w =>
    rw [hpc] at hd
    cases hd
  | asleep w | fallAsleep w =>
    have stopped : s.isRunning = false := by simpa [hpc, Waiters.due, CallPc.sleeps, mayGoOn] using hd
    simp [Waiters.due, CallPc.sleeps, mayGoOn, stopped]
  | _ =>
    rw [hpc] at hd
    cases hd

theorem Attended.setMode (h : s.Attended) {mode : Bool}
    (fits : mode = false → s.listener = .testBlocking → ∀ j, s.due (s.pcs j) = false) :
    ({ s with isUsingBlocking := mode } : Waiters).Attended := by
  refine h.written rfl rfl id fun j hd => ?_
  have overdue : s.due (s.pcs j) = true := (due_congr rfl rfl).trans hd
  rcases h.due j overdue with ⟨testing, _⟩ | pending
  · cases mode with
    | true => exact Or.inl ⟨testing, rfl⟩
    | false =>
      rw [fits rfl testing j] at overdue
      cases overdue
  · exact Or.inr pending

theorem Attended.fallsAsleep (h : s.Attended) {w : WaitFor} (hpc : s.pcs i = .predicateRunning w)
    (running : s.isRunning = true) : s.due (.fallAsleep w) = true → s.NotifyPending := by
  intro hd
  have unsent : s.isRequestSent = false := by simpa [Waiters.due, CallPc.sleeps, mayGoOn, running] using hd
  exact h.due i (by simp [hpc, Waiters.due, unsent, running])

theorem acquire_eq_some (hs : s.acquire i pc = some s') :
    s.lock = none ∧ s' = { s.goto i pc with lock := some (.thread i) } := by
  unfold Waiters.acquire at hs
  split at hs
  next free => exact ⟨free, (Option.some.inj hs).symm⟩
  next => cases hs

theorem Attended.threadStep {ok : Bool} (h : s.Attended) (fits : s.Fits (.thread i ok))
    (hs : s.threadStep i ok = some s') : s'.Attended := by
  simp only [Waiters.threadStep] at hs
  simp only [Waiters.Fits] at fits
  cases hpc : s.pcs i with
  | idle | asleep w =>
    rw [hpc] at hs
    cases hs
  | testSent | testBlocking | announce | finishBlocking | finishSent =>
    rw [hpc] at hs
    cases hs
    split
    · exact h.leave rfl rfl
    · exact h.leave rfl rfl
  | write =>
    rw [hpc] at hs
    cases hs
    exact h.leave rfl rfl
  | lock w | lockMode mode =>
    rw [hpc] at hs
    obtain ⟨free, rfl⟩ := acquire_eq_some hs
    exact h.acquire free fun hd => absurd hd (not_due rfl)
  | predicateSent w =>
    rw [hpc] at hs
    cases hs
    have holds : (s.pcs i).holds = true := by rw [hpc]; rfl
    by_cases sent : s.isRequestSent = true
    · rw [if_pos sent]
      exact h.goto (fun _ => holds) fun hd => by simp [Waiters.due, sent] at hd
    · rw [if_neg sent]
      exact h.goto (fun _ => holds) fun hd => absurd hd (not_due rfl)
  | predicateRunning w =>
    rw [hpc] at hs
    cases hs
    have holds : (s.pcs i).holds = true := by rw [hpc]; rfl
    by_cases running : s.isRunning = true
    · rw [if_pos running]
      exact h.goto (fun _ => holds) (h.fallsAsleep hpc running)
    · rw [if_neg running]
      exact h.goto (fun _ => holds) fun hd => absurd hd (not_due rfl)
  | fallAsleep w =>
    rw [hpc] at hs
    cases hs
    exact h.release (by rw [hpc]; rfl) rfl fun hd => h.due i (by rw [hpc]; exact hd)
  | testRunning w =>
    rw [hpc] at hs
    cases hs
    exact h.goto (fun _ => by rw [hpc]; rfl) fun hd => absurd hd (not_due rfl)
  | unlock goOn =>
    rw [hpc] at hs
    cases hs
    have holds : (s.pcs i).holds = true := by rw [hpc]; rfl
    split
    · exact h.release holds rfl fun hd => absurd hd (not_due rfl)
    · exact h.release holds rfl fun hd => absurd hd (not_due rfl)
  | setUnsent =>
    rw [hpc] at hs fits
    cases hs
    have left : (s.goto i .finishBlocking).Attended := h.leave rfl rfl
    refine left.setUnsent (fits.imp id fun none j => ?_)
    by_cases e : j = i
    · simp only [Waiters.goto, e, Function.update_self]
      rfl
    · simpa only [Waiters.goto, Function.update_of_ne e] using none j
  | setSent =>
    rw [hpc] at hs
    cases hs
    have left : (s.goto i .finishBlocking).Attended := h.leave rfl rfl
    exact left.setSent
  | setMode mode =>
    rw [hpc] at hs fits
    cases hs
    have moved : (s.goto i (.unlock false)).Attended :=
      h.goto (fun _ => by rw [hpc]; rfl) fun hd => absurd hd (not_due rfl)
    refine moved.setMode ?_
    rintro rfl testing j
    refine Eq.trans (due_congr rfl rfl) (b := s.due ((s.goto i (.unlock false)).pcs j)) ?_
    by_cases e : j = i
    · simp only [Waiters.goto, e, Function.update_self]
      rfl
    · simpa only [Waiters.goto, Function.update_of_ne e] using fits testing j

theorem Attended.moveListener (h : s.Attended) {pc : HandlerPc} (holds : pc.holds = false)
    (pending : s.NotifyPending → ({ s with listener := pc } : Waiters).NotifyPending) :
    ({ s with listener := pc } : Waiters).Attended :=
  h.written rfl rfl (fun hl => by rw [show pc.holds = true from hl] at holds; cases holds) fun j hd =>
    pending (h.due j ((due_congr rfl rfl).trans hd))

theorem not_pending (testing : s.listener ≠ .testBlocking) (lock : s.listener ≠ .lock) (notify : s.listener ≠ .notify) :
    ¬s.NotifyPending := by
  rintro (⟨he, _⟩ | he | he)
  · exact testing he
  · exact lock he
  · exact notify he

theorem Attended.unset (h : s.Attended)
    (fits : s.isUsingBlocking = true ∨ ∀ i, (s.pcs i).waits s.isRunning = false) :
    ({ s with isRequestSent := false, listener := .testBlocking } : Waiters).Attended := by
  refine h.written rfl rfl (fun hl => by cases hl) fun j hd => ?_
  rcases fits with blocking | none
  · exact Or.inl ⟨rfl, blocking⟩
  · have waits := due_waits hd
    simp only [none j] at waits
    cases waits

theorem Attended.stop (h : s.Attended) (awake : ∀ i, (s.pcs i).sleeps = false) :
    ({ s with isRunning := false, listener := .clear } : Waiters).Attended := by
  refine h.written rfl rfl (fun hl => by cases hl) fun j hd => ?_
  have none := awake j
  cases hpc : s.pcs j with
  | asleep w | fallAsleep w =>
    rw [hpc] at none
    cases none
  | predicateRunning w =>
    have stopped : (!s.isRequestSent && false) = true := by
      rw [hpc] at hd
      exact hd
    rw [Bool.and_false] at stopped
    cases stopped
  | _ =>
    rw [hpc] at hd
    cases hd

theorem Attended.takeLock (h : s.Attended) (free : s.lock = none) :
    ({ s with lock := some .listener, listener := .notify } : Waiters).Attended where
  threads i hi := by
    have held := h.threads i hi
    rw [free] at held
    cases held
  listener _ := rfl
  due _ _ := Or.inr (Or.inr rfl)

/-- Whoever sleeps is woken, and nobody is about to sleep. -/
theorem Attended.notify (h : s.Attended) (hl : s.listener = .notify) :
    ({ s with pcs := fun i => (s.pcs i).notified, listener := .unlock } : Waiters).Attended := by
  have outside : ∀ i, (s.pcs i).holds = false := fun i => h.outside (by rw [hl]; rfl)
  have awake : ∀ i, (s.pcs i).notified.holds = false ∧ (s.pcs i).notified.waits true = false := by
    intro i
    have out := outside i
    cases hpc : s.pcs i <;> simp_all [CallPc.notified, CallPc.holds, CallPc.waits, CallPc.sleeps]
  refine ⟨fun i hi => ?_, fun _ => h.listener (by rw [hl]; rfl), fun i hd => absurd hd (Waiters.not_due (awake i).2)⟩
  rw [(awake i).1] at hi
  cases hi

theorem Attended.giveBack (h : s.Attended) (hl : s.listener = .unlock) :
    ({ s with lock := none, listener := .idle } : Waiters).Attended where
  threads i hi := by
    rw [h.outside (by rw [hl]; rfl)] at hi
    cases hi
  listener hl := by cases hl
  due i hd := by
    have idle : ¬s.NotifyPending := not_pending (by simp [hl]) (by simp [hl]) (by simp [hl])
    exact absurd (h.due i ((due_congr rfl rfl).trans hd)) idle

theorem Attended.listenerStep (h : s.Attended) (fits : s.Fits .listener) (hs : s.listenerStep = some s') :
    s'.Attended := by
  simp only [Waiters.listenerStep] at hs
  simp only [Waiters.Fits] at fits
  cases hl : s.listener with
  | idle =>
    rw [hl] at hs
    cases hs
  | message | disconnect =>
    rw [hl] at hs
    cases hs
    have idle : ¬s.NotifyPending := not_pending (by simp [hl]) (by simp [hl]) (by simp [hl])
    exact h.moveListener (by split <;> rfl) fun pending => absurd pending idle
  | testBlocking =>
    rw [hl] at hs
    cases hs
    by_cases blocking : s.isUsingBlocking = true
    · rw [if_pos blocking]
      exact h.moveListener rfl fun _ => Or.inr (Or.inl rfl)
    · rw [if_neg blocking]
      refine h.moveListener rfl fun pending => ?_
      rcases pending with ⟨_, he⟩ | he | he
      · exact absurd he blocking
      · rw [hl] at he
        cases he
      · rw [hl] at he
        cases he
  | unset =>
    rw [hl] at hs fits
    cases hs
    exact h.unset fits
  | lock =>
    rw [hl] at hs
    obtain ⟨free, hs⟩ := Option.ite_none_right_eq_some.mp hs
    cases hs
    exact h.takeLock free
  | notify =>
    rw [hl] at hs
    cases hs
    exact h.notify hl
  | unlock =>
    rw [hl] at hs
    cases hs
    exact h.giveBack hl
  | stop =>
    rw [hl] at hs fits
    cases hs
    exact h.stop fits
  | clear =>
    rw [hl] at hs
    cases hs
    have idle : ¬s.NotifyPending := not_pending (by simp [hl]) (by simp [hl]) (by simp [hl])
    exact h.written rfl rfl (fun hl => by cases hl) fun j hd =>
      absurd (h.due j ((due_congr rfl rfl).trans hd)) idle

theorem Attended.step {move : WaitMove} (h : s.Attended) (fits : s.Fits move) (hs : s.step move = some s') :
    s'.Attended := by
  cases move with
  | call i =>
    obtain ⟨_, hs⟩ := Option.ite_none_right_eq_some.mp hs
    cases hs
    split
    · exact h.leave rfl rfl
    · exact h
  | setBlockingMode i mode =>
    obtain ⟨_, hs⟩ := Option.ite_none_right_eq_some.mp hs
    cases hs
    exact h.leave rfl rfl
  | thread i ok => exact h.threadStep fits hs
  | wake i =>
    simp only [Waiters.step] at hs
    split at hs
    next w _ =>
      cases hs
      exact h.leave rfl rfl
    next => cases hs
  | newMessage | remoteDisconnect =>
    obtain ⟨idle, hs⟩ := Option.ite_none_right_eq_some.mp hs
    cases hs
    have quiet : ¬s.NotifyPending := not_pending (by simp [idle]) (by simp [idle]) (by simp [idle])
    exact h.moveListener rfl fun pending => absurd pending quiet
  | listener => exact h.listenerStep fits hs
  | setReady ready =>
    cases hs
    exact h.written rfl rfl id fun j hd => h.due j ((due_congr rfl rfl).trans hd)

theorem due_of_waits (sent : s'.isRequestSent = false) (running : s'.isRunning = s.isRunning)
    (h : pc.waits s.isRunning = true) : s'.due pc = true := by
  cases pc with
  | predicateRunning w =>
    have goes : s.isRunning = true := h
    simp [Waiters.due, sent, running, goes]
  | asleep w | fallAsleep w => simp [Waiters.due, CallPc.sleeps, mayGoOn, sent]
  | _ => cases h

/-- The moves that are left out all leave somebody behind. -/
theorem due_of_not_fits {move : WaitMove} (fits : ¬s.Fits move) (hs : s.step move = some s') :
    (∃ i, s'.due (s'.pcs i) = true) ∧ ¬s'.NotifyPending := by
  cases move with
  | listener =>
    simp only [Waiters.Fits] at fits
    simp only [Waiters.step, Waiters.listenerStep] at hs
    cases hl : s.listener with
    | unset =>
      rw [hl] at hs fits
      cases hs
      obtain ⟨blocking, waiting⟩ := not_or.mp fits
      obtain ⟨i, hi⟩ := not_forall.mp waiting
      refine ⟨⟨i, due_of_waits rfl rfl (by simpa using hi)⟩, ?_⟩
      rintro (⟨_, on⟩ | he | he)
      · exact blocking on
      · cases he
      · cases he
    | stop =>
      rw [hl] at hs fits
      cases hs
      obtain ⟨i, hi⟩ := not_forall.mp fits
      refine ⟨⟨i, ?_⟩, not_pending (by simp) (by simp) (by simp)⟩
      cases hpc : s.pcs i with
      | asleep w | fallAsleep w => simp [Waiters.due, CallPc.sleeps, mayGoOn]
      | _ => exact absurd (by rw [hpc]; rfl) hi
    | _ => exact absurd (by rw [hl]; trivial) fits
  | thread i ok =>
    simp only [Waiters.Fits] at fits
    simp only [Waiters.step, Waiters.threadStep] at hs
    cases hpc : s.pcs i with
    | setUnsent =>
      rw [hpc] at hs fits
      cases hs
      obtain ⟨pending, waiting⟩ := not_or.mp fits
      obtain ⟨j, hj⟩ := not_forall.mp waiting
      have other : j ≠ i := by
        rintro rfl
        exact hj (by rw [hpc]; rfl)
      refine ⟨⟨j, ?_⟩, pending⟩
      simp only [Waiters.goto, Function.update_of_ne other]
      exact due_of_waits rfl rfl (by simpa using hj)
    | setMode mode =>
      rw [hpc] at hs fits
      cases mode with
      | true => exact absurd trivial fits
      | false =>
        cases hs
        obtain ⟨testing, waiting⟩ := Classical.not_imp.mp fits
        obtain ⟨j, hj⟩ := not_forall.mp waiting
        have other : j ≠ i := by
          rintro rfl
          exact hj (by rw [hpc]; rfl)
        refine ⟨⟨j, ?_⟩, ?_⟩
        · simp only [Waiters.goto, Function.update_of_ne other]
          have overdue : s.due (s.pcs j) = true := by simpa using hj
          exact (due_congr rfl rfl).trans overdue
        · rintro (⟨_, on⟩ | he | he)
          · cases on
          · exact absurd (testing.symm.trans he) (by simp)
          · exact absurd (testing.symm.trans he) (by simp)
    | _ => exact absurd (by rw [hpc]; trivial) fits
  | _ => exact absurd trivial fits

/-- In every run without the moves that must not come while a thread waits, nobody is forgotten. -/
theorem waiting_noneForgotten {moves : List WaitMove}
    (run : Trace (fun s move s' => s.Fits move ∧ s.step move = some s') start moves s) : s.NoneForgotten :=
  (run.invariant (fun _ _ _ h hs => Attended.step h hs.1 hs.2) start_attended).noneForgotten

def fitsCheck (s : Waiters) : WaitMove → Bool
  | .listener => decide (s.listener ≠ .stop) && (decide (s.listener ≠ .unset) || s.isUsingBlocking)
  | .thread i _ => decide (s.pcs i ≠ .setUnsent ∧ s.pcs i ≠ .setMode false)
  | _ => true

theorem fitsCheck_sound {move : WaitMove} (h : s.fitsCheck move = true) : s.Fits move := by
  cases move with
  | listener =>
    obtain ⟨running, blocking⟩ := Bool.and_eq_true_iff.mp h
    simp only [Waiters.Fits]
    cases hl : s.listener with
    | unset => exact Or.inl (by simpa [hl] using blocking)
    | stop => exact absurd hl (of_decide_eq_true running)
    | _ => trivial
  | thread i ok =>
    obtain ⟨sent, mode⟩ := of_decide_eq_true h
    simp only [Waiters.Fits]
  | _ => trivial

/-- Thread 0 connects, switches the blocking mode on, makes a request and falls asleep. -/
def toSleep : List WaitMove :=
  [.setReady true, .setBlockingMode 0 true] ++ List.replicate 3 (.thread 0 true) ++ [.call 0] ++
    List.replicate 10 (.thread 0 true)

/-- The reply comes, and the listener is about to test the mode. -/
theorem waiting_noneForgotten_reply : ∃ s, runIf step fitsCheck start
    (toSleep ++ [.newMessage, .listener, .listener]) = some s ∧ s.pcs 0 = .asleep .own ∧ s.mayGoOn = true ∧
      s.NotifyPending := by
  have facts : (runIf step fitsCheck start (toSleep ++ [.newMessage, .listener, .listener])).map
      (fun s => (s.pcs 0, s.mayGoOn)) = some (.asleep .own, true) := by decide
  obtain ⟨s, hs, facts⟩ := Option.map_eq_some_iff.mp facts
  obtain ⟨asleep, goOn⟩ := Prod.mk.inj facts
  have run : Trace (fun s move s' => s.Fits move ∧ s.step move = some s') start _ s :=
    (runIf_trace hs).mono fun _ _ _ _ h => ⟨fitsCheck_sound h.1, h.2⟩
  exact ⟨s, hs, asleep, goOn, waiting_noneForgotten run 0 .own asleep goOn⟩

/-- Thread 0 sleeps on after the server is gone; and after the reply to its request, for which the listener did not
notify because thread 1 had switched the blocking mode off. -/
theorem waiting_forgotten :
    (∃ s, runIf step (fun _ _ => true) start
        (toSleep ++ [.remoteDisconnect, .listener, .listener, .listener]) = some s ∧
      s.pcs 0 = .asleep .own ∧ s.isRunning = false ∧ s.listener = .idle ∧ ¬s.NoneForgotten) ∧
    ∃ s, runIf step (fun _ _ => true) start (toSleep ++ [.setBlockingMode 1 false] ++
        List.replicate 3 (.thread 1 true) ++ [.newMessage, .listener, .listener, .listener]) = some s ∧
      s.pcs 0 = .asleep .own ∧ s.isRequestSent = false ∧ s.listener = .idle ∧ ¬s.NoneForgotten := by
  have forgotten : ∀ {s : Waiters}, s.pcs 0 = .asleep .own → s.mayGoOn = true → s.listener = .idle →
      ¬s.NoneForgotten := by
    intro s asleep goOn idle h
    exact not_pending (by simp [idle]) (by simp [idle]) (by simp [idle]) (h 0 .own asleep goOn)
  have gone : (runIf step (fun _ _ => true) start (toSleep ++ [.remoteDisconnect, .listener, .listener, .listener])).map
      (fun s => (s.pcs 0, s.isRunning, s.listener)) = some (.asleep .own, false, .idle) := by decide
  have off : (runIf step (fun _ _ => true) start (toSleep ++ [.setBlockingMode 1 false] ++
      List.replicate 3 (.thread 1 true) ++ [.newMessage, .listener, .listener, .listener])).map
      (fun s => (s.pcs 0, s.isRequestSent, s.listener)) = some (.asleep .own, false, .idle) := by decide
  obtain ⟨s, hs, facts⟩ := Option.map_eq_some_iff.mp gone
  obtain ⟨s₁, hs₁, facts₁⟩ := Option.map_eq_some_iff.mp off
  simp only [Prod.mk.injEq] at facts facts₁
  obtain ⟨asleep, running, idle⟩ := facts
  obtain ⟨asleep₁, sent₁, idle₁⟩ := facts₁
  exact ⟨⟨s, hs, asleep, running, idle, forgotten asleep (by simp [mayGoOn, running]) idle⟩,
    s₁, hs₁, asleep₁, sent₁, idle₁, forgotten asleep₁ (by simp [mayGoOn, sent₁]) idle₁⟩

end Waiters

end Ripc

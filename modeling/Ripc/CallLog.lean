import Ripc.CallFields

namespace Ripc

namespace Caller

/-- The call that is not announced yet. -/
def fresh : Caller → Option Request
  | .guard c | .guardAsleep c | .write c | .announce c => some c
  | _ => none

def waiting : Caller → Bool
  | .guard _ | .guardAsleep _ | .check _ | .asleep _ => true
  | _ => false

def sleeping : Caller → Bool
  | .guardAsleep _ | .asleep _ => true
  | _ => false

@[simp] theorem woken_fresh (c : Caller) : c.woken.fresh = c.fresh := by
  cases c <;> rfl

@[simp] theorem woken_sleeping (c : Caller) : c.woken.sleeping = false := by
  cases c <;> rfl

end Caller

namespace Listener

/-- The reply whose callback is still to be run. -/
def awaiting : Listener → List Request
  | .test r | .invoke r => [r]
  | _ => []

/-- The reply whose callback has been run. -/
def answered : Listener → List Request
  | .clear r | .unset r | .notify r => [r]
  | _ => []

end Listener

def Request.invocation (r : Request) : List (Nat × Nat) := if r.input then [(r.id, r.id)] else []

namespace ClientState

def awaiting (s : ClientState) : List Request := s.listener.awaiting ++ s.replies ++ s.requests

def answered (s : ClientState) : List Request := s.handled ++ s.listener.answered

variable {s s' : ClientState}

/-- The calls and callbacks so far are in order. -/
structure Logged (s : ClientState) : Prop where
  sent : s.sent = s.answered ++ s.awaiting
  invoked : s.invoked = s.answered.flatMap Request.invocation
  increasing : (s.sent.map Request.id).Pairwise (· < ·)
  below : ∀ r ∈ s.sent, r.id < s.calls
  fresh : ∀ c, s.caller.fresh = some c → c.id < s.calls ∧ ∀ r ∈ s.sent, r.id < c.id

theorem start_logged (blocking running : Bool) : Logged (start blocking running) := by
  constructor <;> simp [start, answered, awaiting, Listener.answered, Listener.awaiting, Caller.fresh]

theorem Logged.keep (h : Logged s) (answered : s'.answered = s.answered)
    (awaiting : s'.awaiting = s.awaiting)
    (logs : s'.sent = s.sent ∧ s'.invoked = s.invoked ∧ s'.calls = s.calls)
    (fresh : ∀ c, s'.caller.fresh = some c → s.caller.fresh = some c) : Logged s' := by
  obtain ⟨hsent, hinvoked, hcalls⟩ := logs
  refine ⟨?_, ?_, hsent ▸ h.increasing, ?_, fun c hc => ?_⟩
  · rw [hsent, answered, awaiting]
    exact h.sent
  · rw [hinvoked, answered]
    exact h.invoked
  · rw [hsent, hcalls]
    exact h.below
  · rw [hsent, hcalls]
    exact h.fresh c (fresh c hc)

theorem Logged.answer (h : Logged s) {r : Request} (answered : s'.answered = s.answered ++ [r])
    (awaiting : s.awaiting = r :: s'.awaiting) (invoked : s'.invoked = s.invoked ++ r.invocation)
    (rest : s'.sent = s.sent ∧ s'.calls = s.calls ∧ s'.caller = s.caller) : Logged s' := by
  obtain ⟨hsent, hcalls, hcaller⟩ := rest
  refine ⟨?_, ?_, hsent ▸ h.increasing, ?_, ?_⟩
  · rw [hsent, answered, h.sent, awaiting, List.append_assoc, List.singleton_append]
  · rw [invoked, answered, h.invoked, List.flatMap_append, List.flatMap_singleton]
  · rw [hsent, hcalls]
    exact h.below
  · rw [hsent, hcalls, hcaller]
    exact h.fresh

theorem beginCall_logged (h : Logged s) (input : Bool) : Logged (s.beginCall input) where
  sent := h.sent
  invoked := h.invoked
  increasing := h.increasing
  below := fun r hr => Nat.lt_succ_of_lt (h.below r hr)
  fresh := by
    intro c hc
    have own : c = ⟨s.calls, input⟩ := by
      simp only [beginCall] at hc
      repeat' split at hc
      all_goals cases hc
      all_goals rfl
    subst own
    exact ⟨Nat.lt_succ_self _, h.below⟩

theorem announced_logged (h : Logged s) {c : Request} (hs : s.caller = .announce c) (ok : Bool) :
    Logged (s.announced c ok) := by
  obtain ⟨below, last⟩ := h.fresh c (by rw [hs]; rfl)
  cases ok with
  | false => exact h.keep rfl rfl ⟨rfl, rfl, rfl⟩ nofun
  | true =>
    refine ⟨?_, h.invoked, ?_, fun r hr => ?_, nofun⟩
    · simp [announced, h.sent, answered, awaiting]
    · simp only [announced, if_true, List.map_append, List.map_singleton, List.pairwise_append]
      refine ⟨h.increasing, List.pairwise_singleton _ _, fun a ha b hb => ?_⟩
      obtain ⟨r, hr, rfl⟩ := List.mem_map.mp ha
      rw [List.mem_singleton.mp hb]
      exact last r hr
    · simp only [announced, if_true, List.mem_append, List.mem_singleton] at hr
      rcases hr with hr | rfl
      · exact h.below r hr
      · exact below

theorem callerStep_logged (h : Logged s) (hs : s.callerStep = some s') : Logged s' := by
  unfold callerStep at hs
  split at hs
  next c hc =>
    cases hs
    refine h.keep rfl rfl ⟨rfl, rfl, rfl⟩ fun c' hc' => ?_
    rw [hc]
    repeat' split at hc'
    all_goals first | exact hc' | cases hc'
  next c hc =>
    cases hs
    exact h.keep rfl rfl ⟨rfl, rfl, rfl⟩ fun c' hc' => by rw [hc]; exact hc'
  next c hc => cases hs; exact h.keep rfl rfl ⟨rfl, rfl, rfl⟩ nofun
  next c hc => cases hs; exact h.keep rfl rfl ⟨rfl, rfl, rfl⟩ nofun
  next c hc => cases hs; exact h.keep rfl rfl ⟨rfl, rfl, rfl⟩ nofun
  next c hc =>
    cases hs
    refine h.keep rfl rfl ⟨rfl, rfl, rfl⟩ fun c' hc' => ?_
    split at hc' <;> cases hc'
  next c hc =>
    cases hs
    refine h.keep rfl rfl ⟨rfl, rfl, rfl⟩ fun c' hc' => ?_
    split at hc' <;> cases hc'
  next => cases hs

theorem InStep.callback_at_test (h : InStep s) {r : Request} (hl : s.listener = .test r)
    (timely : s.caller.unstored = false) (hnone : s.callback = none) : r.input = false := by
  have moved := testCallback_inStep h hl timely
  rw [hnone, Option.isSome_none, if_neg (by simp)] at moved
  cases hr : s.caller.recording with
  | some c => exact moved.unsetting r rfl (by show s.caller.recording ≠ none; rw [hr]; exact nofun)
  | none =>
    obtain ⟨now, -, -⟩ := h.others_done (r := r) (by rw [hl]; rfl)
    have due := h.callback
    simpa [hnone, dueCallback, hr, hl, now, Request.callback] using due

theorem InStep.callback_at_invoke (h : InStep s) {r : Request} (hl : s.listener = .invoke r) :
    s.callback = some r.id ∧ r.input = true := by
  obtain ⟨input, none_recorded⟩ := h.invoking r (Or.inl hl)
  obtain ⟨now, -, -⟩ := h.others_done (r := r) (by rw [hl]; rfl)
  have due := h.callback
  exact ⟨by simpa [dueCallback, none_recorded, hl, now, Request.callback, input] using due, input⟩

theorem listenerStep_logged (hi : InStep s) (h : Logged s) (timely : s.Timely .listener)
    (hs : s.listenerStep = some s') : Logged s' := by
  unfold listenerStep at hs
  simp only [Timely] at timely
  split at hs
  next r hl =>
    cases hs
    rw [hl] at timely
    split
    next =>
      refine h.keep ?_ ?_ ⟨rfl, rfl, rfl⟩ fun _ => id
      · simp [answered, hl, Listener.answered]
      · simp [awaiting, hl, Listener.awaiting]
    next hnone =>
      have noInput := hi.callback_at_test hl timely (by simpa using hnone)
      refine h.answer (r := r) ?_ ?_ ?_ ⟨rfl, rfl, rfl⟩
      · simp [answered, hl, Listener.answered]
      · simp [awaiting, hl, Listener.awaiting]
      · simp [Request.invocation, noInput]
  next r hl =>
    obtain ⟨k, hk, hs⟩ := Option.map_eq_some_iff.mp hs
    cases hs
    obtain ⟨own, input⟩ := hi.callback_at_invoke hl
    cases hk.symm.trans own
    refine h.answer (r := r) ?_ ?_ ?_ ⟨rfl, rfl, rfl⟩
    · simp [answered, hl, Listener.answered]
    · simp [awaiting, hl, Listener.awaiting]
    · simp [Request.invocation, input]
  next r hl =>
    cases hs
    refine h.keep ?_ ?_ ⟨rfl, rfl, rfl⟩ fun _ => id
    · simp [answered, hl, Listener.answered]
    · simp [awaiting, hl, Listener.awaiting]
  next r hl =>
    cases hs
    refine h.keep ?_ ?_ ⟨rfl, rfl, rfl⟩ fun _ => id
    · simp [answered, hl, Listener.answered]
    · simp [awaiting, hl, Listener.awaiting]
  next r hl =>
    cases hs
    refine h.keep ?_ ?_ ⟨rfl, rfl, rfl⟩ fun c hc => ?_
    · simp [answered, hl, Listener.answered]
    · simp [awaiting, hl, Listener.awaiting]
    · split at hc
      next => simpa using hc
      next => exact hc
  next => cases hs

theorem step_logged (hi : InStep s) (h : Logged s) {m : Move} (timely : s.Timely m)
    (hs : s.step m = some s') : Logged s' := by
  cases m with
  | call input =>
    simp only [step] at hs
    split at hs
    next => cases hs; exact beginCall_logged h input
    next => cases hs
  | endWriting ok =>
    simp only [step] at hs
    split at hs
    next c hc => cases hs; exact announced_logged h hc ok
    next => cases hs
  | caller => exact callerStep_logged h hs
  | reply =>
    simp only [step] at hs
    split at hs
    next r requests hq =>
      cases hs
      refine h.keep rfl ?_ ⟨rfl, rfl, rfl⟩ fun _ => id
      simp [awaiting, hq]
    next => cases hs
  | take =>
    simp only [step] at hs
    split at hs
    next r replies hl hq =>
      cases hs
      refine h.keep ?_ ?_ ⟨rfl, rfl, rfl⟩ fun _ => id
      · simp [answered, hl, Listener.answered]
      · simp [awaiting, hl, hq, Listener.awaiting]
    next => cases hs
  | listener => exact listenerStep_logged hi h timely hs

/-- A thread sleeps only while a notification of it is due. -/
structure Awake (s : ClientState) : Prop where
  blocking : s.caller.waiting = true → s.isUsingBlocking = true
  due : s.caller.sleeping = true → s.isRequestSent = true ∨ ∃ r, s.listener = .notify r

theorem Awake.awake (waiting : s.caller.waiting = true → s.isUsingBlocking = true)
    (awake : s.caller.sleeping = false) : Awake s :=
  ⟨waiting, fun h => by simp [awake] at h⟩

theorem callerStep_awake (h : Awake s) (hs : s.callerStep = some s') : Awake s' := by
  unfold callerStep at hs
  split at hs
  next c hc =>
    cases hs
    have blocking := h.blocking (by rw [hc]; rfl)
    refine ⟨fun _ => blocking, fun hsleep => Or.inl ?_⟩
    split at hsleep
    next => split at hsleep <;> cases hsleep
    next hgo =>
      simp only [mayGoOn, Bool.or_eq_true, not_or] at hgo
      simpa using hgo.1
  next => cases hs; exact .awake (by simp [Caller.waiting]) rfl
  next => cases hs; exact .awake (by simp [Caller.waiting]) rfl
  next => cases hs; exact .awake (by simp [Caller.waiting]) rfl
  next => cases hs; exact .awake (by simp [Caller.waiting]) rfl
  next c hc =>
    cases hs
    split
    next hblock => exact .awake (fun _ => (Bool.and_eq_true_iff.mp hblock).1) rfl
    next => exact .awake (by simp [Caller.waiting]) rfl
  next c hc =>
    cases hs
    have blocking := h.blocking (by rw [hc]; rfl)
    refine ⟨fun _ => blocking, fun hsleep => Or.inl ?_⟩
    split at hsleep
    next => cases hsleep
    next hgo =>
      simp only [mayGoOn, Bool.or_eq_true, not_or] at hgo
      simpa using hgo.1
  next => cases hs

theorem listenerStep_awake (h : Awake s) (hs : s.listenerStep = some s') : Awake s' := by
  have flag : (∀ r, s.listener ≠ .notify r) → s.caller.sleeping = true → s.isRequestSent = true :=
    fun hn hsleep => (h.due hsleep).resolve_right fun ⟨r, hr⟩ => hn r hr
  unfold listenerStep at hs
  split at hs
  next r hl =>
    cases hs
    exact ⟨h.blocking, fun hsleep => Or.inl (flag (by rw [hl]; exact nofun) hsleep)⟩
  next r hl =>
    obtain ⟨k, -, hs⟩ := Option.map_eq_some_iff.mp hs
    cases hs
    exact ⟨h.blocking, fun hsleep => Or.inl (flag (by rw [hl]; exact nofun) hsleep)⟩
  next r hl =>
    cases hs
    exact ⟨h.blocking, fun hsleep => Or.inl (flag (by rw [hl]; exact nofun) hsleep)⟩
  next r hl =>
    cases hs
    exact ⟨h.blocking, fun _ => Or.inr ⟨r, rfl⟩⟩
  next r hl =>
    cases hs
    cases hb : s.isUsingBlocking with
    | true => exact .awake (fun _ => rfl) (by simp)
    | false =>
      -- nobody waits in this mode, so there is nobody to wake
      have nobody : s.caller.waiting = false := by
        by_contra hw
        simp [h.blocking (by simpa using hw)] at hb
      refine .awake (fun hw => by simp [nobody] at hw) ?_
      show s.caller.sleeping = false
      cases hc : s.caller <;> first | rfl | simp [hc, Caller.waiting] at nobody
  next => cases hs

theorem step_awake (h : Awake s) {m : Move} (hs : s.step m = some s') : Awake s' := by
  cases m with
  | call input =>
    simp only [step] at hs
    split at hs
    next =>
      cases hs
      refine .awake (fun hw => ?_) ?_
      · simp only [beginCall] at hw ⊢
        repeat' split at hw
        all_goals first | assumption | cases hw
      · simp only [beginCall]
        repeat' split
        all_goals rfl
    next => cases hs
  | endWriting ok =>
    simp only [step] at hs
    split at hs
    next => cases hs; cases ok <;> exact .awake (by simp [Caller.waiting, announced]) rfl
    next => cases hs
  | caller => exact callerStep_awake h hs
  | reply =>
    simp only [step] at hs
    split at hs
    next => cases hs; exact ⟨h.blocking, h.due⟩
    next => cases hs
  | take =>
    simp only [step] at hs
    split at hs
    next r replies hl hq =>
      cases hs
      refine ⟨h.blocking, fun hsleep => Or.inl ((h.due hsleep).resolve_right ?_)⟩
      rintro ⟨r', hr'⟩
      cases hl.symm.trans hr'
    next => cases hs
  | listener => exact listenerStep_awake h hs

end ClientState

end Ripc

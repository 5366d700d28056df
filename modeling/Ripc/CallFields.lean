import Ripc.ClientCall

namespace Ripc

namespace Caller

/-- The request was announced but `m_is_request_sent` is not yet set. -/
def unflagged : Caller → Bool
  | .setSent _ => true
  | _ => false

/-- The request was announced but its callback is not yet stored. -/
def unstored : Caller → Bool
  | .setSent c | .storeCallback c => c.input
  | _ => false

/-- The call that was announced and whose fields are being recorded. -/
def recording : Caller → Option Request
  | .setSent c | .storeCallback c => some c
  | _ => none

/-- The thread found no pending request and has not announced its own. -/
def composing : Caller → Bool
  | .write _ | .announce _ | .notSent _ => true
  | _ => false

@[simp] theorem woken_recording (c : Caller) : c.woken.recording = c.recording := by
  cases c <;> rfl

@[simp] theorem woken_unflagged (c : Caller) : c.woken.unflagged = c.unflagged := by
  cases c <;> rfl

@[simp] theorem woken_composing (c : Caller) : c.woken.composing = c.composing := by
  cases c <;> rfl

theorem unflagged_of_recording {c : Caller} (h : c.recording = none) : c.unflagged = false := by
  cases c <;> first | rfl | cases h

end Caller

namespace Listener

/-- The reply for which `m_is_request_sent` is still to be cleared. -/
def pending : Listener → List Request
  | .test r | .invoke r | .clear r | .unset r => [r]
  | _ => []

end Listener

namespace ClientState

/-- The listener looks at `m_callback` only when the pending call has stored its own, and clears
`m_is_request_sent` only when the pending call has set it. -/
def Timely (s : ClientState) : Move → Prop
  | .listener =>
    match s.listener with
    | .test _ => s.caller.unstored = false
    | .unset _ => s.caller.unflagged = false
    | _ => True
  | _ => True

instance (s : ClientState) (m : Move) : Decidable (s.Timely m) := by
  unfold Timely
  split <;> (try split) <;> infer_instance

/-- The requests whose reply has not cleared `m_is_request_sent`. -/
def pending (s : ClientState) : List Request := s.listener.pending ++ s.replies ++ s.requests

/-- What `m_callback` should be. -/
def dueCallback (s : ClientState) : Option Nat :=
  match s.caller.recording, s.listener with
  | some _, _ => none
  | none, .unset _ => none
  | none, _ => s.pending.head?.bind Request.callback

/-- The two threads agree on the pending request and on the fields. -/
structure InStep (s : ClientState) : Prop where
  single : s.pending.length ≤ 1
  composing : s.caller.composing = true → s.pending = []
  flag : s.isRequestSent = (!s.pending.isEmpty && !s.caller.unflagged)
  callback : s.callback = s.dueCallback
  recording : ∀ c, s.caller.recording = some c →
    s.pending = [c] ∨ s.pending = [] ∧ c.input = false ∧ s.caller.unflagged = false
  invoking : ∀ r, s.listener = .invoke r ∨ s.listener = .clear r →
    r.input = true ∧ s.caller.recording = none
  unsetting : ∀ r, s.listener = .unset r → s.caller.recording ≠ none → r.input = false

variable {s s' : ClientState}

theorem start_inStep (blocking running : Bool) : InStep (start blocking running) := by
  constructor <;> simp [start, pending, Listener.pending, dueCallback, Caller.recording,
    Caller.composing]

theorem InStep.moveCaller (h : InStep s) {c : Caller} (hc : c.recording = none)
    (hs : s.caller.recording = none) (composing : c.composing = true → s.pending = []) :
    InStep { s with caller := c } where
  single := h.single
  composing := composing
  flag := by
    have flag := h.flag
    rw [Caller.unflagged_of_recording hs] at flag
    rw [Caller.unflagged_of_recording hc]
    exact flag
  callback := by
    have callback := h.callback
    simp only [dueCallback, hs] at callback
    simp only [dueCallback, hc]
    exact callback
  recording := fun c' hc' => nomatch hc.symm.trans hc'
  invoking := fun r hr => ⟨(h.invoking r hr).1, hc⟩
  unsetting := fun r _ hne => absurd hc hne

theorem InStep.flag_of_recording (h : InStep s) (hs : s.caller.recording = none) :
    s.isRequestSent = !s.pending.isEmpty := by
  simpa [Caller.unflagged_of_recording hs] using h.flag

theorem beginCall_inStep (h : InStep s) (hs : s.caller = .idle) (input : Bool) :
    InStep (s.beginCall input) := by
  have none_recorded : s.caller.recording = none := by rw [hs]; rfl
  have flag := h.flag_of_recording none_recorded
  have moved : InStep { s with caller := (s.beginCall input).caller } := by
    refine h.moveCaller ?_ none_recorded ?_
    · simp only [beginCall]
      repeat' split
      all_goals rfl
    · simp only [beginCall]
      split
      next => split <;> exact nofun
      next hsent =>
        intro _
        simpa [hsent] using flag
  exact ⟨moved.single, moved.composing, moved.flag, moved.callback, moved.recording, moved.invoking,
    moved.unsetting⟩

theorem pending_eq_nil : s.pending = [] ↔
    s.listener.pending = [] ∧ s.replies = [] ∧ s.requests = [] := by
  simp [pending]

theorem announced_inStep (h : InStep s) {c : Request} (hs : s.caller = .announce c) (ok : Bool) :
    InStep (s.announced c ok) := by
  have empty := h.composing (by rw [hs]; rfl)
  have none_recorded : s.caller.recording = none := by rw [hs]; rfl
  cases ok with
  | false => exact h.moveCaller rfl none_recorded fun _ => empty
  | true =>
    have none_stored : s.callback = none := by
      rw [h.callback, dueCallback, none_recorded, empty]
      split <;> rfl
    have flag : s.isRequestSent = false := by
      rw [h.flag_of_recording none_recorded, empty]
      rfl
    obtain ⟨listening, replies, requests⟩ := pending_eq_nil.mp empty
    have now : (s.announced c true).pending = [c] := by
      simp [announced, pending, listening, replies, requests]
    refine ⟨by simp [now], nofun, ?_, none_stored, fun c' hc' => ?_, fun r hr => ?_, fun r hr => ?_⟩
    · rw [now]
      exact flag
    · cases hc'
      exact Or.inl now
    · have hr : s.listener = .invoke r ∨ s.listener = .clear r := hr
      rcases hr with hr | hr <;> simp [hr, Listener.pending] at listening
    · have hr : s.listener = .unset r := hr
      simp [hr, Listener.pending] at listening

theorem setSent_inStep (h : InStep s) {c : Request} (hs : s.caller = .setSent c) :
    InStep { s with isRequestSent := true, caller := .storeCallback c } := by
  have now : s.pending = [c] :=
    (h.recording c (by rw [hs]; rfl)).resolve_right fun h => by simp [hs, Caller.unflagged] at h
  have none_stored : s.callback = none := by
    rw [h.callback, dueCallback, hs]
    rfl
  refine ⟨h.single, nofun, ?_, none_stored, fun c' hc' => ?_, fun r hr => ?_, fun r hr _ => ?_⟩
  · have : !s.pending.isEmpty && !(Caller.storeCallback c).unflagged = true := by
      rw [now]
      rfl
    exact this.symm
  · cases hc'
    exact Or.inl now
  · have := (h.invoking r hr).2
    rw [hs] at this
    cases this
  · exact h.unsetting r hr (by rw [hs]; exact nofun)

theorem storeCallback_due (h : InStep s) {c : Request} (hs : s.caller = .storeCallback c) :
    c.callback = dueCallback { s with callback := c.callback, caller := .finish c } := by
  have recorded : s.caller.recording = some c := by rw [hs]; rfl
  have none_due : c.input = false → c.callback = none := fun h => by simp [Request.callback, h]
  simp only [dueCallback, Caller.recording]
  split
  next => contradiction
  next r _ hl =>
    have noInput := h.unsetting r hl (by rw [recorded]; exact nofun)
    rcases h.recording c recorded with now | ⟨-, noInput', -⟩
    · simp only [pending, hl, Listener.pending] at now
      exact none_due ((List.cons.inj now).1 ▸ noInput)
    · exact none_due noInput'
  next =>
    show c.callback = s.pending.head?.bind Request.callback
    rcases h.recording c recorded with now | ⟨now, noInput, -⟩
    · rw [now]
      rfl
    · rw [now]
      exact none_due noInput

theorem storeCallback_inStep (h : InStep s) {c : Request} (hs : s.caller = .storeCallback c) :
    InStep { s with callback := c.callback, caller := .finish c } where
  single := h.single
  composing := nofun
  flag := by
    have flag := h.flag
    rw [hs] at flag
    exact flag
  callback := storeCallback_due h hs
  recording := nofun
  invoking := fun r hr => ⟨(h.invoking r hr).1, rfl⟩
  unsetting := fun r _ hne => absurd rfl hne

theorem callerStep_inStep (h : InStep s) (hs : s.callerStep = some s') : InStep s' := by
  unfold callerStep at hs
  split at hs
  next c hc =>
    cases hs
    have flag := h.flag_of_recording (hc ▸ rfl)
    refine h.moveCaller ?_ (hc ▸ rfl) ?_
    · repeat' split
      all_goals rfl
    · split
      next hgo =>
        split
        next hrun =>
          intro _
          simpa [flag, mayGoOn, hrun] using hgo
        next => exact nofun
      next => exact nofun
  next c hc =>
    cases hs
    exact h.moveCaller rfl (hc ▸ rfl) fun _ => h.composing (hc ▸ rfl)
  next c hc =>
    have empty := h.composing (hc ▸ rfl)
    have flag : s.isRequestSent = false := by
      rw [h.flag_of_recording (hc ▸ rfl), empty]
      rfl
    rw [← flag] at hs
    cases hs
    exact h.moveCaller rfl (hc ▸ rfl) nofun
  next c hc =>
    cases hs
    exact setSent_inStep h hc
  next c hc =>
    cases hs
    exact storeCallback_inStep h hc
  next c hc =>
    cases hs
    refine h.moveCaller ?_ (hc ▸ rfl) ?_
    · split <;> rfl
    · split <;> exact nofun
  next c hc =>
    cases hs
    refine h.moveCaller ?_ (hc ▸ rfl) ?_
    · split <;> rfl
    · split <;> exact nofun
  next => cases hs

theorem InStep.others_done (h : InStep s) {r : Request} (hl : s.listener.pending = [r]) :
    s.pending = [r] ∧ s.replies = [] ∧ s.requests = [] := by
  have single := h.single
  simp only [pending, hl, List.length_append, List.length_singleton] at single
  have replies : s.replies = [] := List.length_eq_zero_iff.mp (by omega)
  have requests : s.requests = [] := List.length_eq_zero_iff.mp (by omega)
  exact ⟨by simp [pending, hl, replies, requests], replies, requests⟩

theorem InStep.keep (h : InStep s) (pending : s'.pending = s.pending)
    (flag : s'.isRequestSent = s.isRequestSent)
    (caller : s'.caller.recording = s.caller.recording ∧ s'.caller.composing = s.caller.composing ∧
      s'.caller.unflagged = s.caller.unflagged)
    (due : s'.callback = s'.dueCallback)
    (invoking : ∀ r, s'.listener = .invoke r ∨ s'.listener = .clear r →
      r.input = true ∧ s.caller.recording = none)
    (unsetting : ∀ r, s'.listener = .unset r → s.caller.recording ≠ none → r.input = false) :
    InStep s' where
  single := pending ▸ h.single
  composing := fun hc => pending.trans (h.composing (caller.2.1 ▸ hc))
  flag := by
    rw [flag, pending, caller.2.2]
    exact h.flag
  callback := due
  recording := by
    rw [pending, caller.1, caller.2.2]
    exact h.recording
  invoking := by
    rw [caller.1]
    exact invoking
  unsetting := by
    rw [caller.1]
    exact unsetting

theorem dueCallback_eq (pending : s'.pending = s.pending)
    (recording : s'.caller.recording = s.caller.recording) (hs : ∀ r, s.listener ≠ .unset r)
    (hs' : ∀ r, s'.listener ≠ .unset r) : s'.dueCallback = s.dueCallback := by
  simp only [dueCallback, pending, recording]
  cases s.caller.recording with
  | some c => rfl
  | none =>
    cases hl : s.listener with
    | unset r => exact absurd hl (hs r)
    | _ =>
      cases hl' : s'.listener with
      | unset r => exact absurd hl' (hs' r)
      | _ => rfl

theorem testCallback_inStep (h : InStep s) {r : Request} (hl : s.listener = .test r)
    (timely : s.caller.unstored = false) :
    InStep { s with listener := if s.callback.isSome then .invoke r else .unset r } := by
  obtain ⟨now, -, -⟩ := h.others_done (r := r) (by rw [hl]; rfl)
  have due := h.callback
  split
  next hsome =>
    -- only a call with a callback that has stored it leaves one to be found
    have none_recorded : s.caller.recording = none := by
      cases hr : s.caller.recording with
      | none => rfl
      | some c => simp [due, dueCallback, hr] at hsome
    have input : r.input = true := by
      by_contra hno
      simp [due, dueCallback, none_recorded, hl, now, Request.callback, hno] at hsome
    have same : pending { s with listener := .invoke r } = s.pending := by
      simp [pending, hl, Listener.pending]
    refine h.keep same rfl ⟨rfl, rfl, rfl⟩ ?_ (fun r' hr' => ?_) nofun
    · exact due.trans (dueCallback_eq same rfl (by rw [hl]; exact nofun) nofun).symm
    · rcases hr' with hr' | hr' <;> cases hr'
      exact ⟨input, none_recorded⟩
  next hnone =>
    have same : pending { s with listener := .unset r } = s.pending := by
      simp [pending, hl, Listener.pending]
    refine h.keep same rfl ⟨rfl, rfl, rfl⟩ ?_ nofun (fun r' hr' hrec => ?_)
    · simp only [dueCallback]
      cases s.caller.recording <;> simpa using hnone
    · cases hr'
      cases hr : s.caller.recording with
      | none => exact absurd hr hrec
      | some c =>
        rcases h.recording c hr with now' | ⟨empty, -, -⟩
        · cases now.symm.trans now'
          cases hc : s.caller <;> simp_all [Caller.recording, Caller.unstored]
        · cases now.symm.trans empty

theorem unset_inStep (h : InStep s) {r : Request} (hl : s.listener = .unset r)
    (timely : s.caller.unflagged = false) :
    InStep { s with isRequestSent := false, listener := .notify r } := by
  obtain ⟨now, replies, requests⟩ := h.others_done (r := r) (by rw [hl]; rfl)
  have empty : pending { s with isRequestSent := false, listener := .notify r } = [] := by
    simp [pending, Listener.pending, replies, requests]
  have none_stored : s.callback = none := by
    rw [h.callback, dueCallback, hl]
    cases s.caller.recording <;> rfl
  refine ⟨by simp [empty], fun _ => empty, by rw [empty]; rfl, ?_, fun c hc => ?_, nofun, nofun⟩
  · refine none_stored.trans ?_
    simp only [dueCallback, empty]
    cases s.caller.recording <;> rfl
  · have hr : s.caller.recording = some c := hc
    rcases h.recording c hr with now' | ⟨now', -, -⟩
    · cases now.symm.trans now'
      exact Or.inr ⟨empty, h.unsetting r hl (by rw [hr]; exact nofun), timely⟩
    · cases now.symm.trans now'

theorem listenerStep_inStep (h : InStep s) (timely : s.Timely .listener)
    (hs : s.listenerStep = some s') : InStep s' := by
  unfold listenerStep at hs
  simp only [Timely] at timely
  split at hs
  next r hl =>
    cases hs
    rw [hl] at timely
    exact testCallback_inStep h hl timely
  next r hl =>
    obtain ⟨k, -, hs⟩ := Option.map_eq_some_iff.mp hs
    cases hs
    have same : pending { s with invoked := s.invoked ++ [(r.id, k)], listener := .clear r } =
        s.pending := by simp [pending, hl, Listener.pending]
    refine h.keep same rfl ⟨rfl, rfl, rfl⟩ ?_ (fun r' hr' => ?_) nofun
    · exact h.callback.trans (dueCallback_eq same rfl (by rw [hl]; exact nofun) nofun).symm
    · rcases hr' with hr' | hr' <;> cases hr'
      exact h.invoking r (Or.inl hl)
  next r hl =>
    cases hs
    have none_recorded := (h.invoking r (Or.inr hl)).2
    refine h.keep ?_ rfl ⟨rfl, rfl, rfl⟩ ?_ nofun fun _ _ hne => absurd none_recorded hne
    · simp [pending, hl, Listener.pending]
    · simp [dueCallback, none_recorded]
  next r hl =>
    cases hs
    rw [hl] at timely
    exact unset_inStep h hl timely
  next r hl =>
    cases hs
    have caller : ∀ c : Caller, c = (if s.isUsingBlocking then s.caller.woken else s.caller) →
        c.recording = s.caller.recording ∧ c.composing = s.caller.composing ∧
          c.unflagged = s.caller.unflagged := by
      rintro c rfl
      split <;> simp
    have same : pending { s with
        listener := .idle
        handled := s.handled ++ [r]
        caller := if s.isUsingBlocking then s.caller.woken else s.caller } = s.pending := by
      simp [pending, hl, Listener.pending]
    refine h.keep same rfl (caller _ rfl) ?_ nofun nofun
    exact h.callback.trans (dueCallback_eq same (caller _ rfl).1 (by rw [hl]; exact nofun) nofun).symm
  next => cases hs

theorem step_inStep (h : InStep s) {m : Move} (timely : s.Timely m) (hs : s.step m = some s') :
    InStep s' := by
  cases m with
  | call input =>
    simp only [step] at hs
    split at hs
    next hc => cases hs; exact beginCall_inStep h hc input
    next => cases hs
  | endWriting ok =>
    simp only [step] at hs
    split at hs
    next c hc => cases hs; exact announced_inStep h hc ok
    next => cases hs
  | caller => exact callerStep_inStep h hs
  | reply =>
    simp only [step] at hs
    split at hs
    next r requests hq =>
      cases hs
      have same : pending { s with requests, replies := s.replies ++ [r] } = s.pending := by
        simp [pending, hq]
      refine h.keep same rfl ⟨rfl, rfl, rfl⟩ ?_ h.invoking h.unsetting
      refine h.callback.trans ?_
      simp only [dueCallback, same]
    next => cases hs
  | take =>
    simp only [step] at hs
    split at hs
    next r replies hl hq =>
      cases hs
      have same : pending { s with listener := .test r, replies } = s.pending := by
        simp [pending, Listener.pending, hl, hq]
      exact h.keep same rfl ⟨rfl, rfl, rfl⟩
        (h.callback.trans (dueCallback_eq same rfl (by rw [hl]; exact nofun) nofun).symm) nofun nofun
    next => cases hs
  | listener => exact listenerStep_inStep h timely hs

end ClientState

end Ripc

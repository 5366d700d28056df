import Ripc.CallFields

namespace Ripc

namespace ClientState

/-- At most one request is under way, and the caller writes only while there is none. -/
structure Alone (s : ClientState) : Prop where
  single : s.pending.length ≤ 1
  composing : s.caller.composing = true → s.pending = []
  flagged : s.pending ≠ [] → s.isRequestSent = true ∨ s.caller.unflagged = true

variable {s s' : ClientState}

theorem start_alone (blocking running : Bool) : Alone (start blocking running) := by
  constructor <;> simp [start, pending, Listener.pending, Caller.composing]

theorem Alone.keep (h : Alone s) (pending : s'.pending = s.pending)
    (composing : s'.caller.composing = true → s.pending = [])
    (flagged : s.isRequestSent = true ∨ s.caller.unflagged = true →
      s'.isRequestSent = true ∨ s'.caller.unflagged = true) : Alone s' where
  single := pending ▸ h.single
  composing := fun hc => pending.trans (composing hc)
  flagged := fun some => flagged (h.flagged (pending ▸ some))

theorem Alone.unasked (h : Alone s) (clear : s.isRequestSent = false) (flagged : s.caller.unflagged = false) :
    s.pending = [] := by
  by_contra asked
  simpa [clear, flagged] using h.flagged asked

theorem beginCall_alone (h : Alone s) (hs : s.caller = .idle) (input : Bool) : Alone (s.beginCall input) := by
  refine h.keep rfl ?_ ?_
  · simp only [beginCall]
    split
    next => split <;> exact fun hc => absurd hc Bool.false_ne_true
    next clear => exact fun _ => h.unasked (by simpa using clear) (by rw [hs]; rfl)
  · rintro (sent | unflagged)
    · exact Or.inl sent
    · rw [hs] at unflagged
      cases unflagged

theorem announced_alone (h : Alone s) {c : Request} (hs : s.caller = .announce c) (ok : Bool) :
    Alone (s.announced c ok) := by
  have empty := h.composing (by rw [hs]; rfl)
  cases ok with
  | false =>
    refine h.keep rfl (fun _ => empty) ?_
    rintro (sent | unflagged)
    · exact Or.inl sent
    · rw [hs] at unflagged
      cases unflagged
  | true =>
    obtain ⟨listening, replies, requests⟩ := pending_eq_nil.mp empty
    have now : (s.announced c true).pending = [c] := by
      simp [announced, pending, listening, replies, requests]
    exact ⟨by simp [now], fun hc => absurd hc Bool.false_ne_true, fun _ => Or.inr rfl⟩

theorem callerStep_alone (h : Alone s) (hs : s.callerStep = some s') : Alone s' := by
  have stays : ∀ {c : Caller}, s.caller = c → c.unflagged = false →
      s.isRequestSent = true ∨ s.caller.unflagged = true → s.isRequestSent = true := by
    rintro _ rfl flagged (sent | unflagged)
    · exact sent
    · rw [flagged] at unflagged
      cases unflagged
  unfold callerStep at hs
  split at hs
  next c hc =>
    cases hs
    refine h.keep rfl ?_ fun old => Or.inl (stays hc rfl old)
    split
    next go =>
      split
      next running =>
        intro _
        exact h.unasked (by simpa [mayGoOn, running] using go) (by rw [hc]; rfl)
      next => exact fun hc => absurd hc Bool.false_ne_true
    next => exact fun hc => absurd hc Bool.false_ne_true
  next c hc =>
    cases hs
    exact h.keep rfl (fun _ => h.composing (by rw [hc]; rfl)) fun old => Or.inl (stays hc rfl old)
  next c hc =>
    have empty := h.composing (by rw [hc]; rfl)
    cases hs
    exact ⟨h.single, fun _ => empty, fun asked => absurd empty asked⟩
  next c hc =>
    cases hs
    exact h.keep rfl (fun hc => absurd hc Bool.false_ne_true) fun _ => Or.inl rfl
  next c hc =>
    cases hs
    exact h.keep rfl (fun hc => absurd hc Bool.false_ne_true) fun old => Or.inl (stays hc rfl old)
  next c hc =>
    cases hs
    refine h.keep rfl ?_ fun old => Or.inl (stays hc rfl old)
    split <;> exact fun hc => absurd hc Bool.false_ne_true
  next c hc =>
    cases hs
    refine h.keep rfl ?_ fun old => Or.inl (stays hc rfl old)
    split <;> exact fun hc => absurd hc Bool.false_ne_true
  next => cases hs

theorem listenerStep_alone (h : Alone s) (hs : s.listenerStep = some s') : Alone s' := by
  unfold listenerStep at hs
  split at hs
  next r hl =>
    cases hs
    refine h.keep ?_ h.composing id
    simp only [pending, hl]
    split <;> rfl
  next r hl =>
    obtain ⟨k, -, hs⟩ := Option.map_eq_some_iff.mp hs
    cases hs
    exact h.keep (by simp [pending, hl, Listener.pending]) h.composing id
  next r hl =>
    cases hs
    exact h.keep (by simp [pending, hl, Listener.pending]) h.composing id
  next r hl =>
    have single := h.single
    simp only [pending, hl, Listener.pending, List.length_append, List.length_singleton] at single
    have replies : s.replies = [] := List.length_eq_zero_iff.mp (by omega)
    have requests : s.requests = [] := List.length_eq_zero_iff.mp (by omega)
    cases hs
    have empty : pending { s with isRequestSent := false, listener := .notify r } = [] := by
      simp [pending, Listener.pending, replies, requests]
    exact ⟨by simp [empty], fun _ => empty, fun asked => absurd empty asked⟩
  next r hl =>
    cases hs
    refine h.keep (by simp [pending, hl, Listener.pending]) ?_ ?_
    · split
      next => rw [Caller.woken_composing]; exact h.composing
      next => exact h.composing
    · split
      next => rw [Caller.woken_unflagged]; exact id
      next => exact id
  next => cases hs

theorem step_alone (h : Alone s) {m : Move} (hs : s.step m = some s') : Alone s' := by
  cases m with
  | call input =>
    simp only [step] at hs
    split at hs
    next hc => cases hs; exact beginCall_alone h hc input
    next => cases hs
  | endWriting ok =>
    simp only [step] at hs
    split at hs
    next c hc => cases hs; exact announced_alone h hc ok
    next => cases hs
  | caller => exact callerStep_alone h hs
  | reply =>
    simp only [step] at hs
    split at hs
    next r requests hq =>
      cases hs
      exact h.keep (by simp [pending, hq]) h.composing id
    next => cases hs
  | take =>
    simp only [step] at hs
    split at hs
    next r replies hl hq =>
      cases hs
      exact h.keep (by simp [pending, Listener.pending, hl, hq]) h.composing id
    next => cases hs
  | listener => exact listenerStep_alone h hs

end ClientState

end Ripc

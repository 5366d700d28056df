import Ripc.Result

namespace Ripc

variable {ε α β : Type} {bad : ε → Prop}

/-- The computation avoids the bad failures exactly under `safe`, and has a result exactly under `safe` and
`total`. -/
structure Outcome (bad : ε → Prop) (x : Except ε α) (safe total : Prop) : Prop where
  avoids : (∀ e, x = .error e → ¬bad e) ↔ safe
  returns : (∃ a, x = .ok a) ↔ safe ∧ total

namespace Outcome

variable {x : Except ε α} {f : α → Except ε β} {a : α} {e : ε} {safe total safe' total' : Prop}

theorem of_ok (hx : x = .ok a) (hs : safe) (ht : total) : Outcome bad x safe total := by
  subst hx
  exact ⟨iff_of_true (fun _ he => by cases he) hs, iff_of_true ⟨a, rfl⟩ ⟨hs, ht⟩⟩

theorem of_bad (hx : x = .error e) (he : bad e) (hs : ¬safe) : Outcome bad x safe total := by
  subst hx
  refine ⟨iff_of_false (fun h => h e rfl he) hs, iff_of_false ?_ fun h => hs h.1⟩
  rintro ⟨_, ha⟩
  cases ha

theorem of_other (hx : x = .error e) (he : ¬bad e) (hs : safe) (ht : ¬total) : Outcome bad x safe total := by
  subst hx
  refine ⟨iff_of_true ?_ hs, iff_of_false ?_ fun h => ht h.2⟩
  · intro _ h
    cases h
    exact he
  · rintro ⟨_, ha⟩
    cases ha

theorem congr (h : Outcome bad x safe total) (hs : safe ↔ safe') (ht : safe → (total ↔ total')) :
    Outcome bad x safe' total' :=
  ⟨h.avoids.trans hs, h.returns.trans ((and_congr_right ht).trans (and_congr_left' hs))⟩

/-- What the second step needs to be safe is needed only if the first one has a result. -/
theorem bind (hx : Outcome bad x safe total) (hf : ∀ a, x = .ok a → Outcome bad (f a) safe' total') :
    Outcome bad (x >>= f) (safe ∧ (total → safe')) (total ∧ total') := by
  cases h : x with
  | ok a =>
    obtain ⟨hs, ht⟩ := hx.returns.mp ⟨a, h⟩
    exact (hf a h).congr (by simp [hs, ht]) (by simp [ht])
  | error e =>
    have none_left : ¬(safe ∧ total) := fun hst => by
      obtain ⟨_, ha⟩ := hx.returns.mpr hst
      rw [h] at ha
      cases ha
    by_cases he : bad e
    · have unmet : ¬safe := fun hs => hx.avoids.mpr hs e h he
      exact of_bad rfl he fun hs => unmet hs.1
    · have hs : safe := hx.avoids.mp fun _ h' => by
        rw [h] at h'
        cases h'
        exact he
      exact of_other rfl he ⟨hs, fun ht => absurd ⟨hs, ht⟩ none_left⟩ fun ht => none_left ⟨hs, ht.1⟩

theorem next (hx : Outcome bad x safe total) (hf : ∀ a, ∃ b, f a = .ok b) : Outcome bad (x >>= f) safe total := by
  refine (hx.bind fun a _ => ?_).congr (and_iff_left fun _ => trivial) fun _ => and_iff_left trivial
  obtain ⟨b, hb⟩ := hf a
  exact of_ok hb trivial trivial

end Outcome

end Ripc

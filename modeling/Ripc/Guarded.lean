import Mathlib.Logic.Function.Basic

namespace Ripc

variable {ρ τ υ : Type*}

/-- Where a thread stands with a resource: it has seen it unmarked, and perhaps put it to use. -/
inductive Hold (ρ : Type*)
  | none
  | seen (r : ρ)
  | used (r : ρ)

def Hold.on : Hold ρ → Option ρ
  | .none => .none
  | .seen r | .used r => some r

/-- Resources that are looked at, used and marked in three separate steps. -/
structure Guarded (uses : υ → Option ρ) (marked : ρ → Prop) (hold : τ → Hold ρ) : Prop where
  unique : ∀ p q r, uses p = some r → uses q = some r → p = q
  covered : ∀ p r, uses p = some r → marked r ∨ ∃ i, hold i = .used r
  single : ∀ i j r, (hold i).on = some r → (hold j).on = some r → i = j
  free : ∀ i p r, hold i = .seen r → uses p ≠ some r

namespace Guarded

variable {uses uses' : υ → Option ρ} {marked marked' : ρ → Prop} {hold hold' : τ → Hold ρ} {i : τ} {r : ρ}

theorem start (unique : ∀ p q r, uses p = some r → uses q = some r → p = q)
    (covered : ∀ p r, uses p = some r → marked r) : Guarded uses marked fun _ : τ => .none where
  unique := unique
  covered := fun p r h => Or.inl (covered p r h)
  single := fun _ _ _ h _ => by simp [Hold.on] at h
  free := fun _ _ _ h => by simp at h

theorem mark (h : Guarded uses marked hold) (grows : ∀ r, marked r → marked' r) :
    Guarded uses marked' hold where
  unique := h.unique
  covered := fun p r hp => (h.covered p r hp).imp_left (grows r)
  single := h.single
  free := h.free

variable [DecidableEq τ]

/-- A thread may take what is unmarked when no other thread is at it. -/
theorem see (h : Guarded uses marked hold) (idle : hold i = .none) (unmarked : ¬marked r)
    (alone : ∀ j, j ≠ i → (hold j).on ≠ some r) : Guarded uses marked (Function.update hold i (.seen r)) := by
  have unused : ∀ p, uses p ≠ some r := by
    intro p hp
    rcases h.covered p r hp with hm | ⟨j, hj⟩
    · exact unmarked hm
    · refine alone j ?_ (by simp [hj, Hold.on])
      rintro rfl
      simp [idle] at hj
  refine ⟨h.unique, fun p q hp => ?_, fun j j' q hj hj' => ?_, fun j p q hj => ?_⟩
  · refine (h.covered p q hp).imp_right fun ⟨j, hj⟩ => ⟨j, ?_⟩
    rwa [Function.update_of_ne]
    rintro rfl
    simp [idle] at hj
  · by_cases hi : j = i
    · by_cases hi' : j' = i
      · rw [hi, hi']
      · subst hi
        rw [Function.update_self] at hj
        rw [Function.update_of_ne hi'] at hj'
        exact absurd hj' (Option.some.inj hj ▸ alone j' hi')
    · by_cases hi' : j' = i
      · subst hi'
        rw [Function.update_self] at hj'
        rw [Function.update_of_ne hi] at hj
        exact absurd hj (Option.some.inj hj' ▸ alone j hi)
      · rw [Function.update_of_ne hi] at hj
        rw [Function.update_of_ne hi'] at hj'
        exact h.single j j' q hj hj'
  · by_cases hi : j = i
    · subst hi
      rw [Function.update_self] at hj
      cases hj
      exact unused p
    · rw [Function.update_of_ne hi] at hj
      exact h.free j p q hj

theorem use [DecidableEq υ] (h : Guarded uses marked hold) (seen : hold i = .seen r) {u : υ} (fresh : uses u = .none) :
    Guarded (Function.update uses u (some r)) marked (Function.update hold i (.used r)) := by
  have old : ∀ {p q}, p ≠ u → Function.update uses u (some r) p = some q → uses p = some q :=
    fun hp hq => by rwa [Function.update_of_ne hp] at hq
  refine ⟨fun p q r' hp hq => ?_, fun p q hp => ?_, fun j j' q hj hj' => ?_, fun j p q hj => ?_⟩
  · by_cases hu : p = u
    · by_cases hv : q = u
      · rw [hu, hv]
      · rw [hu, Function.update_self] at hp
        exact absurd (Option.some.inj hp ▸ old hv hq) (h.free i q r seen)
    · by_cases hv : q = u
      · rw [hv, Function.update_self] at hq
        exact absurd (Option.some.inj hq ▸ old hu hp) (h.free i p r seen)
      · exact h.unique p q r' (old hu hp) (old hv hq)
  · by_cases hu : p = u
    · rw [hu, Function.update_self] at hp
      exact Or.inr ⟨i, by rw [Function.update_self, Option.some.inj hp]⟩
    · refine (h.covered p q (old hu hp)).imp_right fun ⟨j, hj⟩ => ⟨j, ?_⟩
      rwa [Function.update_of_ne]
      rintro rfl
      simp [seen] at hj
  · have same : ∀ j, (Function.update hold i (.used r) j).on = (hold j).on := by
      intro j
      by_cases hi : j = i
      · rw [hi, Function.update_self, seen]
        rfl
      · rw [Function.update_of_ne hi]
    rw [same] at hj hj'
    exact h.single j j' q hj hj'
  · by_cases hi : j = i
    · rw [hi, Function.update_self] at hj
      cases hj
    · rw [Function.update_of_ne hi] at hj
      by_cases hu : p = u
      · subst hu
        rw [Function.update_self]
        intro hr
        refine hi (h.single j i q (by simp [hj, Hold.on]) ?_)
        rw [seen, ← Option.some.inj hr]
        rfl
      · rw [Function.update_of_ne hu]
        exact h.free j p q hj

theorem letGo (h : Guarded uses marked hold) (done : ∀ r, hold i = .used r → marked r) :
    Guarded uses marked (Function.update hold i .none) := by
  have old : ∀ {j : τ} {r}, (Function.update hold i .none j).on = some r → (hold j).on = some r := by
    intro j r hj
    by_cases hi : j = i
    · simp [hi, Hold.on] at hj
    · rwa [Function.update_of_ne hi] at hj
  refine ⟨h.unique, fun p q hp => ?_, fun j j' q hj hj' => h.single j j' q (old hj) (old hj'), fun j p q hj => ?_⟩
  · rcases h.covered p q hp with hm | ⟨j, hj⟩
    · exact Or.inl hm
    · by_cases hi : j = i
      · exact Or.inl (done q (hi ▸ hj))
      · exact Or.inr ⟨j, by rwa [Function.update_of_ne hi]⟩
  · by_cases hi : j = i
    · simp [hi] at hj
    · rw [Function.update_of_ne hi] at hj
      exact h.free j p q hj

end Guarded

end Ripc

import Mathlib.Logic.Basic
import Mathlib.Data.Option.Basic
import Mathlib.Data.List.Nodup

namespace Ripc

variable {κ μ α β : Type}

/-- Every pointer read from an object on the left leads to an object on the right that points
back. Objects are given by their lookup functions, pointers by the fields `f` and `g`. -/
def PointsBack (as : κ → Option α) (f : α → Option μ) (bs : μ → Option β) (g : β → Option κ) : Prop :=
  ∀ k a p, as k = some a → f a = some p → ∃ b, bs p = some b ∧ g b = some k

namespace PointsBack

variable {as as' : κ → Option α} {f : α → Option μ} {bs bs' : μ → Option β} {g : β → Option κ}

theorem injective (h : PointsBack as f bs g) {k k' : κ} {a a' : α} {p : μ}
    (hk : as k = some a) (hp : f a = some p) (hk' : as k' = some a') (hp' : f a' = some p) : k = k' := by
  obtain ⟨b, hb, hg⟩ := h k a p hk hp
  obtain ⟨b', hb', hg'⟩ := h k' a' p hk' hp'
  cases hb.symm.trans hb'
  exact Option.some.inj (hg.symm.trans hg')

theorem length_le (h : PointsBack as f bs g) {ks : List κ} {ps : List μ} (nodup : ks.Nodup)
    (every : ∀ k ∈ ks, ∃ a p, as k = some a ∧ f a = some p ∧ p ∈ ps) : ks.length ≤ ps.length := by
  have target : ∀ k ∈ ks, ∃ p ∈ ps, (as k).bind f = some p := by
    intro k hk
    obtain ⟨a, p, ha, hp, hmem⟩ := every k hk
    exact ⟨p, hmem, by rw [ha, Option.bind_some, hp]⟩
  have targets : (ks.map fun k => (as k).bind f).Nodup := by
    refine List.Nodup.map_on (fun k hk k' hk' same => ?_) nodup
    obtain ⟨a, p, ha, hp, -⟩ := every k hk
    obtain ⟨a', p', ha', hp', -⟩ := every k' hk'
    rw [ha, ha', Option.bind_some, Option.bind_some, hp, hp'] at same
    cases same
    exact h.injective ha hp ha' hp'
  have sub : (ks.map fun k => (as k).bind f) ⊆ ps.map some := by
    intro o ho
    obtain ⟨k, hk, rfl⟩ := List.mem_map.mp ho
    obtain ⟨p, hp, he⟩ := target k hk
    exact he ▸ List.mem_map_of_mem hp
  simpa using List.Nodup.length_le_of_subset targets sub

/-- Frame rule: no pointer is new on the left, none is lost on the right. -/
theorem frame (h : PointsBack as f bs g)
    (hl : ∀ k a p, as' k = some a → f a = some p → ∃ a₀, as k = some a₀ ∧ f a₀ = some p)
    (hr : ∀ p b k, bs p = some b → g b = some k → ∃ b', bs' p = some b' ∧ g b' = some k) :
    PointsBack as' f bs' g := by
  intro k a p ha hp
  obtain ⟨a₀, ha₀, hp₀⟩ := hl k a p ha hp
  obtain ⟨b, hb, hg⟩ := h k a₀ p ha₀ hp₀
  exact hr p b k hb hg

/-- Unlinking rule: one object on the right may go once nothing points to it. -/
theorem unlink (h : PointsBack as f bs g) (q : μ)
    (hl : ∀ k a p, as' k = some a → f a = some p → p ≠ q ∧ ∃ a₀, as k = some a₀ ∧ f a₀ = some p)
    (hr : ∀ p b k, p ≠ q → bs p = some b → g b = some k → ∃ b', bs' p = some b' ∧ g b' = some k) :
    PointsBack as' f bs' g := by
  intro k a p ha hp
  obtain ⟨hne, a₀, ha₀, hp₀⟩ := hl k a p ha hp
  obtain ⟨b, hb, hg⟩ := h k a₀ p ha₀ hp₀
  exact hr p b k hne hb hg

/-- Linking rule: one new pair that points at each other. -/
theorem link (h : PointsBack as f bs g) (k₀ : κ) (p₀ : μ)
    (hl : ∀ k a p, as' k = some a → f a = some p → (k = k₀ ∧ p = p₀) ∨ ∃ a₀, as k = some a₀ ∧ f a₀ = some p)
    (hr : ∀ p b k, bs p = some b → g b = some k → ∃ b', bs' p = some b' ∧ g b' = some k)
    (hn : ∃ b, bs' p₀ = some b ∧ g b = some k₀) : PointsBack as' f bs' g := by
  intro k a p ha hp
  rcases hl k a p ha hp with ⟨rfl, rfl⟩ | ⟨a₀, ha₀, hp₀⟩
  · exact hn
  · obtain ⟨b, hb, hg⟩ := h k a₀ p ha₀ hp₀
    exact hr p b k hb hg

end PointsBack

end Ripc

import Mathlib.Data.List.Basic

namespace Ripc

variable {α β : Type*} {n : Nat} {R : α → β → Prop} {xs : Fin n → α} {l : List β} {a : α} {b : β}

/-- The first members of an array stand for the members of a list, one each and in its order. -/
structure Filled (R : α → β → Prop) (xs : Fin n → α) (l : List β) : Prop where
  room : l.length ≤ n
  member : ∀ (j : Fin n) b, l[j.val]? = some b → R (xs j) b

namespace Filled

theorem nil : Filled R xs [] where
  room := Nat.zero_le n
  member := by simp

theorem write (h : Filled R xs l) (room : l.length < n) (r : R a b) :
    Filled R (fun j => if j.val = l.length then a else xs j) (l ++ [b]) where
  room := by
    rw [List.length_append, List.length_singleton]
    omega
  member := by
    intro j b' hb
    rw [List.getElem?_append] at hb
    split at hb
    next inside =>
      rw [if_neg (by omega)]
      exact h.member j b' hb
    next outside =>
      have last : j.val = l.length := by
        by_contra other
        rw [List.getElem?_eq_none (by simp only [List.length_singleton]; omega)] at hb
        cases hb
      have own : b = b' := by simpa [last] using hb
      rw [if_pos last, ← own]
      exact r

theorem counted (h : Filled R xs l) {j : Fin n} (hj : j.val < l.length) : ∃ b ∈ l, R (xs j) b :=
  ⟨l[j.val], List.getElem_mem hj, h.member j _ (List.getElem?_eq_getElem hj)⟩

theorem shows (h : Filled R xs l) (hb : b ∈ l) : ∃ j : Fin n, j.val < l.length ∧ R (xs j) b := by
  obtain ⟨i, hi, rfl⟩ := List.getElem_of_mem hb
  have room := h.room
  exact ⟨⟨i, by omega⟩, hi, h.member ⟨i, by omega⟩ _ (List.getElem?_eq_getElem hi)⟩

/-- A loop that writes one member for each entry of its list, behind those that are there, fills the array. -/
theorem loop {ε : Type*} {L : List β → Nat → (Fin n → α) → Except ε (Nat × (Fin n → α))} {rest done : List β}
    (stop : ∀ i xs, L [] i xs = .ok (i, xs))
    (round : ∀ b ∈ rest, ∀ more i xs, i < n → ∃ a, R a b ∧
      L (b :: more) i xs = L more (i + 1) fun j => if j.val = i then a else xs j)
    (filled : Filled R xs done) (room : (done ++ rest).length ≤ n) :
    ∃ out, L rest done.length xs = .ok ((done ++ rest).length, out) ∧ Filled R out (done ++ rest) := by
  induction rest generalizing done xs with
  | nil =>
    rw [List.append_nil]
    exact ⟨xs, stop _ _, filled⟩
  | cons b rest ih =>
    have inside : done.length < n := by
      rw [List.length_append, List.length_cons] at room
      omega
    obtain ⟨a, r, step⟩ := round b List.mem_cons_self rest done.length xs inside
    have next := ih (fun b hb => round b (List.mem_cons_of_mem _ hb)) (filled.write inside r) (by simpa using room)
    rw [step]
    simpa only [List.length_append, List.length_singleton, List.append_assoc, List.singleton_append] using next

end Filled

end Ripc

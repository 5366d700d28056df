import Mathlib.Algebra.GroupWithZero.Nat
import Mathlib.Data.List.Basic

namespace Ripc

variable {α : Type}

/-- `memcpy` of `data` to position `i` of a block; what would fall outside is left out. -/
def overwrite (l : List α) (i : Nat) (data : List α) : List α :=
  (l.take i ++ data).take l.length ++ l.drop (i + data.length)

@[simp] theorem overwrite_length (l : List α) (i : Nat) (data : List α) :
    (overwrite l i data).length = l.length := by
  simp only [overwrite, List.length_append, List.length_take, List.length_drop]
  omega

theorem overwrite_append {pre rest data : List α} (h : data.length ≤ rest.length) :
    overwrite (pre ++ rest) pre.length data = pre ++ (data ++ rest.drop data.length) := by
  have short : (pre ++ data).length ≤ (pre ++ rest).length := by
    simp only [List.length_append]
    omega
  simp only [overwrite, List.take_left', List.take_of_length_le short, List.append_assoc,
    List.drop_append, List.drop_eq_nil_of_le (Nat.le_add_right pre.length data.length),
    List.nil_append, Nat.add_sub_cancel_left]

/-- A block before, at and behind the first place that meets `p`. -/
def cutFirst (p : α → Prop) [DecidablePred p] : List α → Option (List α × α × List α)
  | [] => none
  | a :: l => if p a then some ([], a, l) else (cutFirst p l).map fun (seg, d, tail) => (a :: seg, d, tail)

section

variable {p : α → Prop} [DecidablePred p] {l seg tail : List α} {d : α}

theorem cutFirst_eq_some (h : cutFirst p l = some (seg, d, tail)) :
    l = seg ++ d :: tail ∧ (∀ a ∈ seg, ¬p a) ∧ p d := by
  induction l generalizing seg with
  | nil => cases h
  | cons a l ih =>
    rw [cutFirst] at h
    split at h
    next ha =>
      cases h
      exact ⟨rfl, fun _ hm => absurd hm List.not_mem_nil, ha⟩
    next ha =>
      obtain ⟨⟨seg, d, tail⟩, hl, he⟩ := Option.map_eq_some_iff.mp h
      cases he
      obtain ⟨rfl, hseg, hd⟩ := ih hl
      exact ⟨rfl, List.forall_mem_cons.mpr ⟨ha, hseg⟩, hd⟩

theorem cutFirst_eq_none : cutFirst p l = none ↔ ∀ a ∈ l, ¬p a := by
  induction l with
  | nil => simp [cutFirst]
  | cons a l ih => by_cases ha : p a <;> simp [cutFirst, ha, ih]

theorem exists_first (h : ∃ a ∈ l, p a) : ∃ seg d tail, l = seg ++ d :: tail ∧ (∀ a ∈ seg, ¬p a) ∧ p d := by
  cases hc : cutFirst p l with
  | none =>
    obtain ⟨a, ha, hp⟩ := h
    exact absurd hp (cutFirst_eq_none.mp hc a ha)
  | some cut => exact ⟨cut.1, cut.2.1, cut.2.2, cutFirst_eq_some hc⟩

end

theorem drop_behind {l seg tail : List α} {d : α} {i : Nat} (h : l.drop i = seg ++ d :: tail) :
    l.drop (i + seg.length + 1) = tail := by
  rw [Nat.add_assoc, ← List.drop_drop, h, List.drop_append, Nat.add_sub_cancel_left,
    List.drop_eq_nil_of_le (Nat.le_succ _), List.nil_append, List.drop_one, List.tail_cons]

theorem lt_length_of_drop {l seg tail : List α} {d : α} {i : Nat}
    (h : l.drop i = seg ++ d :: tail) : i + seg.length < l.length := by
  have hl := congrArg List.length h
  simp only [List.length_drop, List.length_append, List.length_cons] at hl
  omega

/-- Pieces with a separator between them. -/
def joined (sep : α) (parts : List (List α)) : List α := [sep].intercalate parts

@[simp] theorem joined_nil (sep : α) : joined sep [] = [] := rfl

@[simp] theorem joined_singleton (sep : α) (part : List α) : joined sep [part] = part := by
  simp [joined, List.intercalate]

@[simp] theorem joined_cons_cons (sep : α) (part next : List α) (parts : List (List α)) :
    joined sep (part :: next :: parts) = part ++ sep :: joined sep (next :: parts) := by
  simp [joined, List.intercalate]

theorem joined_length (sep : α) (parts : List (List α)) :
    (joined sep parts).length = (parts.map List.length).sum + (parts.length - 1) := by
  induction parts with
  | nil => rfl
  | cons part parts ih =>
    cases parts with
    | nil => simp
    | cons next parts =>
      simp only [joined_cons_cons, List.length_append, List.length_cons, ih, List.map_cons,
        List.sum_cons]
      omega

theorem notMem_joined {sep a : α} {parts : List (List α)} (hs : a ≠ sep)
    (hp : ∀ part ∈ parts, a ∉ part) : a ∉ joined sep parts := by
  induction parts with
  | nil => simp
  | cons part parts ih =>
    have rest := ih fun q hq => hp q (List.mem_cons_of_mem _ hq)
    cases parts with
    | nil => simpa using hp part (by simp)
    | cons next parts =>
      rw [joined_cons_cons, List.mem_append, List.mem_cons, not_or, not_or]
      exact ⟨hp part (by simp), hs, rest⟩

theorem joined_append (sep : α) (parts : List (List α)) (part : List α) :
    joined sep (parts ++ [part]) =
      joined sep parts ++ ((if parts = [] then [] else [sep]) ++ part) := by
  induction parts with
  | nil => simp
  | cons first parts ih =>
    cases parts with
    | nil => simp
    | cons next parts =>
      rw [List.cons_append, List.cons_append, joined_cons_cons, ← List.cons_append, ih,
        joined_cons_cons]
      simp

end Ripc

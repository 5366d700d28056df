import Mathlib.Data.List.Lex
import Mathlib.Order.RelClasses

namespace Ripc

section

variable {T K V : Type} (less : T → T → Prop) [DecidableRel less] (rank : K → T)

/-- The entry is put in its place, unless there is one for its key. -/
def tryEmplace (k : K) (v : V) : List (K × V) → Bool × List (K × V)
  | [] => (true, [(k, v)])
  | e :: l =>
    if less (rank k) (rank e.1) then (true, (k, v) :: e :: l)
    else if less (rank e.1) (rank k) then ((tryEmplace k v l).1, e :: (tryEmplace k v l).2)
    else (false, e :: l)

def Ascending (l : List (K × V)) : Prop := l.Pairwise fun a b => less (rank a.1) (rank b.1)

end

section

variable {T K V : Type} {less : T → T → Prop} {rank : K → T} {l l' entries : List (K × V)} {k : K} {v : V}

theorem Ascending.nil : Ascending less rank ([] : List (K × V)) := List.Pairwise.nil

variable [IsStrictTotalOrder T less]

theorem Ascending.cons_of_less {e : K × V} (h : Ascending less rank (e :: l)) (hk : less (rank k) (rank e.1)) :
    Ascending less rank ((k, v) :: e :: l) := by
  refine List.Pairwise.cons (fun a ha => ?_) h
  rcases List.mem_cons.mp ha with rfl | ha
  · exact hk
  · exact IsTrans.trans _ _ _ hk ((List.pairwise_cons.mp h).1 a ha)

variable [DecidableRel less]

omit [IsStrictTotalOrder T less] in
theorem mem_tryEmplace {e : K × V} (h : e ∈ (tryEmplace less rank k v l).2) : e = (k, v) ∨ e ∈ l := by
  induction l with
  | nil => exact Or.inl (List.mem_singleton.mp h)
  | cons a l ih =>
    rw [tryEmplace] at h
    split at h
    next => exact List.mem_cons.mp h
    next =>
      split at h
      next =>
        rcases List.mem_cons.mp h with rfl | h
        · exact Or.inr List.mem_cons_self
        · exact (ih h).imp_right (List.mem_cons_of_mem _)
      next => exact Or.inr h

/-- Either there is an entry for the key and nothing changes, or the entry is added. -/
theorem tryEmplace_cases (h : Ascending less rank l) (k : K) (v : V) :
    (∃ e ∈ l, rank e.1 = rank k) ∧ tryEmplace less rank k v l = (false, l) ∨
      (∀ e ∈ l, rank e.1 ≠ rank k) ∧ ∃ l', tryEmplace less rank k v l = (true, l') ∧
        Ascending less rank l' ∧ l'.Perm ((k, v) :: l) := by
  induction l with
  | nil =>
    have single : Ascending less rank [(k, v)] := List.pairwise_singleton _ _
    exact Or.inr ⟨by simp, _, rfl, single, List.Perm.refl _⟩
  | cons e l ih =>
    have behind := List.pairwise_cons.mp h
    rw [tryEmplace]
    by_cases first : less (rank k) (rank e.1)
    · rw [if_pos first]
      refine Or.inr ⟨fun a ha same => ?_, _, rfl, h.cons_of_less first, List.Perm.refl _⟩
      have asc := h.cons_of_less (v := v) first
      exact irrefl (r := less) _ (same ▸ (List.pairwise_cons.mp asc).1 a ha)
    · rw [if_neg first]
      by_cases next : less (rank e.1) (rank k)
      · rw [if_pos next]
        rcases ih behind.2 with ⟨⟨a, ha, same⟩, kept⟩ | ⟨missing, l', added, asc, perm⟩
        · exact Or.inl ⟨⟨a, List.mem_cons_of_mem _ ha, same⟩, by rw [kept]⟩
        · refine Or.inr ⟨fun a ha same => ?_, e :: l', by rw [added], ?_, ?_⟩
          · rcases List.mem_cons.mp ha with rfl | ha
            · exact irrefl (r := less) _ (same ▸ next)
            · exact missing a ha same
          · refine List.Pairwise.cons (fun a ha => ?_) asc
            rcases List.mem_cons.mp (perm.subset ha) with rfl | ha
            · exact next
            · exact behind.1 a ha
          · exact (perm.cons e).trans (List.Perm.swap _ _ _)
      · rw [if_neg next]
        have same : rank e.1 = rank k := Std.Trichotomous.trichotomous _ _ next first
        exact Or.inl ⟨⟨e, List.mem_cons_self, same⟩, rfl⟩

end

end Ripc

import Mathlib.Data.List.Basic
import Ripc.Table

namespace Ripc

variable {α β : Type}

/-- What belongs to a few owners, and not much of it to each, is not much. -/
theorem length_le_of_owners {κ : Type} [DecidableEq κ] {members : List β} {owner : β → κ} {owners : List κ} {n : Nat}
    (owned : ∀ b ∈ members, owner b ∈ owners)
    (few : ∀ k ∈ owners, (members.filter fun b => owner b = k).length ≤ n) : members.length ≤ owners.length * n := by
  induction owners generalizing members with
  | nil => simp [List.eq_nil_iff_forall_not_mem.mpr fun b hb => List.not_mem_nil (owned b hb)]
  | cons k owners ih =>
    have rest : (members.filter fun b => !decide (owner b = k)).length ≤ owners.length * n := by
      refine ih (fun b hb => ?_) fun k' hk' => ?_
      · obtain ⟨hb, other⟩ := List.mem_filter.mp hb
        exact (List.mem_cons.mp (owned b hb)).resolve_left (by simpa using other)
      · refine Nat.le_trans ?_ (few k' (List.mem_cons_of_mem k hk'))
        exact (List.filter_sublist.filter _).length_le
    have first := few k List.mem_cons_self
    rw [List.length_eq_length_filter_add fun b => decide (owner b = k), List.length_cons, Nat.succ_mul]
    omega

/-- Every object of one table counts the objects of another table that belong to it. -/
def Tally (num : α → Int) (owner : β → Nat) (owners : Table α) (members : Table β) : Prop :=
  ∀ t n, (owners.get? t).map num = some n → n = (members.entries.filter fun e => owner e.2 = t).length

namespace Tally

variable {num : α → Int} {owner : β → Nat} {owners owners' : Table α} {members : Table β} {f : α → α}
  {t e : Nat} {a : α} {b : β}

theorem empty : Tally num owner Table.empty members := by
  intro t n hn
  cases hn

theorem of_owners (h : Tally num owner owners members)
    (sub : ∀ t n, (owners'.get? t).map num = some n → (owners.get? t).map num = some n) :
    Tally num owner owners' members :=
  fun t n hn => h t n (sub t n hn)

theorem modify (h : Tally num owner owners members) (same : ∀ a, num (f a) = num a) :
    Tally num owner (owners.modify t f) members := by
  refine h.of_owners fun u n hn => ?_
  rw [Table.get?_modify] at hn
  split at hn
  · rw [Option.map_map, Function.comp_def] at hn
    simpa only [same] using hn
  · exact hn

theorem erase_owner (h : Tally num owner owners members) : Tally num owner (owners.erase t) members := by
  refine h.of_owners fun u n hn => ?_
  rw [Table.get?_erase] at hn
  split at hn
  next => cases hn
  next => exact hn

theorem push_owner (h : Tally num owner owners members) (fresh : t ∉ owners.keys) (zero : num a = 0)
    (live : ∀ e b, members.get? e = some b → owner b ∈ owners.keys) :
    Tally num owner (owners.pushFront t a) members := by
  intro u n hn
  rw [Table.get?_pushFront fresh] at hn
  split at hn
  next new =>
    have nobody : members.entries.filter (fun e => owner e.2 = u) = [] := by
      refine List.filter_eq_nil_iff.mpr fun e he => ?_
      have here := live e.1 e.2 (Table.get?_eq_some.mpr he)
      have other : owner e.2 ≠ u := fun hu => fresh (new ▸ hu ▸ here)
      simpa using other
    have none : num a = n := Option.some.inj hn
    rw [nobody, List.length_nil]
    omega
  next => exact h u n hn

theorem push_member (h : Tally num owner owners members) (fresh : e ∉ members.keys) (up : ∀ a, num (f a) = num a + 1) :
    Tally num owner (owners.modify (owner b) f) (members.pushFront e b) := by
  intro u n hn
  have entries : (members.pushFront e b).entries = (e, b) :: members.entries := by
    simp [Table.pushFront, fresh]
  rw [Table.get?_modify] at hn
  rw [entries]
  split at hn
  next own =>
    obtain ⟨a', hmod, rfl⟩ := Option.map_eq_some_iff.mp hn
    obtain ⟨a, ha, rfl⟩ := Option.map_eq_some_iff.mp hmod
    have before := h u (num a) (by rw [ha]; rfl)
    rw [List.filter_cons_of_pos (by simp [own]), List.length_cons, up, before]
    omega
  next other =>
    rw [List.filter_cons_of_neg (by simpa using Ne.symm other)]
    exact h u n hn

theorem erase_member (h : Tally num owner owners members) (hb : members.get? e = some b)
    (down : ∀ a, num (f a) = num a - 1) : Tally num owner (owners.modify (owner b) f) (members.erase e) := by
  intro u n hn
  have count := Table.length_filter_erase (p := fun e => decide (owner e.2 = u)) hb
  rw [Table.get?_modify] at hn
  split at hn
  next own =>
    obtain ⟨a', hmod, rfl⟩ := Option.map_eq_some_iff.mp hn
    obtain ⟨a, ha, rfl⟩ := Option.map_eq_some_iff.mp hmod
    have before := h u (num a) (by rw [ha]; rfl)
    rw [if_pos (by simp [own])] at count
    rw [down]
    omega
  next other =>
    have before := h u n hn
    rw [if_neg (by simpa using Ne.symm other)] at count
    omega

end Tally

end Ripc

import Mathlib.Logic.Function.Basic

namespace Ripc

structure Authored (κ υ α : Type*) where
  value : κ → υ
  author : κ → Option α

namespace Authored

variable {κ υ α : Type*} {m m' : Authored κ υ α} {D : α → Prop}

/-- Some cells are filled with a value that nobody has written. -/
def wipe (m : Authored κ υ α) (cells : κ → Bool) (v : υ) : Authored κ υ α where
  value c := if cells c then v else m.value c
  author c := if cells c then none else m.author c

def write [DecidableEq κ] (m : Authored κ υ α) (c : κ) (v : υ) (a : Option α) : Authored κ υ α where
  value := Function.update m.value c v
  author := Function.update m.author c a

/-- The cell was written last by somebody of `D`. -/
def WrittenBy (m : Authored κ υ α) (D : α → Prop) (c : κ) : Prop := ∃ a, m.author c = some a ∧ D a

theorem writtenBy_write [DecidableEq κ] {c c' : κ} {v : υ} {a : Option α} :
    (m.write c v a).WrittenBy D c' ↔ if c' = c then ∃ b, a = some b ∧ D b else m.WrittenBy D c' := by
  unfold WrittenBy write
  by_cases h : c' = c
  · simp [h]
  · simp [h]

theorem writtenBy_wipe {cells : κ → Bool} {v : υ} {c : κ} :
    (m.wipe cells v).WrittenBy D c ↔ cells c = false ∧ m.WrittenBy D c := by
  unfold WrittenBy wipe
  cases h : cells c with
  | true => simp [h]
  | false => simp [h]

/-- What others than `D` have written is the same. -/
structure AgreeOff (D : α → Prop) (m m' : Authored κ υ α) : Prop where
  author : m'.author = m.author
  value : ∀ c, ¬m.WrittenBy D c → m'.value c = m.value c

theorem AgreeOff.refl : AgreeOff D m m := ⟨rfl, fun _ _ => rfl⟩

theorem AgreeOff.wipe (h : AgreeOff D m m') (cells : κ → Bool) (v : υ) :
    AgreeOff D (m.wipe cells v) (m'.wipe cells v) := by
  refine ⟨?_, fun c hc => ?_⟩
  · simp only [Authored.wipe, h.author]
  · rw [writtenBy_wipe] at hc
    cases hcells : cells c with
    | true => simp [Authored.wipe, hcells]
    | false =>
      simp only [Authored.wipe, hcells, Bool.false_eq_true, if_false]
      exact h.value c fun written => hc ⟨hcells, written⟩

theorem AgreeOff.write [DecidableEq κ] (h : AgreeOff D m m') (c : κ) {v v' : υ} {a : Option α}
    (hv : v' = v ∨ ∃ b, a = some b ∧ D b) : AgreeOff D (m.write c v a) (m'.write c v' a) := by
  refine ⟨?_, fun c' hc => ?_⟩
  · simp only [Authored.write, h.author]
  · rw [writtenBy_write] at hc
    by_cases he : c' = c
    · rw [if_pos he] at hc
      simp only [Authored.write, he, Function.update_self]
      exact hv.resolve_right hc
    · rw [if_neg he] at hc
      simp only [Authored.write, Function.update_of_ne he]
      exact h.value c' hc

/-- What `D` has written is changed by `f`, and the rest is the same. -/
structure ChangedBy (D : α → Prop) (f : υ → υ) (m m' : Authored κ υ α) : Prop where
  author : m'.author = m.author
  kept : ∀ c, ¬m.WrittenBy D c → m'.value c = m.value c
  changed : ∀ c, m.WrittenBy D c → m'.value c = f (m.value c)

variable {f : υ → υ}

theorem ChangedBy.unwritten (none : ∀ c, ¬m.WrittenBy D c) : ChangedBy D f m m :=
  ⟨rfl, fun _ _ => rfl, fun c written => absurd written (none c)⟩

theorem ChangedBy.agreeOff (h : ChangedBy D f m m') : AgreeOff D m m' := ⟨h.author, h.kept⟩

theorem ChangedBy.wipe (h : ChangedBy D f m m') (cells : κ → Bool) (v : υ) :
    ChangedBy D f (m.wipe cells v) (m'.wipe cells v) := by
  have kept := h.agreeOff.wipe cells v
  refine ⟨kept.author, kept.value, fun c hc => ?_⟩
  obtain ⟨hcells, written⟩ := writtenBy_wipe.mp hc
  simp only [Authored.wipe, hcells, Bool.false_eq_true, if_false]
  exact h.changed c written

theorem ChangedBy.write [DecidableEq κ] (h : ChangedBy D f m m') (c : κ) {v v' : υ} {a : Option α}
    (same : (∃ b, a = some b ∧ D b) ∨ v' = v) (other : (∃ b, a = some b ∧ D b) → v' = f v) :
    ChangedBy D f (m.write c v a) (m'.write c v' a) := by
  have kept := h.agreeOff.write c same.symm
  refine ⟨kept.author, kept.value, fun c' hc => ?_⟩
  rw [writtenBy_write] at hc
  by_cases he : c' = c
  · rw [if_pos he] at hc
    simp only [Authored.write, he, Function.update_self]
    exact other hc
  · rw [if_neg he] at hc
    simp only [Authored.write, Function.update_of_ne he]
    exact h.changed c' hc

end Authored

end Ripc

import Mathlib.Logic.Function.Basic
import Mathlib.Data.List.Nodup

namespace Ripc

/-- What a link points to: the head, the node of an entry, or a value that `list_del` leaves behind. -/
inductive ListNode (α : Type*)
  | head
  | entry (a : α)
  | poison1
  | poison2
  deriving DecidableEq

def ListNode.valid {α : Type*} : ListNode α → Bool
  | .head | .entry _ => true
  | .poison1 | .poison2 => false

/-- The links of all nodes that there are. -/
structure ListHead (α : Type*) where
  next : ListNode α → ListNode α
  prev : ListNode α → ListNode α

namespace ListHead

variable {α : Type*} {m m' : ListHead α} {x : ListNode α} {a : α} {q : List α}

/-- From `x` on the links run through the entries of `q` to the head, and back. -/
def Path (m : ListHead α) : ListNode α → List α → Prop
  | x, [] => m.next x = .head ∧ m.prev .head = x
  | x, a :: q => m.next x = .entry a ∧ m.prev (.entry a) = x ∧ m.Path (.entry a) q

/-- The list consists of the entries of `q`, in this order. -/
structure Holds (m : ListHead α) (q : List α) : Prop where
  path : m.Path .head q
  nodup : q.Nodup

/-- The node before the head. -/
def lastFrom : ListNode α → List α → ListNode α
  | x, [] => x
  | _, a :: q => lastFrom (.entry a) q

/-- The head has been taken off the list as if it were an entry. -/
structure Broken (m : ListHead α) : Prop where
  next : m.next .head = .poison1
  prev : m.prev .head = .poison2

theorem Path.prev_head (h : m.Path x q) : m.prev .head = lastFrom x q := by
  induction q generalizing x with
  | nil => exact h.2
  | cons a q ih => exact ih h.2.2

theorem lastFrom_mem (x : ListNode α) (q : List α) : lastFrom x q = x ∨ ∃ a ∈ q, lastFrom x q = .entry a := by
  induction q generalizing x with
  | nil => exact Or.inl rfl
  | cons a q ih =>
    rcases ih (.entry a) with h | ⟨b, hb, h⟩
    · exact Or.inr ⟨a, List.mem_cons_self, h⟩
    · exact Or.inr ⟨b, List.mem_cons_of_mem a hb, h⟩

theorem Path.congr (h : m.Path x q) (first : m'.next x = m.next x) (last : m'.prev .head = m.prev .head)
    (nodes : ∀ a ∈ q, m'.next (.entry a) = m.next (.entry a) ∧ m'.prev (.entry a) = m.prev (.entry a)) :
    m'.Path x q := by
  induction q generalizing x with
  | nil => exact ⟨first.trans h.1, last.trans h.2⟩
  | cons a q ih =>
    obtain ⟨hnext, hprev⟩ := nodes a List.mem_cons_self
    refine ⟨first.trans h.1, hprev.trans h.2.1, ih h.2.2 hnext fun b hb => nodes b (List.mem_cons_of_mem a hb)⟩

theorem Holds.empty_iff (h : m.Holds q) : m.next .head = .head ↔ q = [] := by
  cases q with
  | nil => exact iff_of_true h.path.1 rfl
  | cons a q => simp [h.path.1]

theorem Broken.not_holds (h : m.Broken) : ¬m.Holds q := by
  intro holds
  have hnext := h.next
  cases q with
  | nil =>
    rw [holds.path.1] at hnext
    cases hnext
  | cons a q =>
    rw [holds.path.1] at hnext
    cases hnext

variable [DecidableEq α]

def init (m : ListHead α) (x : ListNode α) : ListHead α :=
  ⟨Function.update m.next x x, Function.update m.prev x x⟩

def listEmpty (m : ListHead α) : Bool := m.next .head = .head

def listFirstEntry (m : ListHead α) : ListNode α := m.next .head

/-- `__list_add(x, last, head)`. -/
def append (m : ListHead α) (last x : ListNode α) : ListHead α :=
  ⟨Function.update (Function.update m.next x .head) last x, Function.update (Function.update m.prev .head x) x last⟩

/-- `list_add_tail`; none where a poisoned link is followed. -/
def listAddTail (m : ListHead α) (x : ListNode α) : Option (ListHead α) :=
  if (m.prev .head).valid then some (m.append (m.prev .head) x) else none

/-- `__list_del` and the poisoning of the node that has been taken out. -/
def cut (m : ListHead α) (x : ListNode α) : ListHead α :=
  ⟨Function.update (Function.update m.next (m.prev x) (m.next x)) x .poison1,
    Function.update (Function.update m.prev (m.next x) (m.prev x)) x .poison2⟩

/-- `list_del`; none where a poisoned link is followed. -/
def listDel (m : ListHead α) (x : ListNode α) : Option (ListHead α) :=
  if x.valid && (m.next x).valid && (m.prev x).valid then some (m.cut x) else none

theorem Holds.listEmpty (h : m.Holds q) : m.listEmpty = true ↔ q = [] := by
  simpa [ListHead.listEmpty] using h.empty_iff

theorem Holds.init (m : ListHead α) : (m.init .head).Holds [] := by
  refine ⟨⟨?_, ?_⟩, List.nodup_nil⟩ <;> simp [ListHead.init]

theorem Holds.init_entry (h : m.Holds q) (off : a ∉ q) : (m.init (.entry a)).Holds q := by
  refine ⟨h.path.congr (by simp [ListHead.init]) (by simp [ListHead.init]) fun b hb => ?_, h.nodup⟩
  have other : b ≠ a := fun he => off (he ▸ hb)
  simp [ListHead.init, other]

theorem Path.append (h : m.Path x q) (nodup : q.Nodup) (off : a ∉ q) (hx : x ≠ .entry a)
    (fresh : ∀ b ∈ q, x ≠ .entry b) : (m.append (lastFrom x q) (.entry a)).Path x (q ++ [a]) := by
  induction q generalizing x with
  | nil => refine ⟨?_, ?_, ?_, ?_⟩ <;> simp [ListHead.append, lastFrom, hx.symm]
  | cons b q ih =>
    obtain ⟨hnext, hprev, path⟩ := h
    obtain ⟨notMem, nodup⟩ := List.nodup_cons.mp nodup
    have other : b ≠ a := fun he => off (he ▸ List.mem_cons_self)
    have behind : x ≠ lastFrom (.entry b) q := by
      rcases lastFrom_mem (.entry b) q with he | ⟨c, hc, he⟩
      · rw [he]
        exact fresh b List.mem_cons_self
      · rw [he]
        exact fresh c (List.mem_cons_of_mem b hc)
    refine ⟨?_, ?_, ih path nodup (fun ha => off (List.mem_cons_of_mem b ha)) (by simpa using other) ?_⟩
    · simp [ListHead.append, lastFrom, behind, hx, hnext]
    · simp [ListHead.append, other, hprev]
    · intro c hc he
      cases he
      exact notMem hc

theorem Holds.listAddTail (h : m.Holds q) (off : a ∉ q) :
    ∃ m', m.listAddTail (.entry a) = some m' ∧ m'.Holds (q ++ [a]) := by
  have last := h.path.prev_head
  have valid : (lastFrom (.head : ListNode α) q).valid = true := by
    rcases lastFrom_mem .head q with he | ⟨b, _, he⟩ <;> rw [he] <;> rfl
  refine ⟨m.append (lastFrom .head q) (.entry a), ?_, h.path.append h.nodup off (by simp) (by simp), ?_⟩
  · rw [ListHead.listAddTail, last, if_pos valid]
  · refine List.nodup_append.mpr ⟨h.nodup, List.nodup_singleton a, ?_⟩
    intro b hb c hc he
    rw [he, List.mem_singleton.mp hc] at hb
    exact off hb

theorem Holds.listDel (h : m.Holds (a :: q)) :
    m.listFirstEntry = .entry a ∧ ∃ m', m.listDel (.entry a) = some m' ∧ m'.Holds q := by
  obtain ⟨⟨hnext, hprev, path⟩, nodup⟩ := h
  obtain ⟨notMem, nodup⟩ := List.nodup_cons.mp nodup
  refine ⟨hnext, m.cut (.entry a), ?_, ?_, nodup⟩
  · have valid : (m.next (.entry a)).valid = true := by
      cases q with
      | nil => rw [path.1]; rfl
      | cons b q => rw [path.1]; rfl
    rw [ListHead.listDel, valid, hprev]
    rfl
  · cases q with
    | nil => constructor <;> simp [cut, hprev, path.1]
    | cons b q =>
      obtain ⟨hb, hback, path⟩ := path
      have other : b ≠ a := fun he => notMem (he ▸ List.mem_cons_self)
      obtain ⟨notTwice, _⟩ := List.nodup_cons.mp nodup
      refine ⟨?_, ?_, path.congr ?_ ?_ fun c hc => ?_⟩
      · simp [cut, hprev, hb]
      · simp [cut, hb, hprev, other]
      · simp [cut, hprev, other]
      · simp [cut, hb]
      · have apart : c ≠ a := fun he => notMem (he ▸ List.mem_cons_of_mem b hc)
        have later : c ≠ b := fun he => notTwice (he ▸ hc)
        simp [cut, hprev, hb, apart, later]

theorem Holds.listDel_head (h : m.Holds []) :
    m.listFirstEntry = .head ∧ ∃ m', m.listDel .head = some m' ∧ m'.Broken := by
  obtain ⟨hnext, hprev⟩ := h.path
  refine ⟨hnext, m.cut .head, ?_, ?_, ?_⟩
  · rw [ListHead.listDel, hnext, hprev]
    rfl
  · simp [cut]
  · simp [cut]

theorem Broken.listAddTail (h : m.Broken) (x : ListNode α) : m.listAddTail x = none := by
  rw [ListHead.listAddTail, h.prev]
  rfl

theorem Broken.listDel (h : m.Broken) : m.listDel m.listFirstEntry = none := by
  rw [ListHead.listFirstEntry, h.next]
  rfl

end ListHead

end Ripc

import Ripc.Table

namespace Ripc

variable {κ α : Type*}

/-- An element of a map; no other element, of any time, has the same `id`. -/
structure Node (κ α : Type*) where
  id : Nat
  key : κ
  val : α
  deriving DecidableEq, Repr

def Node.modify (r : Nat) (f : α → α) (n : Node κ α) : Node κ α := if n.id = r then { n with val := f n.val } else n

@[simp] theorem Node.modify_id (r : Nat) (f : α → α) (n : Node κ α) : (n.modify r f).id = n.id := by
  unfold modify
  split <;> rfl

@[simp] theorem Node.modify_key (r : Nat) (f : α → α) (n : Node κ α) : (n.modify r f).key = n.key := by
  unfold modify
  split <;> rfl

theorem Node.id_comp_modify (r : Nat) (f : α → α) : (Node.id ∘ Node.modify r f : Node κ α → Nat) = Node.id := by
  funext n
  exact n.modify_id r f

theorem Node.key_comp_modify (r : Nat) (f : α → α) : (Node.key ∘ Node.modify r f : Node κ α → κ) = Node.key := by
  funext n
  exact n.modify_key r f

/-- A map with different keys whose elements can be referred to by their `id`; `made` elements have been made so far. -/
structure NodeMap (κ α : Type*) where
  nodes : List (Node κ α)
  made : Nat
  keys_nodup : (nodes.map Node.key).Nodup
  ids_nodup : (nodes.map Node.id).Nodup
  ids_lt : ∀ n ∈ nodes, n.id < made

namespace NodeMap

def empty : NodeMap κ α := ⟨[], 0, .nil, .nil, by simp⟩

def size (m : NodeMap κ α) : Nat := m.nodes.length

/-- The element that a reference refers to; `none` when it does not exist any more. -/
def deref (m : NodeMap κ α) (r : Nat) : Option (Node κ α) := m.nodes.find? fun n => n.id = r

def modify (m : NodeMap κ α) (r : Nat) (f : α → α) : NodeMap κ α where
  nodes := m.nodes.map (Node.modify r f)
  made := m.made
  keys_nodup := by
    rw [List.map_map, Node.key_comp_modify]
    exact m.keys_nodup
  ids_nodup := by
    rw [List.map_map, Node.id_comp_modify]
    exact m.ids_nodup
  ids_lt := by
    intro n hn
    obtain ⟨was, hwas, rfl⟩ := List.mem_map.mp hn
    rw [Node.modify_id]
    exact m.ids_lt was hwas

/-- `r` refers to an element that is there, under the key `k`. -/
def Holds (m : NodeMap κ α) (r : Nat) (k : κ) : Prop := ∃ n ∈ m.nodes, n.id = r ∧ n.key = k

/-- What is stored, without the identities of the elements. -/
def entries (m : NodeMap κ α) : List (κ × α) := m.nodes.map fun n => (n.key, n.val)

section

variable [DecidableEq κ]

def find? (m : NodeMap κ α) (k : κ) : Option (Node κ α) := m.nodes.find? fun n => n.key = k

/-- A key that is not in the map gets a new element. -/
def insert (m : NodeMap κ α) (k : κ) (v : α) (new : m.find? k = none) : NodeMap κ α where
  nodes := m.nodes ++ [⟨m.made, k, v⟩]
  made := m.made + 1
  keys_nodup := nodup_map_snoc m.keys_nodup fun n hn same => List.find?_eq_none.mp new n hn (decide_eq_true same)
  ids_nodup := nodup_map_snoc m.ids_nodup fun n hn => Nat.ne_of_lt (m.ids_lt n hn)
  ids_lt := by
    intro n hn
    rcases List.mem_append.mp hn with old | new
    · exact Nat.lt_succ_of_lt (m.ids_lt n old)
    · rw [List.mem_singleton.mp new]
      exact Nat.lt_succ_self m.made

/-- A reference to the element of the key, whether it is new, and the map; the element of a key that is there already
stays as it is. -/
def tryEmplace (m : NodeMap κ α) (k : κ) (v : α) : Nat × Bool × NodeMap κ α :=
  match h : m.find? k with
  | some n => (n.id, false, m)
  | none => (m.made, true, m.insert k v h)

def erase (m : NodeMap κ α) (k : κ) : NodeMap κ α where
  nodes := m.nodes.filter fun n => n.key ≠ k
  made := m.made
  keys_nodup := m.keys_nodup.sublist (List.filter_sublist.map Node.key)
  ids_nodup := m.ids_nodup.sublist (List.filter_sublist.map Node.id)
  ids_lt := fun n hn => m.ids_lt n (List.mem_of_mem_filter hn)

end

variable {m : NodeMap κ α} {r : Nat} {k k' : κ} {n : Node κ α}

theorem deref_eq_some : m.deref r = some n ↔ n ∈ m.nodes ∧ n.id = r := find?_of_nodup m.ids_nodup

theorem Holds.deref (h : m.Holds r k) : ∃ n, m.deref r = some n ∧ n.key = k := by
  obtain ⟨n, hn, hr, hk⟩ := h
  exact ⟨n, deref_eq_some.mpr ⟨hn, hr⟩, hk⟩

theorem holds_of_deref (h : m.deref r = some n) : m.Holds r n.key := by
  obtain ⟨hn, hr⟩ := deref_eq_some.mp h
  exact ⟨n, hn, hr, rfl⟩

theorem Holds.key_unique (h : m.Holds r k) (h' : m.Holds r k') : k = k' := by
  obtain ⟨n, hn, rfl, rfl⟩ := h
  obtain ⟨n', hn', same, rfl⟩ := h'
  rw [List.inj_on_of_nodup_map m.ids_nodup hn' hn same]

theorem Holds.ref_unique {r' : Nat} (h : m.Holds r k) (h' : m.Holds r' k) : r = r' := by
  obtain ⟨n, hn, rfl, rfl⟩ := h
  obtain ⟨n', hn', rfl, same⟩ := h'
  rw [List.inj_on_of_nodup_map m.keys_nodup hn' hn same]

@[simp] theorem holds_empty : ¬(empty : NodeMap κ α).Holds r k := by simp [Holds, empty]

theorem holds_modify {f : α → α} {r' : Nat} : (m.modify r' f).Holds r k ↔ m.Holds r k := by
  constructor
  · rintro ⟨n, hn, hr, hk⟩
    obtain ⟨was, hwas, rfl⟩ := List.mem_map.mp hn
    exact ⟨was, hwas, by rwa [Node.modify_id] at hr, by rwa [Node.modify_key] at hk⟩
  · rintro ⟨n, hn, hr, hk⟩
    exact ⟨n.modify r' f, List.mem_map_of_mem hn, by rwa [Node.modify_id], by rwa [Node.modify_key]⟩

section

variable [DecidableEq κ]

theorem find?_eq_some : m.find? k = some n ↔ n ∈ m.nodes ∧ n.key = k := find?_of_nodup m.keys_nodup

theorem holds_erase : (m.erase k').Holds r k ↔ m.Holds r k ∧ k ≠ k' := by
  constructor
  · rintro ⟨n, hn, hr, rfl⟩
    obtain ⟨old, other⟩ := List.mem_filter.mp hn
    exact ⟨⟨n, old, hr, rfl⟩, of_decide_eq_true other⟩
  · rintro ⟨⟨n, hn, hr, rfl⟩, other⟩
    exact ⟨n, List.mem_filter.mpr ⟨hn, decide_eq_true other⟩, hr, rfl⟩

theorem holds_insert {v : α} (new : m.find? k' = none) :
    (m.insert k' v new).Holds r k ↔ m.Holds r k ∨ r = m.made ∧ k = k' := by
  constructor
  · rintro ⟨n, hn, rfl, rfl⟩
    rcases List.mem_append.mp hn with old | last
    · exact Or.inl ⟨n, old, rfl, rfl⟩
    · rw [List.mem_singleton.mp last]
      exact Or.inr ⟨rfl, rfl⟩
  · rintro (⟨n, hn, hr, hk⟩ | ⟨rfl, rfl⟩)
    · exact ⟨n, List.mem_append_left _ hn, hr, hk⟩
    · exact ⟨⟨m.made, k, v⟩, List.mem_append_right _ (List.mem_singleton_self _), rfl, rfl⟩

theorem tryEmplace_found {v : α} (h : m.find? k = some n) : m.tryEmplace k v = (n.id, false, m) := by
  unfold tryEmplace
  split
  next n' found =>
    cases h.symm.trans found
    rfl
  next new => cases h.symm.trans new

theorem tryEmplace_new {v : α} (h : m.find? k = none) : m.tryEmplace k v = (m.made, true, m.insert k v h) := by
  unfold tryEmplace
  split
  next n found => cases h.symm.trans found
  next => rfl

theorem holds_tryEmplace {v : α} :
    (m.tryEmplace k' v).2.2.Holds r k ↔ m.Holds r k ∨ r = (m.tryEmplace k' v).1 ∧ k = k' := by
  cases found : m.find? k' with
  | some n =>
    obtain ⟨hn, hk⟩ := find?_eq_some.mp found
    rw [tryEmplace_found found]
    constructor
    · exact Or.inl
    · rintro (old | ⟨rfl, rfl⟩)
      · exact old
      · exact ⟨n, hn, rfl, hk⟩
  | none =>
    rw [tryEmplace_new found]
    exact holds_insert found

theorem find?_entries : (m.entries.find? fun e => e.1 = k) = (m.find? k).map fun n => (n.key, n.val) := by
  rw [entries, List.find?_map]
  rfl

theorem entries_erase : (m.erase k).entries = m.entries.filter fun e => e.1 ≠ k := by
  rw [entries, entries, List.filter_map]
  rfl

theorem entries_modify {f : α → α} (h : m.Holds r k) :
    (m.modify r f).entries = m.entries.map fun e => if e.1 = k then (e.1, f e.2) else e := by
  simp only [entries, modify, List.map_map]
  refine List.map_congr_left fun n hn => ?_
  have named : n.id = r ↔ n.key = k := by
    have own : m.Holds n.id n.key := ⟨n, hn, rfl, rfl⟩
    exact ⟨fun same => (same ▸ own).key_unique h, fun same => (same ▸ own).ref_unique h⟩
  simp only [Function.comp, Node.modify, named]
  split <;> rfl

theorem entries_insert {v : α} (new : m.find? k = none) : (m.insert k v new).entries = m.entries ++ [(k, v)] :=
  List.map_append

end

end NodeMap

end Ripc

import Mathlib.Data.List.Nodup

namespace Ripc

theorem find?_of_nodup {β γ : Type*} [DecidableEq γ] {f : β → γ} {l : List β} (nodup : (l.map f).Nodup)
    {b : β} {c : γ} : l.find? (fun b => f b = c) = some b ↔ b ∈ l ∧ f b = c := by
  constructor
  · exact fun h => ⟨List.mem_of_find?_eq_some h, by simpa using List.find?_some h⟩
  · rintro ⟨hb, rfl⟩
    have found : (l.find? fun b' => f b' = f b).isSome = true := List.find?_isSome.mpr ⟨b, hb, decide_eq_true rfl⟩
    obtain ⟨b', hb'⟩ := Option.isSome_iff_exists.mp found
    have same : f b' = f b := by simpa using List.find?_some hb'
    rw [hb', List.inj_on_of_nodup_map nodup (List.mem_of_find?_eq_some hb') hb same]

theorem nodup_map_snoc {β γ : Type*} {f : β → γ} {l : List β} {b : β} (nodup : (l.map f).Nodup)
    (fresh : ∀ b' ∈ l, f b' ≠ f b) : ((l ++ [b]).map f).Nodup := by
  rw [List.map_append]
  refine List.nodup_append.mpr ⟨nodup, List.nodup_singleton (f b), ?_⟩
  rintro c hc d hd rfl
  obtain ⟨b', hb', rfl⟩ := List.mem_map.mp hc
  exact fresh b' hb' (List.mem_singleton.mp hd)

theorem eraseP_of_nodup {β γ : Type*} [DecidableEq γ] {f : β → γ} {l : List β} (nodup : (l.map f).Nodup) (c : γ) :
    (l.eraseP fun b => f b = c) = l.filter fun b => f b ≠ c := by
  induction l with
  | nil => rfl
  | cons b rest ih =>
    obtain ⟨notIn, nodup⟩ := List.nodup_cons.mp nodup
    by_cases hb : f b = c
    · have all : (rest.filter fun b => f b ≠ c) = rest := by
        refine List.filter_eq_self.mpr fun b' hmem => decide_eq_true fun same => notIn ?_
        exact List.mem_map.mpr ⟨b', hmem, same.trans hb.symm⟩
      rw [List.eraseP_cons_of_pos (by simp [hb]), List.filter_cons_of_neg (by simp [hb]), all]
    · simp [hb, ih nodup]

/-- Objects filed under pairwise distinct addresses, in list order. -/
structure Table (α : Type) where
  entries : List (Nat × α)
  nodup : (entries.map Prod.fst).Nodup

namespace Table

variable {α : Type} {t : Table α} {k k' : Nat} {a b : α}

@[ext] theorem ext {t t' : Table α} (h : t.entries = t'.entries) : t = t' := by
  cases t; cases t'; cases h; rfl

def empty : Table α := ⟨[], List.nodup_nil⟩

def keys (t : Table α) : List Nat := t.entries.map Prod.fst

def get? (t : Table α) (k : Nat) : Option α := (t.entries.find? (·.1 == k)).map Prod.snd

/-- The first object, in list order, that passes the test. -/
def find? (t : Table α) (p : α → Bool) : Option Nat := (t.entries.find? (fun e => p e.2)).map Prod.fst

/-- Every object is rewritten in its place; the addresses stay. -/
def mapAt (t : Table α) (f : Nat → α → α) : Table α :=
  ⟨t.entries.map fun e => (e.1, f e.1 e.2), by
    simpa only [List.map_map, Function.comp_def] using t.nodup⟩

def filterAt (t : Table α) (p : Nat → α → Bool) : Table α :=
  ⟨t.entries.filter fun e => p e.1 e.2, t.nodup.sublist (List.filter_sublist.map _)⟩

def modify (t : Table α) (k : Nat) (f : α → α) : Table α :=
  t.mapAt fun k' a => if k' = k then f a else a

def erase (t : Table α) (k : Nat) : Table α := t.filterAt fun k' _ => k' ≠ k

/-- Insertion before the first object; an address in use is refused. -/
def pushFront (t : Table α) (k : Nat) (a : α) : Table α :=
  if h : k ∈ t.keys then t else ⟨(k, a) :: t.entries, List.nodup_cons.mpr ⟨h, t.nodup⟩⟩

/-- Insertion after the last object; an address in use is refused. -/
def pushBack (t : Table α) (k : Nat) (a : α) : Table α :=
  if h : k ∈ t.keys then t else
    ⟨t.entries ++ [(k, a)], by
      simpa only [List.map_append, List.map_cons, List.map_nil] using
        List.nodup_append.mpr ⟨t.nodup, List.nodup_singleton k, fun x hx y hy he =>
          h (by rw [List.mem_singleton.mp hy] at he; exact he ▸ hx)⟩⟩

theorem get?_eq_some : t.get? k = some a ↔ (k, a) ∈ t.entries := by
  have found : ∀ e, t.entries.find? (·.1 == k) = some e ↔ e ∈ t.entries ∧ e.1 = k := fun e => find?_of_nodup t.nodup
  simp only [get?, Option.map_eq_some_iff, found]
  constructor
  · rintro ⟨e, ⟨he, rfl⟩, rfl⟩
    exact he
  · exact fun he => ⟨(k, a), ⟨he, rfl⟩, rfl⟩

theorem mem_keys : k ∈ t.keys ↔ ∃ a, t.get? k = some a := by
  simp only [keys, List.mem_map, get?_eq_some]
  constructor
  · rintro ⟨⟨x, a⟩, hm, rfl⟩
    exact ⟨a, hm⟩
  · rintro ⟨a, hm⟩
    exact ⟨(k, a), hm, rfl⟩

theorem get?_eq_none : t.get? k = none ↔ k ∉ t.keys := by
  rw [mem_keys, Option.eq_none_iff_forall_ne_some, not_exists]

theorem ext_get? {t t' : Table α} (h : t.keys = t'.keys) (hg : ∀ k, t.get? k = t'.get? k) :
    t = t' := by
  apply ext
  refine List.ext_getElem (by simpa [keys] using congrArg List.length h) ?_
  intro i hi hj
  have hk : (t.entries[i]).1 = (t'.entries[i]).1 := by
    have hh := List.getElem_of_eq h (i := i) (by simpa [keys] using hi)
    simpa [keys] using hh
  have ht : t.get? (t.entries[i]).1 = some (t.entries[i]).2 := get?_eq_some.mpr (List.getElem_mem hi)
  have ht' : t'.get? (t'.entries[i]).1 = some (t'.entries[i]).2 :=
    get?_eq_some.mpr (List.getElem_mem hj)
  rw [hk, hg, ht', Option.some.injEq] at ht
  exact Prod.ext hk ht.symm

@[simp] theorem get?_empty : (empty : Table α).get? k = none := rfl

@[simp] theorem keys_empty : (empty : Table α).keys = [] := rfl

@[simp] theorem get?_mapAt (f : Nat → α → α) : (t.mapAt f).get? k = (t.get? k).map (f k) := by
  ext b
  simp only [get?_eq_some, Option.map_eq_some_iff, mapAt, List.mem_map, Prod.exists, Prod.mk.injEq]
  constructor
  · rintro ⟨k', a, hm, rfl, rfl⟩
    exact ⟨a, hm, rfl⟩
  · rintro ⟨a, hm, rfl⟩
    exact ⟨k, a, hm, rfl, rfl⟩

@[simp] theorem keys_mapAt (f : Nat → α → α) : (t.mapAt f).keys = t.keys := by
  simp [keys, mapAt, Function.comp_def]

@[simp] theorem get?_filterAt (p : Nat → α → Bool) :
    (t.filterAt p).get? k = (t.get? k).filter (p k) := by
  ext b
  simp only [get?_eq_some, Option.filter_eq_some_iff, filterAt, List.mem_filter]

theorem get?_modify (f : α → α) :
    (t.modify k f).get? k' = if k' = k then (t.get? k').map f else t.get? k' := by
  by_cases h : k' = k <;> simp [modify, h]

@[simp] theorem keys_modify (f : α → α) : (t.modify k f).keys = t.keys := keys_mapAt _

theorem get?_erase : (t.erase k).get? k' = if k' = k then none else t.get? k' := by
  by_cases h : k' = k
  · simp [erase, h]
  · simp only [erase, get?_filterAt, h, ne_eq, not_false_eq_true, decide_true, if_false]
    cases t.get? k' <;> rfl

theorem get?_erase_some : (t.erase k).get? k' = some a ↔ k' ≠ k ∧ t.get? k' = some a := by
  rw [get?_erase]
  split <;> simp [*]

/-- Of the objects that pass a test, an erasure leaves those that are yet to come. -/
theorem mem_rest_erase {p : α → Prop} {ks : List Nat} (nodup : (k :: ks).Nodup)
    (left : ∀ k', k' ∈ k :: ks ↔ ∃ a, t.get? k' = some a ∧ p a) (k' : Nat) :
    k' ∈ ks ↔ ∃ a, (t.erase k).get? k' = some a ∧ p a := by
  have notIn := (List.nodup_cons.mp nodup).1
  simp only [get?_erase_some]
  constructor
  · intro hk
    obtain ⟨a, ha, hp⟩ := (left k').mp (List.mem_cons_of_mem k hk)
    exact ⟨a, ⟨fun same => notIn (same ▸ hk), ha⟩, hp⟩
  · rintro ⟨a, ⟨other, ha⟩, hp⟩
    exact (List.mem_cons.mp ((left k').mpr ⟨a, ha, hp⟩)).resolve_left other

theorem get?_pushFront (h : k ∉ t.keys) :
    (t.pushFront k a).get? k' = if k' = k then some a else t.get? k' := by
  ext b
  by_cases he : k' = k
  · subst he
    simp only [pushFront, dif_neg h, get?_eq_some, List.mem_cons, Prod.mk.injEq, true_and, if_true,
      Option.some.injEq]
    refine ⟨fun hm => hm.elim Eq.symm fun hm => ?_, fun hm => Or.inl hm.symm⟩
    exact absurd (List.mem_map.mpr ⟨_, hm, rfl⟩) h
  · simp [pushFront, h, get?_eq_some, he]

theorem get?_pushBack (h : k ∉ t.keys) :
    (t.pushBack k a).get? k' = if k' = k then some a else t.get? k' := by
  rw [← get?_pushFront h]
  ext b
  simp [pushBack, pushFront, h, get?_eq_some, or_comm]

theorem keys_pushFront (h : k ∉ t.keys) : (t.pushFront k a).keys = k :: t.keys := by
  simp [keys, pushFront, show k ∉ t.entries.map Prod.fst from h]

theorem keys_pushBack (h : k ∉ t.keys) : (t.pushBack k a).keys = t.keys ++ [k] := by
  simp [keys, pushBack, show k ∉ t.entries.map Prod.fst from h]

theorem keys_erase : (t.erase k).keys = t.keys.filter (· ≠ k) := by
  simp only [keys, erase, filterAt, List.filter_map, Function.comp_def]

theorem length_filter_erase {p : Nat × α → Bool} (h : t.get? k = some a) :
    ((t.erase k).entries.filter p).length + (if p (k, a) then 1 else 0) = (t.entries.filter p).length := by
  obtain ⟨before, after, he⟩ := List.append_of_mem (get?_eq_some.mp h)
  have nodup := t.nodup
  rw [he, List.map_append, List.map_cons, List.nodup_append] at nodup
  obtain ⟨_, nodup, apart⟩ := nodup
  have left : before.filter (fun e => e.1 ≠ k) = before :=
    List.filter_eq_self.mpr fun e hm => decide_eq_true (apart e.1 (List.mem_map_of_mem hm) k List.mem_cons_self)
  have right : after.filter (fun e => e.1 ≠ k) = after :=
    List.filter_eq_self.mpr fun e hm => decide_eq_true fun hk =>
      (List.nodup_cons.mp nodup).1 (List.mem_map.mpr ⟨e, hm, hk⟩)
  have rest : (t.erase k).entries = before ++ after := by
    change t.entries.filter (fun e => e.1 ≠ k) = before ++ after
    rw [he, List.filter_append, left, List.filter_cons_of_neg (by simp), right]
  rw [rest, he]
  cases hp : p (k, a) <;> simp [hp]
  omega

theorem find?_eq_some {p : α → Bool} (h : t.find? p = some k) : ∃ a, t.get? k = some a ∧ p a = true := by
  obtain ⟨⟨x, a⟩, he, rfl⟩ := Option.map_eq_some_iff.mp h
  exact ⟨a, get?_eq_some.mpr (List.mem_of_find?_eq_some he), by simpa using List.find?_some he⟩

theorem find?_eq_none {p : α → Bool} :
    t.find? p = none ↔ ∀ k a, t.get? k = some a → p a = false := by
  simp only [find?, Option.map_eq_none_iff, List.find?_eq_none, get?_eq_some, Bool.not_eq_true,
    Prod.forall]

theorem mapAt_congr {f g : Nat → α → α} (h : ∀ k a, t.get? k = some a → f k a = g k a) :
    t.mapAt f = t.mapAt g := by
  apply ext
  apply List.map_congr_left
  rintro ⟨x, a⟩ hm
  simp [h x a (get?_eq_some.mpr hm)]

theorem mapAt_eq_self {g : Nat → α → α} (h : ∀ k a, t.get? k = some a → g k a = a) :
    t.mapAt g = t :=
  (mapAt_congr h).trans (ext (by simp [mapAt]))

theorem modify_eq_mapAt {f : α → α} {g : Nat → α → α} (hk : ∀ a, t.get? k = some a → g k a = f a)
    (ho : ∀ k' a, t.get? k' = some a → k' ≠ k → g k' a = a) : t.modify k f = t.mapAt g := by
  refine mapAt_congr fun k' a ha => ?_
  by_cases he : k' = k
  · subst he; simp [hk a ha]
  · simp [he, ho k' a ha he]

theorem filterAt_congr {p q : Nat → α → Bool} (h : ∀ k a, t.get? k = some a → p k a = q k a) :
    t.filterAt p = t.filterAt q := by
  apply ext
  apply List.filter_congr
  rintro ⟨x, a⟩ hm
  exact h x a (get?_eq_some.mpr hm)

theorem filterAt_eq_self {p : Nat → α → Bool} (h : ∀ k a, t.get? k = some a → p k a = true) :
    t.filterAt p = t := by
  apply ext
  apply List.filter_eq_self.mpr
  rintro ⟨x, a⟩ hm
  exact h x a (get?_eq_some.mpr hm)

theorem filterAt_filterAt (p q : Nat → α → Bool) :
    (t.filterAt p).filterAt q = t.filterAt fun k a => p k a && q k a := by
  apply ext
  simp [filterAt, List.filter_filter, Bool.and_comm]

theorem mapAt_mapAt (f g : Nat → α → α) : (t.mapAt f).mapAt g = t.mapAt fun k a => g k (f k a) := by
  apply ext
  simp [mapAt, Function.comp_def]

theorem modify_pushBack (h : k ∉ t.keys) (f : α → α) : (t.pushBack k a).modify k f = t.pushBack k (f a) := by
  apply ext_get?
  · rw [keys_modify, keys_pushBack h, keys_pushBack h]
  · intro x
    simp only [get?_modify, get?_pushBack h]
    split <;> simp [*]

theorem erase_modify (f : α → α) : (t.modify k f).erase k = t.erase k := by
  apply ext_get?
  · rw [keys_erase, keys_erase, keys_modify]
  · intro x
    simp only [get?_erase, get?_modify]
    split <;> simp [*]

end Table

end Ripc

import Mathlib.Data.List.TakeWhile
import Mathlib.Data.List.Basic

namespace Ripc

/-- Length up to the terminator; `none` when the scan leaves the readable bytes. -/
def strlen : List UInt8 → Option Nat
  | [] => none
  | b :: bs => if b = 0 then some 0 else (strlen bs).map (· + 1)

/-- Whether `strcmp` returns zero; `none` when it leaves the readable bytes of a side. -/
def strcmpEq : List UInt8 → List UInt8 → Option Bool
  | a :: as, b :: bs =>
    if a ≠ b then some false else if a = 0 then some true else strcmpEq as bs
  | _, _ => none

/-- The characters of a buffer before its first terminator. -/
def cstr (raw : List UInt8) : List UInt8 := raw.takeWhile (· ≠ 0)

/-- A terminated string that fits a buffer of `size` bytes. -/
structure CString (size : Nat) where
  chars : List UInt8
  nonzero : 0 ∉ chars
  fits : chars.length < size
  deriving DecidableEq

namespace CString

variable {size : Nat}

@[ext] theorem ext {s t : CString size} (h : s.chars = t.chars) : s = t := by
  cases s; cases t; cases h; rfl

/-- The bytes of the buffer up to and including the terminator. -/
def bytes (s : CString size) : List UInt8 := s.chars ++ [0]

end CString

theorem zero_notMem_cstr (raw : List UInt8) : (0 : UInt8) ∉ cstr raw := by
  intro h
  simpa using List.mem_takeWhile_imp h

/-- `strscpy` into a buffer of `size` bytes: the characters are cut so that the terminator fits. -/
def strscpy (size : Nat) (h : 0 < size) (src : List UInt8) : CString size where
  chars := (cstr src).take (size - 1)
  nonzero := fun hm => zero_notMem_cstr src (List.mem_of_mem_take hm)
  fits := by rw [List.length_take]; omega

theorem strlen_eq_none {raw : List UInt8} : strlen raw = none ↔ (0 : UInt8) ∉ raw := by
  induction raw with
  | nil => simp [strlen]
  | cons b bs ih => by_cases h : b = 0 <;> simp [strlen, h, ih, Ne.symm]

theorem strlen_eq_some {raw : List UInt8} {n : Nat} (h : strlen raw = some n) :
    n = (cstr raw).length := by
  induction raw generalizing n with
  | nil => simp [strlen] at h
  | cons b bs ih =>
    by_cases hb : b = 0
    · simp [strlen, hb] at h
      simp [cstr, hb, h]
    · simp only [strlen, hb, if_false, Option.map_eq_some_iff] at h
      obtain ⟨m, hm, rfl⟩ := h
      simpa [cstr, hb] using ih hm

theorem strcmpEq_bytes {chars raw : List UInt8} (hz : 0 ∉ chars) (hl : chars.length < raw.length) :
    strcmpEq (chars ++ [0]) raw = some (decide (chars ++ [0] <+: raw)) := by
  induction chars generalizing raw with
  | nil =>
    obtain ⟨b, bs, rfl⟩ := List.exists_cons_of_length_pos hl
    by_cases hb : 0 = b <;> simp [strcmpEq, hb]
  | cons c cs ih =>
    obtain ⟨b, bs, rfl⟩ := List.exists_cons_of_length_pos (Nat.lt_of_le_of_lt (Nat.zero_le _) hl)
    have hc : c ≠ 0 := fun h => hz (by simp [h])
    by_cases hb : c = b
    · subst hb
      simp [strcmpEq, hc, ih (fun h => hz (by simp [h])) (by simpa using hl)]
    · simp [strcmpEq, hb]

theorem prefix_iff_cstr {chars raw : List UInt8} (hz : 0 ∉ chars) (ht : 0 ∈ raw) :
    chars ++ [0] <+: raw ↔ cstr raw = chars := by
  induction raw generalizing chars with
  | nil => simp at ht
  | cons b bs ih =>
    by_cases hb : b = 0
    · subst hb
      cases chars with
      | nil => simp [cstr]
      | cons c cs =>
        have hc : c ≠ 0 := fun h => hz (by simp [h])
        simp [cstr, hc]
    · have ht' : 0 ∈ bs := by simpa [hb, eq_comm] using ht
      cases chars with
      | nil => simp [cstr, hb, Ne.symm hb]
      | cons c cs =>
        have hz' : 0 ∉ cs := fun h => hz (by simp [h])
        have hh := ih hz' ht'
        simp only [cstr] at hh ⊢
        by_cases hc : c = b
        · simp [hc, hb, hh]
        · simp [hc, hb, Ne.symm hc]

theorem cstr_cons (b : UInt8) (bs : List UInt8) : cstr (b :: bs) = if b = 0 then [] else b :: cstr bs := by
  by_cases hb : b = 0 <;> simp [cstr, hb]

theorem cstr_append {raw rest : List UInt8} (h : 0 ∈ raw) : cstr (raw ++ rest) = cstr raw := by
  induction raw with
  | nil => cases h
  | cons b bs ih =>
    rw [List.cons_append, cstr_cons, cstr_cons]
    split
    next => rfl
    next hb => rw [ih ((List.mem_cons.mp h).resolve_left fun he => hb he.symm)]

theorem cstr_length_lt {raw : List UInt8} (h : 0 ∈ raw) : (cstr raw).length < raw.length := by
  induction raw with
  | nil => cases h
  | cons b bs ih =>
    rw [cstr_cons]
    split
    next => exact Nat.succ_pos _
    next hb => exact Nat.succ_lt_succ (ih ((List.mem_cons.mp h).resolve_left fun he => hb he.symm))

theorem strscpy_chars {size : Nat} {h : 0 < size} {raw rest : List UInt8} (hz : 0 ∈ raw)
    (hl : raw.length = size) : (strscpy size h (raw ++ rest)).chars = cstr raw := by
  have short := cstr_length_lt hz
  simp only [strscpy, cstr_append hz]
  exact List.take_of_length_le (by omega)

end Ripc

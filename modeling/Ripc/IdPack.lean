import Ripc.DriverSends

namespace Ripc

theorem packIds_valid {a b : Int} (ha : isIdValid a = true) (hb : isIdValid b = true) :
    packIds a b = BitVec.ofNat 32 (a.toNat * 65536 + b.toNat) := by
  obtain ⟨ha0, ha⟩ := isIdValid_iff.mp ha
  obtain ⟨hb0, hb⟩ := isIdValid_iff.mp hb
  simp only [maxIdValue] at ha hb
  lift a to Nat using ha0
  lift b to Nat using hb0
  have both : isIdValid (a : Int) = true ∧ isIdValid (b : Int) = true := by
    simp only [isIdValid_iff, maxIdValue]
    omega
  rw [packIds, if_pos both]
  apply BitVec.eq_of_toNat_eq
  have low : b % 65536 = b := Nat.mod_eq_of_lt (by omega)
  have high : a * 65536 + b = a <<< 16 ||| b := by
    rw [← Nat.shiftLeft_add_eq_or_of_lt (by omega : b < 2 ^ 16), Nat.shiftLeft_eq]
  simp only [BitVec.toNat_or, BitVec.toNat_shiftLeft, BitVec.toNat_and, BitVec.ofInt_natCast,
    BitVec.toNat_ofNat, Int.toNat_natCast]
  rw [Nat.mod_eq_of_lt (by omega : a * 65536 + b < 2 ^ 32), high]
  have : b % 2 ^ 32 &&& 65535 % 2 ^ 32 = b := by
    rw [Nat.mod_eq_of_lt (by omega : b < 2 ^ 32)]
    exact (Nat.and_two_pow_sub_one_eq_mod b 16).trans low
  rw [this, Nat.mod_eq_of_lt (by omega : a < 2 ^ 32), Nat.shiftLeft_eq,
    Nat.mod_eq_of_lt (by omega : a * 2 ^ 16 < 2 ^ 32)]

theorem unpackId1_packIds {a b : Int} (ha : isIdValid a = true) (hb : isIdValid b = true) :
    unpackId1 (packIds a b) = a := by
  obtain ⟨ha0, ha'⟩ := isIdValid_iff.mp ha
  obtain ⟨hb0, hb'⟩ := isIdValid_iff.mp hb
  simp only [maxIdValue] at ha' hb'
  rw [packIds_valid ha hb, unpackId1, BitVec.toNat_ushiftRight, BitVec.toNat_ofNat, Nat.shiftRight_eq_div_pow]
  omega

theorem unpackId2_packIds {a b : Int} (ha : isIdValid a = true) (hb : isIdValid b = true) :
    unpackId2 (packIds a b) = b := by
  obtain ⟨ha0, ha'⟩ := isIdValid_iff.mp ha
  obtain ⟨hb0, hb'⟩ := isIdValid_iff.mp hb
  simp only [maxIdValue] at ha' hb'
  have low : (a.toNat * 65536 + b.toNat) &&& 65535 = b.toNat := by
    rw [show 65535 = 2 ^ 16 - 1 from rfl, Nat.and_two_pow_sub_one_eq_mod]
    omega
  rw [packIds_valid ha hb, unpackId2, BitVec.toNat_and, BitVec.toNat_ofNat,
    Nat.mod_eq_of_lt (by omega : a.toNat * 65536 + b.toNat < 2 ^ 32), BitVec.toNat_ofNat]
  rw [show 65535 % 2 ^ 32 = 65535 from rfl, low]
  omega

theorem packIds_invalid {a b : Int} (h : ¬(isIdValid a = true ∧ isIdValid b = true)) : packIds a b = packError :=
  if_neg h

theorem packIds_eq_packError {a b : Int} (ha : isIdValid a = true) (hb : isIdValid b = true) :
    packIds a b = packError ↔ a = 65535 ∧ b = 65514 := by
  obtain ⟨ha0, ha'⟩ := isIdValid_iff.mp ha
  obtain ⟨hb0, hb'⟩ := isIdValid_iff.mp hb
  simp only [maxIdValue] at ha' hb'
  rw [packIds_valid ha hb]
  constructor
  · intro h
    have values := congrArg BitVec.toNat h
    rw [BitVec.toNat_ofNat, show packError.toNat = 4294967274 from rfl] at values
    omega
  · rintro ⟨rfl, rfl⟩
    rfl

theorem packIds_ne_packError {a : Int} (ha : isIdValid a = true) : packIds a 0 ≠ packError := by
  intro h
  have low := ((packIds_eq_packError ha rfl).mp h).2
  omega

end Ripc

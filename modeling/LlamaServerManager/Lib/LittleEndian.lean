import Mathlib.Data.Nat.Digits.Lemmas

/-!
Numbers as bytes, the least significant first.
-/

namespace LlamaServerManager.Lib.LittleEndian

/-- The number of some bytes. -/
def number (bytes : List UInt8) : Nat := Nat.ofDigits 256 (bytes.map UInt8.toNat)

/-- So many bytes of a number. -/
def bytes : Nat → Nat → List UInt8
  | 0, _ => []
  | width + 1, n => UInt8.ofNat n :: bytes width (n / 256)

@[simp] theorem number_nil : number [] = 0 := rfl

@[simp] theorem number_cons (byte : UInt8) (rest : List UInt8) :
    number (byte :: rest) = byte.toNat + 256 * number rest :=
  Nat.ofDigits_cons ..

@[simp] theorem length_bytes (width n : Nat) : (bytes width n).length = width := by
  induction width generalizing n with
  | zero => rfl
  | succ width ih => simp [bytes, ih]

theorem number_lt (code : List UInt8) : number code < 256 ^ code.length := by
  rw [← List.length_map UInt8.toNat]
  refine Nat.ofDigits_lt_base_pow_length (by omega) fun digit mem => ?_
  obtain ⟨byte, -, rfl⟩ := List.mem_map.mp mem
  exact byte.toNat_lt

theorem number_bytes {width n : Nat} (fits : n < 256 ^ width) : number (bytes width n) = n := by
  induction width generalizing n with
  | zero =>
    simp only [Nat.pow_zero] at fits
    simp only [bytes, number_nil]
    omega
  | succ width ih =>
    rw [Nat.pow_succ] at fits
    have byte : (UInt8.ofNat n).toNat = n % 256 := UInt8.toNat_ofNat'
    rw [bytes, number_cons, ih (by omega), byte]
    omega

theorem bytes_number (code : List UInt8) : bytes code.length (number code) = code := by
  induction code with
  | nil => rfl
  | cons byte rest ih =>
    have small := byte.toNat_lt
    rw [List.length_cons, number_cons, bytes]
    have low : UInt8.ofNat (byte.toNat + 256 * number rest) = byte := by
      apply UInt8.toNat_inj.mp
      rw [UInt8.toNat_ofNat']
      omega
    have high : (byte.toNat + 256 * number rest) / 256 = number rest := by omega
    rw [low, high, ih]

/-- The bytes of a number are the only ones of their length that it is the number of. -/
theorem eq_bytes_iff {width n : Nat} (fits : n < 256 ^ width) {code : List UInt8} :
    code = bytes width n ↔ code.length = width ∧ number code = n := by
  constructor
  · rintro rfl
    exact ⟨length_bytes width n, number_bytes fits⟩
  · rintro ⟨rfl, rfl⟩
    exact (bytes_number code).symm

end LlamaServerManager.Lib.LittleEndian

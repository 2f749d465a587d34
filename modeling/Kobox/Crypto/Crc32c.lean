import Mathlib.Data.Nat.Bitwise
import Mathlib.Logic.Function.Iterate
import Mathlib.Tactic

/-! The two CRC-32C update paths of the crypto stubs: one bit at a time, and eight bytes at a time with the `crc32` instructions. -/

namespace Kobox.Crypto

open BitVec Function

/-! ### Reflected division -/

/-- One step of division by the reflected polynomial: the lowest bit is the leading coefficient. -/
def divStep (x : ℕ) : ℕ := x/2 ^^^ if x.testBit 0 then 0x82F63B78 else 0

theorem divStep_xor (a b : ℕ) : divStep (a ^^^ b)=divStep a ^^^ divStep b := by
  apply Nat.eq_of_testBit_eq
  intro i
  simp only [divStep, Nat.testBit_xor, Nat.testBit_div_two]
  cases a.testBit 0 <;> cases b.testBit 0 <;> simp <;> grind

theorem divSteps_xor (n a b : ℕ) :
    divStep^[n] (a ^^^ b)=divStep^[n] a ^^^ divStep^[n] b := by
  induction n generalizing a b with
  | zero => rfl
  | succ n ih => simp only [iterate_succ_apply, divStep_xor, ih]

/-- Zero low bits are only shifted out. -/
theorem divSteps_shift (n a : ℕ) : divStep^[n] (a <<< n)=a := by
  induction n with
  | zero => rfl
  | succ n ih =>
    have hstep : divStep (a <<< (n+1))=a <<< n := by
      simp [divStep, Nat.shiftLeft_succ]
    rw [iterate_succ_apply, hstep, ih]

/-! ### The crc32 instructions -/

/-- MOD2 in the description of the instruction: long division of an `n+32`-bit value by 11EDC6F41H, one leading bit at a time. -/
def mod2 : (n : ℕ) → BitVec (n+32) → BitVec 32
  | 0, x => x.setWidth 32
  | n+1, x =>
    mod2 n ((if x.msb then x ^^^ (0x11EDC6F41#(n+1+32) <<< n) else x).setWidth (n+32))

/-- The instruction for a source of `w` bits: both operands are bit-reflected, aligned and added, and the reflected remainder is the new destination. -/
def crc32 {w : ℕ} (dest : BitVec 32) (src : BitVec w) : BitVec 32 :=
  let temp1 := src.reverse
  let temp2 := dest.reverse
  let temp3 := temp1.setWidth (w+32) <<< 32
  let temp4 := temp2.setWidth (w+32) <<< w
  (mod2 w (temp3 ^^^ temp4)).reverse

theorem polynomial_high {i : ℕ} (hi : ¬ i<32) : (0x82F63B78 : ℕ).testBit i=false := by
  apply Nat.testBit_lt_two_pow
  calc (0x82F63B78 : ℕ)<2^32 := by decide
    _ ≤ 2^i := Nat.pow_le_pow_right (by decide) (Nat.le_of_not_lt hi)

/-- The reflection of the polynomial, one place below the leading bit. -/
theorem polynomial_bit (n i : ℕ) (hi : i<n+32) :
    (0x11EDC6F41#(n+1+32) <<< n).getLsbD (n+31-i)=(0x82F63B78 : ℕ).testBit i := by
  have hreflected : ∀ i<32, (0x11EDC6F41 : ℕ).testBit (31-i)=(0x82F63B78 : ℕ).testBit i := by decide
  simp only [getLsbD_shiftLeft, getLsbD_ofNat]
  by_cases hlow : i<32
  · have hindex : n+31-i-n=31-i := by omega
    rw [hindex, hreflected i hlow]
    simp [show n+31-i<n+1+32 by omega, show ¬ n+31-i<n by omega, show 31-i<n+1+32 by omega]
  · simp [polynomial_high hlow, show n+31-i<n by omega]

theorem mod2_reverse (n : ℕ) (x : BitVec (n+32)) :
    (mod2 n x).reverse.toNat=divStep^[n] x.reverse.toNat := by
  induction n with
  | zero => simp [mod2]
  | succ n ih =>
    rw [mod2, ih, iterate_succ_apply]
    congr 1
    apply Nat.eq_of_testBit_eq
    intro i
    -- the leading bit of the value is the lowest of its reflection
    simp only [divStep, apply_ite (Nat.testBit · i), Nat.testBit_xor, Nat.testBit_div_two,
      testBit_toNat, getLsbD_reverse, getMsbD_eq_getLsbD, getLsbD_setWidth, msb_eq_getLsbD_last]
    by_cases hi : i<n+32
    · have hindex : n+1+32-1-(i+1)=n+31-i := by omega
      rw [hindex, ← polynomial_bit n i hi]
      cases x.getLsbD (n+1+32-1) <;>
        simp [hi, show n+31-i<n+32 by omega, -getLsbD_shiftLeft]
    · simp [hi, polynomial_high (show ¬ i<32 by omega)]

/-- An operand shifted to the top of the dividend is itself after reflection. -/
theorem aligned_bit {v m k : ℕ} (x : BitVec v) (hm : m=v+k) (i : ℕ) :
    (x.reverse.setWidth m <<< k).getMsbD i=x.getLsbD i := by
  simp only [getMsbD_eq_getLsbD, getLsbD_shiftLeft, getLsbD_setWidth, getLsbD_reverse]
  by_cases hi : i<v
  · have hindex : v-1-(m-1-i-k)=i := by omega
    simp [hindex, show i < m by omega, show m-1-i < m by omega, show k ≤ m-1-i by omega,
      show m-1-i-k < m by omega, show m-1-i-k<v by omega]
  · rw [getLsbD_of_ge x i (Nat.le_of_not_lt hi)]
    simp only [Bool.and_eq_false_iff, decide_eq_false_iff_not, Bool.not_eq_false', decide_eq_true_eq]
    omega

theorem crc32_toNat {w : ℕ} (dest : BitVec 32) (src : BitVec w) :
    (crc32 dest src).toNat=divStep^[w] (dest.toNat ^^^ src.toNat) := by
  rw [crc32, mod2_reverse]
  congr 1
  apply Nat.eq_of_testBit_eq
  intro i
  simp only [testBit_toNat, getLsbD_reverse, getMsbD_xor, Nat.testBit_xor,
    aligned_bit src rfl, aligned_bit dest (Nat.add_comm w 32), Bool.xor_comm]

/-! ### The software path -/

variable (crc : BitVec 32) (data : List (BitVec 8))

def bitStep : BitVec 32 :=
  let mask := 0#32-(crc &&& 1#32)
  (crc >>> 1) ^^^ (0x82f63b78#32 &&& mask)

def byteStep (byte : BitVec 8) : BitVec 32 :=
  bitStep^[8] (crc ^^^ byte.setWidth 32)

def crc32cUpdateSoftware : BitVec 32 := data.foldl byteStep crc

theorem bitStep_toNat : (bitStep crc).toNat=divStep crc.toNat := by
  have hmask : 0#32-(crc &&& 1#32)=if crc.getLsbD 0 then allOnes 32 else 0#32 := by
    rw [and_one_eq_setWidth_ofBool_getLsbD]
    cases crc.getLsbD 0 <;> rfl
  simp only [bitStep, hmask, divStep, testBit_toNat]
  split <;> simp [Nat.shiftRight_one]

theorem bitSteps_toNat (n : ℕ) :
    (bitStep^[n] crc).toNat=divStep^[n] crc.toNat := by
  induction n generalizing crc with
  | zero => rfl
  | succ n ih => rw [iterate_succ_apply, ih, bitStep_toNat, iterate_succ_apply]

theorem byteStep_toNat (byte : BitVec 8) :
    (byteStep crc byte).toNat=divStep^[8] (crc.toNat ^^^ byte.toNat) := by
  rw [byteStep, bitSteps_toNat, toNat_xor, toNat_setWidth_of_le (by decide)]

/-- The bytes of a buffer as one little-endian number. -/
def leValue : List (BitVec 8) → ℕ
  | [] => 0
  | byte::data => leValue data <<< 8 ||| byte.toNat

theorem or_byte (n : ℕ) (byte : BitVec 8) : n <<< 8 ||| byte.toNat=byte.toNat ^^^ n <<< 8 := by
  apply Nat.eq_of_testBit_eq
  intro i
  simp only [Nat.testBit_or, Nat.testBit_xor, Nat.testBit_shiftLeft, testBit_toNat]
  by_cases hi : i<8
  · simp [Nat.not_le.mpr hi]
  · simp [getLsbD_of_ge byte i (Nat.le_of_not_lt hi)]

/-- All bytes of a buffer divided out at once. -/
theorem crc32cUpdateSoftware_toNat :
    (crc32cUpdateSoftware crc data).toNat=
      divStep^[8*data.length] (crc.toNat ^^^ leValue data) := by
  induction data generalizing crc with
  | nil => simp [crc32cUpdateSoftware, leValue]
  | cons byte data ih =>
    rw [crc32cUpdateSoftware, List.foldl_cons, ← crc32cUpdateSoftware, ih, byteStep_toNat, leValue,
      or_byte, ← Nat.xor_assoc, List.length_cons, Nat.mul_succ, iterate_add_apply,
      divSteps_xor 8 (_ ^^^ _) (_ <<< _), divSteps_shift]

/-! ### The hardware path -/

def crc32q (dest src : BitVec 64) : BitVec 64 := (crc32 (dest.setWidth 32) src).setWidth 64

/-- The loop over whole words, each read in little-endian order by `memcpy`, so that the alignment does not matter. -/
def updateWords (accumulator : BitVec 64) : List (BitVec 8) → BitVec 64 × List (BitVec 8)
  | b0::b1::b2::b3::b4::b5::b6::b7::data =>
    updateWords (crc32q accumulator (b7 ++ b6 ++ b5 ++ b4 ++ b3 ++ b2 ++ b1 ++ b0)) data
  | data => (accumulator, data)

def crc32cUpdateHardware : BitVec 32 :=
  let (accumulator, tail) := updateWords (crc.setWidth 64) data
  tail.foldl crc32 (accumulator.setWidth 32)

def crc32cUpdate (hardwareAvailable : Bool) : BitVec 32 :=
  if hardwareAvailable then crc32cUpdateHardware crc data else crc32cUpdateSoftware crc data

theorem crc32q_software (accumulator : BitVec 64) (b0 b1 b2 b3 b4 b5 b6 b7 : BitVec 8) :
    (crc32q accumulator (b7 ++ b6 ++ b5 ++ b4 ++ b3 ++ b2 ++ b1 ++ b0)).setWidth 32=
      crc32cUpdateSoftware (accumulator.setWidth 32) [b0, b1, b2, b3, b4, b5, b6, b7] := by
  apply eq_of_toNat_eq
  have hword : (b7 ++ b6 ++ b5 ++ b4 ++ b3 ++ b2 ++ b1 ++ b0).toNat=
      leValue [b0, b1, b2, b3, b4, b5, b6, b7] := by
    simp only [leValue, toNat_append, Nat.zero_shiftLeft, Nat.zero_or]
  rw [crc32cUpdateSoftware_toNat, crc32q, setWidth_setWidth_of_le _ (by decide),
    setWidth_eq, crc32_toNat, hword]
  rfl

theorem hardware_eq_software : crc32cUpdateHardware crc data=crc32cUpdateSoftware crc data := by
  have hloop : ∀ accumulator : BitVec 64,
      (updateWords accumulator data).2.foldl crc32 ((updateWords accumulator data).1.setWidth 32)=
        crc32cUpdateSoftware (accumulator.setWidth 32) data := by
    intro accumulator
    fun_induction updateWords accumulator data with
    | case1 accumulator b0 b1 b2 b3 b4 b5 b6 b7 data ih =>
      rw [ih, crc32q_software]
      rfl
    | case2 accumulator data =>
      have hbytes : crc32 (w := 8)=byteStep := by
        funext crc byte
        exact eq_of_toNat_eq ((crc32_toNat crc byte).trans (byteStep_toNat crc byte).symm)
      rw [hbytes, crc32cUpdateSoftware]
  simpa [crc32cUpdateHardware] using hloop (crc.setWidth 64)

/-- Both paths give the same value, and updating in two pieces is updating once. -/
theorem crc32c_agree (first second : List (BitVec 8)) (available : Bool) :
    crc32cUpdateHardware crc first=crc32cUpdateSoftware crc first ∧
    crc32cUpdate crc first available=crc32cUpdateSoftware crc first ∧
    crc32cUpdateSoftware (crc32cUpdateSoftware crc first) second=
      crc32cUpdateSoftware crc (first ++ second) ∧
    crc32cUpdateHardware (crc32cUpdateHardware crc first) second=
      crc32cUpdateHardware crc (first ++ second) := by
  simp only [crc32cUpdate, hardware_eq_software, ite_self, true_and]
  simp [crc32cUpdateSoftware]

/-! ### Errors -/

/-- The polynomial has its top bit, so that a remainder never vanishes. -/
theorem divSteps_eq_zero (n : ℕ) {x : ℕ} (hx : x<2^32) : divStep^[n] x=0 ↔ x=0 := by
  induction n generalizing x with
  | zero => rfl
  | succ n ih =>
    have hstep : divStep x<2^32 := by
      apply Nat.xor_lt_two_pow
      · omega
      · split <;> decide
    rw [iterate_succ_apply, ih hstep]
    simp only [divStep, Nat.xor_eq_zero_iff, Nat.testBit_zero, decide_eq_true_eq]
    split <;> omega

/-- An error within 32 consecutive bits is found, on either path. -/
theorem crc32c_burst_detected (first second : List (BitVec 8)) (error : BitVec 32) (offset : ℕ)
    (herror : leValue first ^^^ leValue second=error.toNat <<< offset)
    (hlength : first.length=second.length) (available : Bool) :
    crc32cUpdate crc first available=crc32cUpdate crc second available ↔ error=0#32 := by
  simp only [crc32cUpdate, hardware_eq_software, ite_self]
  rw [← toNat_inj, crc32cUpdateSoftware_toNat, crc32cUpdateSoftware_toNat, ← hlength,
    ← Nat.xor_eq_zero_iff, ← divSteps_xor, Nat.xor_comm crc.toNat, Nat.xor_assoc,
    Nat.xor_xor_cancel_left, herror, ← toNat_inj]
  -- the bits before the error are only shifted out; behind it the steps go on
  rcases Nat.le_total offset (8*first.length) with hinside|hbehind
  · rw [← Nat.sub_add_cancel hinside, iterate_add_apply, divSteps_shift,
      divSteps_eq_zero _ error.isLt]
    rfl
  · rw [← Nat.sub_add_cancel hbehind, Nat.shiftLeft_add, divSteps_shift]
    simp

theorem crc32c_burst_detected_two :
    crc32cUpdate 5#32 [1#8, 0x80#8] true≠crc32cUpdate 5#32 [1#8, 0x7f#8] true := by
  have herror : leValue [1#8, 0x80#8] ^^^ leValue [1#8, 0x7f#8]=(0xff#32).toNat <<< 8 := by
    simp [leValue]
  simp [crc32c_burst_detected 5#32 _ _ 0xff#32 8 herror rfl]

end Kobox.Crypto

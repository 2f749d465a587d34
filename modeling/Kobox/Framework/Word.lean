import Mathlib.Data.Nat.Bitwise
import Mathlib.Tactic

namespace Kobox

def wordSize : Nat := 2^64

def wordNot (m : Nat) : Nat := wordSize-1-m

/-- Rounding a word up by a mask, with the carry out of bit 63 dropped. -/
def maskUp (v m : Nat) : Nat := (v+m)%wordSize &&& wordNot m

/-- The same rounding on unbounded numbers: clear the mask bits of v+m. -/
def maskUpNat (v m : Nat) : Nat := (v+m)-((v+m) &&& m)

theorem wordSize_pos : 0<wordSize := by decide

variable (v m : Nat)

private theorem wordNot_testBit (i : Nat) (hm : m<wordSize) :
    (wordNot m).testBit i=(decide (i<64) && !m.testBit i) := by
  have h := Nat.testBit_two_pow_sub_succ (x := m) (n := 64) hm i
  unfold wordNot wordSize
  rw [← h]
  congr 1
  omega

private theorem add_eq_or (a b : Nat) (h : a &&& b=0) : a+b=a ||| b := by
  induction a using Nat.strong_induction_on generalizing b with
  | _ a ih =>
    by_cases ha : a=0
    · simp [ha]
    have hd : a/2 &&& b/2=0 := by rw [← Nat.and_div_two,h]
    have hq := ih (a/2) (by omega) (b/2) hd
    have hr : (a ||| b)/2=a/2 ||| b/2 := Nat.or_div_two
    have hl : (a ||| b)%2=a%2+b%2 := by
      have hm : ¬(a%2=1 ∧ b%2=1) := by rw [← Nat.and_mod_two_eq_one,h]; decide
      have ho : (a ||| b)%2=1 ↔ a%2=1 ∨ b%2=1 := Nat.or_mod_two_eq_one
      omega
    omega

theorem and_add_and_wordNot {x m : Nat} (hx : x<wordSize) (hm : m<wordSize) :
    (x &&& m)+(x &&& wordNot m)=x := by
  have hd : (x &&& m) &&& (x &&& wordNot m)=0 := by
    apply Nat.eq_of_testBit_eq
    intro i
    simp only [Nat.testBit_and,wordNot_testBit m i hm,Nat.zero_testBit]
    cases x.testBit i <;> cases m.testBit i <;> simp
  have ho : (x &&& m) ||| (x &&& wordNot m)=x := by
    apply Nat.eq_of_testBit_eq
    intro i
    simp only [Nat.testBit_or,Nat.testBit_and,wordNot_testBit m i hm]
    by_cases hi : i<64
    · cases x.testBit i <;> cases m.testBit i <;> simp [hi]
    · have hb : x.testBit i=false := by
        apply Nat.testBit_eq_false_of_lt
        exact lt_of_lt_of_le hx (Nat.pow_le_pow_right (by decide) (by omega))
      simp [hb]
  rw [add_eq_or _ _ hd]
  exact ho

theorem and_wordNot (x m : Nat) (hx : x<wordSize) (hm : m<wordSize) :
    x &&& wordNot m=x-(x &&& m) := by
  have h := and_add_and_wordNot hx hm
  omega

theorem maskUp_eq (h : v+m<wordSize) : maskUp v m=maskUpNat v m := by
  unfold maskUp maskUpNat
  rw [Nat.mod_eq_of_lt h,and_wordNot (v+m) m h (by omega)]

theorem le_maskUpNat : v ≤ maskUpNat v m := by
  have h : (v+m) &&& m ≤ m := Nat.and_le_right
  unfold maskUpNat
  omega

theorem maskUpNat_le : maskUpNat v m≤v+m := Nat.sub_le _ _

theorem wordSize_le_maskUpNat (hm : m<wordSize) (h : wordSize≤v+m) : wordSize ≤ maskUpNat v m := by
  have hq : ((v+m) &&& m)≤(v+m)%wordSize := by
    have he : (v+m) &&& m=((v+m)%wordSize) &&& m := by
      apply Nat.eq_of_testBit_eq
      intro i
      simp only [Nat.testBit_and,wordSize,Nat.testBit_mod_two_pow]
      by_cases hi : i<64
      · simp [hi]
      · have hb : m.testBit i=false := by
          apply Nat.testBit_eq_false_of_lt
          exact lt_of_lt_of_le hm (Nat.pow_le_pow_right (by decide) (by omega))
        simp [hb]
    rw [he]
    exact Nat.and_le_left
  have hdm := Nat.div_add_mod (v+m) wordSize
  have hpos : 0<(v+m)/wordSize := Nat.div_pos h wordSize_pos
  have hmul : wordSize≤wordSize*((v+m)/wordSize) := Nat.le_mul_of_pos_right _ hpos
  unfold maskUpNat
  omega

theorem maskUp_eq_of_lt (hm : m<wordSize) (h : maskUpNat v m<wordSize) :
    maskUp v m=maskUpNat v m := by
  apply maskUp_eq
  by_contra hc
  have := wordSize_le_maskUpNat v m hm (by omega)
  omega

theorem maskUpNat_two_pow (k : Nat) : maskUpNat v (2^k-1)=(v+(2^k-1))/2^k*2^k := by
  unfold maskUpNat
  rw [Nat.and_two_pow_sub_one_eq_mod]
  have h := Nat.div_add_mod (v+(2^k-1)) (2^k)
  rw [Nat.mul_comm] at h
  omega

end Kobox

import Mathlib.Logic.Function.Iterate
import Mathlib.Tactic.Common

namespace Serialmux.Framework

variable {w : Nat} (poly : BitVec w)

/-- One shift of the register of a reflected CRC. -/
def crcShift (c : BitVec w) : BitVec w := if c.getLsbD 0 then poly^^^(c>>>1) else c>>>1

/-- A shift is linear: the polynomial comes in for one of two low bits, not for both. -/
theorem crcShift_xor (x y : BitVec w) : crcShift poly (x^^^y)=crcShift poly x^^^crcShift poly y := by
  have hshift := BitVec.ushiftRight_xor_distrib x y 1
  have hcancel : poly^^^(x>>>1)^^^(poly^^^(y>>>1))=x>>>1^^^y>>>1 := by
    rw [BitVec.xor_comm poly (x>>>1),BitVec.xor_assoc,← BitVec.xor_assoc poly,BitVec.xor_self,
      BitVec.zero_xor]
  unfold crcShift
  rw [BitVec.getLsbD_xor,hshift]
  cases hx : x.getLsbD 0 <;> cases hy : y.getLsbD 0
  · rfl
  · simp only [Bool.false_bne,if_true,if_false,Bool.false_eq_true]
    rw [← BitVec.xor_assoc,BitVec.xor_comm poly,BitVec.xor_assoc]
  · simp only [Bool.bne_false,if_true,if_false,Bool.false_eq_true]
    rw [BitVec.xor_assoc]
  · simpa using hcancel.symm

theorem iterate_crcShift_xor (n : Nat) (x y : BitVec w) :
    (crcShift poly)^[n] (x^^^y)=(crcShift poly)^[n] x^^^(crcShift poly)^[n] y := by
  induction n generalizing x y with
  | zero => rfl
  | succ n ih => rw [Function.iterate_succ_apply,crcShift_xor,ih]; rfl

/-- The polynomial does not come in while the low bits are clear. -/
theorem iterate_crcShift_of_low (n : Nat) {x : BitVec w} (h : ∀i<n,x.getLsbD i=false) :
    (crcShift poly)^[n] x=x>>>n := by
  induction n generalizing x with
  | zero => rfl
  | succ n ih =>
    have hstep : crcShift poly x=x>>>1 := by rw [crcShift,h 0 n.succ_pos]; rfl
    have hlow (i : Nat) (hi : i<n) : (x>>>1).getLsbD i=false := by
      rw [BitVec.getLsbD_ushiftRight]
      exact h (1+i) (by omega)
    rw [Function.iterate_succ_apply,hstep,ih hlow,← BitVec.shiftRight_add,Nat.add_comm]

/-- The rule for tables: n shifts of a register are those of its low n bits, which a table can hold,
and the rest of it moved down. -/
theorem iterate_crcShift_split (n : Nat) (x : BitVec w) :
    (crcShift poly)^[n] x=(crcShift poly)^[n] ((x.setWidth n).setWidth w)^^^(x>>>n) := by
  have hsplit : x=(x.setWidth n).setWidth w^^^((x.setWidth n).setWidth w^^^x) := by
    rw [← BitVec.xor_assoc,BitVec.xor_self,BitVec.zero_xor]
  have hlow (i : Nat) (hi : i<n) : ((x.setWidth n).setWidth w^^^x).getLsbD i=false := by
    rcases Nat.lt_or_ge i w with hw|hw
    · simp [hi,hw]
    · rw [BitVec.getLsbD_of_ge _ _ hw]
  have hrest : ((x.setWidth n).setWidth w^^^x)>>>n=x>>>n := by
    rw [BitVec.ushiftRight_xor_distrib]
    apply BitVec.eq_of_getLsbD_eq
    intro i _
    simp
  conv => lhs; rw [hsplit]
  rw [iterate_crcShift_xor,iterate_crcShift_of_low poly n hlow,hrest]

end Serialmux.Framework

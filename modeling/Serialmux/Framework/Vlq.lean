import Mathlib.Data.List.Basic
import Mathlib.Tactic.Common
import Mathlib.Tactic.Ring

namespace Serialmux.Framework

/-- The low `k+1` groups of seven bits of a number, highest first. All bytes but the last have their
top bit set. -/
def vlqGroups : Nat → Nat → List UInt8
  | 0,n => [UInt8.ofNat (n%128)]
  | k+1,n => UInt8.ofNat (128+n/128^(k+1)%128)::vlqGroups k n

/-- How many groups of a 32-bit number precede the last. Those left out are all zeros or, as the
first one sent then tells, all ones. -/
def vlqSize (n : Nat) : Nat :=
  if n<3*2^5 ∨ 2^32-2^5 ≤ n then 0
  else if n<3*2^12 ∨ 2^32-2^12 ≤ n then 1
  else if n<3*2^19 ∨ 2^32-2^19 ≤ n then 2
  else if n<3*2^26 ∨ 2^32-2^26 ≤ n then 3
  else 4

/-- A 32-bit number as a quantity of variable length. -/
def vlqWrite (n : Nat) : List UInt8 := vlqGroups (vlqSize n) n

/-- Shifts groups into a number until one is the last. -/
def vlqTail : Nat → List UInt8 → Option (Nat × List UInt8)
  | _,[] => none
  | v,b::bs =>
    let v := (v*128+b.toNat%128)%2^32
    if b.toNat<128 then some (v,bs) else vlqTail v bs

/-- The number that a first group stands for: its two top bits are a sign. -/
def vlqSign (v : Nat) : Nat := if 96 ≤ v then 2^32-128+v else v

def vlqRead : List UInt8 → Option (Nat × List UInt8)
  | [] => none
  | b::bs =>
    let v := vlqSign (b.toNat%128)
    if b.toNat<128 then some (v,bs) else vlqTail v bs

theorem vlqTail_groups (k n v : Nat) (rest : List UInt8) :
    vlqTail v (vlqGroups k n++rest)=some ((v*128^(k+1)+n%128^(k+1))%2^32,rest) := by
  induction k generalizing v with
  | zero =>
    have hb : (UInt8.ofNat (n%128)).toNat=n%128 := by
      rw [UInt8.toNat_ofNat']
      omega
    rw [vlqGroups,List.cons_append,List.nil_append,vlqTail,hb,if_pos (Nat.mod_lt _ (by decide)),
      Nat.mod_mod,Nat.zero_add,Nat.pow_one]
  | succ k ih =>
    have hb : (UInt8.ofNat (128+n/128^(k+1)%128)).toNat=128+n/128^(k+1)%128 := by
      rw [UInt8.toNat_ofNat']
      omega
    have hgroup : (128+n/128^(k+1)%128)%128=n/128^(k+1)%128 := by omega
    have hval : (v*128+n/128^(k+1)%128)*128^(k+1)+n%128^(k+1)=v*128^(k+1+1)+n%128^(k+1+1) := by
      have hsplit : n%128^(k+1+1)=n%128^(k+1)+128^(k+1)*(n/128^(k+1)%128) := by
        rw [Nat.pow_succ,Nat.mod_mul]
      rw [hsplit]
      ring
    rw [vlqGroups,List.cons_append,vlqTail,hb,hgroup,if_neg (by omega),ih,← hval,Nat.add_mod,
      Nat.mod_mul_mod,← Nat.add_mod]

/-- Reading is the inverse of writing. -/
theorem vlqRead_write {n : Nat} (h : n<2^32) (rest : List UInt8) :
    vlqRead (vlqWrite n++rest)=some (n,rest) := by
  have hfirst (k : Nat) : vlqRead (vlqGroups (k+1) n++rest)=
      some ((vlqSign (n/128^(k+1)%128)*128^(k+1)+n%128^(k+1))%2^32,rest) := by
    have hb : (UInt8.ofNat (128+n/128^(k+1)%128)).toNat=128+n/128^(k+1)%128 := by
      rw [UInt8.toNat_ofNat']
      omega
    have hgroup : (128+n/128^(k+1)%128)%128=n/128^(k+1)%128 := by omega
    rw [vlqGroups,List.cons_append,vlqRead,hb,hgroup,if_neg (by omega),vlqTail_groups]
  unfold vlqWrite vlqSize
  split_ifs with h1 h2 h3 h4
  · have hb : (UInt8.ofNat (n%128)).toNat=n%128 := by
      rw [UInt8.toNat_ofNat']
      omega
    have hsign : vlqSign (n%128)=n := by
      unfold vlqSign
      split_ifs <;> omega
    rw [vlqGroups,List.cons_append,List.nil_append,vlqRead,hb,Nat.mod_mod,hsign,
      if_pos (Nat.mod_lt _ (by decide))]
  all_goals
    rw [hfirst]
    simp only [vlqSign,Nat.reducePow,Nat.reduceAdd,Option.some.injEq,Prod.mk.injEq,and_true]
    split_ifs <;> omega

end Serialmux.Framework

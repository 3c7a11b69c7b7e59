import Mathlib.Algebra.GroupWithZero.Nat
import Mathlib.Data.Fin.Basic
import Mathlib.Tactic.Common

namespace Serialmux.Framework

variable {n : Nat} [NeZero n]

/-- How far a slot of a ring lies ahead of a cursor. -/
def ahead (cursor : Nat) (k : Fin n) : Nat := (k.val+n-cursor%n)%n

/-- The slot that lies so far ahead of the cursor. -/
def place (cursor i : Nat) : Fin n := Fin.ofNat n (cursor+i)

theorem ahead_lt (cursor : Nat) (k : Fin n) : ahead cursor k<n := Nat.mod_lt _ (Nat.pos_of_neZero n)

theorem ahead_eq (cursor : Nat) (k : Fin n) :
    ahead cursor k=if cursor%n ≤ k.val then k.val-cursor%n else k.val+n-cursor%n := by
  have hk := k.isLt
  have hc := Nat.mod_lt cursor (Nat.pos_of_neZero n)
  unfold ahead
  split_ifs with h
  · rw [show k.val+n-cursor%n=k.val-cursor%n+n by omega,Nat.add_mod_right,Nat.mod_eq_of_lt (by omega)]
  · exact Nat.mod_eq_of_lt (by omega)

theorem place_val (cursor : Nat) {i : Nat} (h : i ≤ n) :
    (place cursor i : Fin n).val=if cursor%n+i<n then cursor%n+i else cursor%n+i-n := by
  have hc := Nat.mod_lt cursor (Nat.pos_of_neZero n)
  have hval : (place cursor i : Fin n).val=(cursor%n+i)%n := (Nat.mod_add_mod cursor n i).symm
  rw [hval]
  split_ifs with hw
  · exact Nat.mod_eq_of_lt hw
  · rw [Nat.mod_eq_sub_mod (by omega)]
    rcases Nat.lt_or_ge (cursor%n+i-n) n with hlt|hge
    · exact Nat.mod_eq_of_lt hlt
    · omega

theorem ahead_place (cursor : Nat) {i : Nat} (h : i<n) : ahead cursor (place cursor i : Fin n)=i := by
  have hc := Nat.mod_lt cursor (Nat.pos_of_neZero n)
  have hp := place_val cursor h.le
  rw [ahead_eq]
  split_ifs at hp ⊢ <;> omega

theorem place_ahead (cursor : Nat) (k : Fin n) : place cursor (ahead cursor k)=k := by
  have hk := k.isLt
  have hc := Nat.mod_lt cursor (Nat.pos_of_neZero n)
  apply Fin.ext
  rw [place_val cursor (ahead_lt cursor k).le]
  have ha := ahead_eq cursor k
  split_ifs at ha ⊢ <;> omega

theorem ahead_injective (cursor : Nat) {k m : Fin n} (h : ahead cursor k=ahead cursor m) : k=m := by
  rw [← place_ahead cursor k,h,place_ahead]

omit [NeZero n] in
/-- Only the place of a cursor in the ring counts. -/
theorem ahead_congr {c c' : Nat} (h : c%n=c'%n) (k : Fin n) : ahead c k=ahead c' k := by
  rw [ahead,h,ahead]

omit [NeZero n] in
theorem succ_mod (k : Fin n) : (k.val+1)%n=if k.val+1<n then k.val+1 else 0 := by
  have hk := k.isLt
  split_ifs with hw
  · exact Nat.mod_eq_of_lt hw
  · rw [show k.val+1=n by omega,Nat.mod_self]

/-- A slot that was just passed is the last in the turn. -/
theorem ahead_succ {k m : Fin n} (h : m≠k) : ahead (k.val+1) m<ahead (k.val+1) k := by
  have hk := k.isLt
  have hm := m.isLt
  have hne : m.val≠k.val := fun he => h (Fin.ext he)
  have hc := succ_mod k
  rw [ahead_eq,ahead_eq,hc]
  split_ifs <;> omega

/-- Two slots come closer alike when the cursor passes a slot before them. -/
theorem ahead_pass {c : Nat} {j m : Fin n} (h : ahead c j<ahead c m) :
    ahead (j.val+1) m=ahead c m-ahead c j-1 := by
  have hj := j.isLt
  have hm := m.isLt
  have hr := Nat.mod_lt c (Nat.pos_of_neZero n)
  have hc := succ_mod j
  have ha := ahead_eq c j
  have hb := ahead_eq c m
  rw [ahead_eq,hc]
  split_ifs at ha hb ⊢ <;> omega

section Search

variable {free : Fin n → Prop} {cursor : Nat}

/-- What a search from the cursor on is to find: the first free slot, or that there is none. -/
def Searched (free : Fin n → Prop) (cursor : Nat) : Option (Fin n) → Prop
  | none => ∀m,¬free m
  | some k => free k ∧ ∀m,free m → ahead cursor k ≤ ahead cursor m

theorem searched_some {i : Nat} (hi : i<n) (hfree : free (place cursor i))
    (hbefore : ∀j < i,¬free (place cursor j)) : Searched free cursor (some (place cursor i)) := by
  refine ⟨hfree,fun m hm => ?_⟩
  rw [ahead_place cursor hi]
  by_contra hlt
  apply hbefore (ahead cursor m) (by omega)
  rw [place_ahead]
  exact hm

theorem searched_none (h : ∀j<n,¬free (place cursor j)) : Searched free cursor none := by
  intro m hm
  apply h (ahead cursor m) (ahead_lt cursor m)
  rw [place_ahead]
  exact hm

/-- There is one right answer. -/
theorem Searched.unique {r r' : Option (Fin n)} (h : Searched free cursor r)
    (h' : Searched free cursor r') : r=r' := by
  cases r with
  | none =>
    cases r' with
    | none => rfl
    | some k => exact absurd h'.1 (h k)
  | some k =>
    cases r' with
    | none => exact absurd h.1 (h' k)
    | some m =>
      have hle := h.2 m h'.1
      have hge := h'.2 k h.1
      rw [ahead_injective cursor (show ahead cursor k=ahead cursor m by omega)]

omit [NeZero n] in
theorem Searched.congr {free' : Fin n → Prop} {cursor' : Nat} {r : Option (Fin n)}
    (h : Searched free cursor r) (hfree : ∀m,free' m ↔ free m) (hc : cursor'%n=cursor%n) :
    Searched free' cursor' r := by
  cases r with
  | none => exact fun m hm => h m ((hfree m).mp hm)
  | some k =>
    refine ⟨(hfree k).mpr h.1,fun m hm => ?_⟩
    rw [ahead_congr hc,ahead_congr hc]
    exact h.2 m ((hfree m).mp hm)

/-- The rule for turns: while m is free, m stays nearer than a slot k that is behind it, and no search
finds k. -/
theorem Searched.turn {j k m : Fin n} (h : Searched free cursor (some j)) (hm : free m) (hjm : j≠m)
    (hmk : ahead cursor m<ahead cursor k) :
    j≠k ∧ ahead (j.val+1) m<ahead (j.val+1) k := by
  have hle := h.2 m hm
  have hne : ahead cursor j≠ahead cursor m := fun he => hjm (ahead_injective cursor he)
  have hjk : j≠k := by
    intro he
    rw [he] at hle
    omega
  refine ⟨hjk,?_⟩
  rw [ahead_pass (c := cursor) (by omega),ahead_pass (c := cursor) (by omega)]
  omega

end Search

end Serialmux.Framework

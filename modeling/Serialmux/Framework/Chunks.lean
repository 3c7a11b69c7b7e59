import Mathlib.Data.List.Basic
import Mathlib.Tactic.Common

namespace Serialmux.Framework

variable {α : Type*}

private def chunksAux (w : Nat) : Nat → List α → List (List α)
  | 0,_ => []
  | _+1,[] => []
  | n+1,x::xs => (x::xs).take w::chunksAux w n ((x::xs).drop w)

/-- A list cut into pieces of `w`, the last one shorter. -/
def chunksOf (w : Nat) (xs : List α) : List (List α) := chunksAux w xs.length xs

private theorem chunksAux_enough {w n m : Nat} (hw : 0<w) {xs : List α} (hn : xs.length≤n)
    (hm : xs.length ≤ m) : chunksAux w n xs=chunksAux w m xs := by
  induction n generalizing m xs with
  | zero =>
    have hxs : xs=[] := List.eq_nil_of_length_eq_zero (by omega)
    cases m <;> simp [hxs,chunksAux]
  | succ n ih =>
    cases xs with
    | nil => cases m <;> rfl
    | cons x xs =>
      cases m with
      | zero => simp at hm
      | succ m =>
        rw [List.length_cons] at hn hm
        have hdrop : ((x::xs).drop w).length≤xs.length := by
          simp only [List.length_drop,List.length_cons]
          omega
        rw [chunksAux,chunksAux,ih (m := m) (by omega) (by omega)]

@[simp] theorem chunksOf_nil (w : Nat) : chunksOf w ([] : List α)=[] := rfl

theorem chunksOf_cons {w : Nat} (hw : 0<w) {xs : List α} (hxs : xs≠[]) :
    chunksOf w xs=xs.take w::chunksOf w (xs.drop w) := by
  cases xs with
  | nil => exact absurd rfl hxs
  | cons x xs =>
    have hdrop : ((x::xs).drop w).length≤xs.length := by
      simp only [List.length_drop,List.length_cons]
      omega
    rw [chunksOf,List.length_cons,chunksAux,chunksOf,chunksAux_enough hw hdrop Nat.le.refl]

/-- The rule for chunks: cut one piece off a list that has one, until none is left. -/
theorem chunksOf_induct {w : Nat} (hw : 0<w) {P : List α → Prop} (hnil : P [])
    (hcut : ∀xs,xs≠[] → P (xs.drop w) → P xs) (xs : List α) : P xs := by
  induction h : xs.length using Nat.strongRecOn generalizing xs with
  | ind n ih =>
    by_cases hxs : xs=[]
    · exact hxs ▸ hnil
    · have hpos := List.length_pos_iff.mpr hxs
      exact hcut xs hxs (ih _ (by simp only [List.length_drop]; omega) _ rfl)

theorem chunksOf_flatten {w : Nat} (hw : 0<w) (xs : List α) : (chunksOf w xs).flatten=xs := by
  induction xs using chunksOf_induct hw with
  | hnil => rfl
  | hcut xs hxs ih => rw [chunksOf_cons hw hxs,List.flatten_cons,ih,List.take_append_drop]

theorem mem_chunksOf {w : Nat} (hw : 0<w) {xs c : List α} (h : c∈chunksOf w xs) :
    c≠[] ∧ c.length≤w := by
  induction xs using chunksOf_induct hw with
  | hnil => simp at h
  | hcut xs hxs ih =>
    rw [chunksOf_cons hw hxs,List.mem_cons] at h
    rcases h with rfl|h
    · have hpos := List.length_pos_iff.mpr hxs
      exact ⟨by simp [hxs]; omega,List.length_take_le _ _⟩
    · exact ih h

/-- As many pieces as a cover of the list takes. -/
theorem chunksOf_length {w : Nat} (hw : 0<w) (xs : List α) :
    (chunksOf w xs).length=(xs.length+w-1)/w := by
  induction xs using chunksOf_induct hw with
  | hnil => simp [Nat.div_eq_of_lt (show w-1<w by omega)]
  | hcut xs hxs ih =>
    have hpos := List.length_pos_iff.mpr hxs
    rw [chunksOf_cons hw hxs,List.length_cons,ih,List.length_drop]
    rcases Nat.lt_or_ge w xs.length with h|h
    · rw [show xs.length+w-1=xs.length-w+w-1+w by omega,Nat.add_div_right _ hw]
    · rw [show xs.length-w+w-1=w-1 by omega,Nat.div_eq_of_lt (by omega),
        show xs.length+w-1=xs.length-1+w by omega,Nat.add_div_right _ hw,
        Nat.div_eq_of_lt (by omega)]

end Serialmux.Framework

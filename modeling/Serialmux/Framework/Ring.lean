import Mathlib.Data.List.Rotate
import Mathlib.Tactic.Common

namespace Serialmux.Framework

variable {α : Type}

/-- Overwrites the cells of xs from index i on with ys. -/
def splice (xs : List α) (i : Nat) (ys : List α) : List α :=
  xs.take i++ys++xs.drop (i+ys.length)

theorem splice_length {xs ys : List α} {i : Nat} (h : i+ys.length≤xs.length) :
    (splice xs i ys).length=xs.length := by
  simp only [splice,List.length_append,List.length_take,List.length_drop]
  omega

theorem getElem?_splice {xs ys : List α} {i : Nat} (h : i+ys.length≤xs.length) (j : Nat) :
    (splice xs i ys)[j]?=if i≤j ∧ j < i+ys.length then ys[j-i]? else xs[j]? := by
  have hi : (xs.take i).length=i := by rw [List.length_take]; omega
  rw [splice,List.append_assoc]
  rcases Nat.lt_or_ge j i with hj|hj
  · rw [List.getElem?_append_left (by omega),List.getElem?_take_of_lt hj,if_neg (by omega)]
  rw [List.getElem?_append_right (by omega),hi]
  rcases Nat.lt_or_ge j (i+ys.length) with hk|hk
  · rw [List.getElem?_append_left (by omega),if_pos ⟨hj,hk⟩]
  · rw [List.getElem?_append_right (by omega),List.getElem?_drop,if_neg (by omega)]
    congr 1
    omega

/-- Writes ys around the end of the cyclic store xs, starting at cell t. -/
def cyclicWrite (xs : List α) (t : Nat) (ys : List α) : List α :=
  if ys.length≤xs.length-t then splice xs t ys
  else splice (splice xs t (ys.take (xs.length-t))) 0 (ys.drop (xs.length-t))

theorem cyclicWrite_length (xs ys : List α) {t : Nat} (ht : t<xs.length)
    (hn : ys.length≤xs.length) : (cyclicWrite xs t ys).length=xs.length := by
  unfold cyclicWrite
  split_ifs with h
  · exact splice_length (by omega)
  · have hs : (splice xs t (ys.take (xs.length-t))).length=xs.length :=
      splice_length (by rw [List.length_take]; omega)
    rw [splice_length (by rw [hs,List.length_drop]; omega),hs]

private theorem mod_wrap {i n : Nat} (h : i<2*n) : i%n=if i<n then i else i-n := by
  split_ifs with hi
  · exact Nat.mod_eq_of_lt hi
  · rw [Nat.mod_eq_sub_mod (by omega),Nat.mod_eq_of_lt (by omega)]

theorem getElem?_cyclicWrite (xs ys : List α) {t : Nat} (i : Nat) (ht : t<xs.length)
    (hn : ys.length≤xs.length) (hi : i<xs.length) :
    (cyclicWrite xs t ys)[(t+i)%xs.length]?=
      if i<ys.length then ys[i]? else xs[(t+i)%xs.length]? := by
  rw [mod_wrap (show t+i<2*xs.length by omega)]
  unfold cyclicWrite
  split_ifs with hw hi' hy hy
  · rw [getElem?_splice (by omega),if_pos (by omega)]
    congr 1
    omega
  · rw [getElem?_splice (by omega),if_neg (by omega)]
  · omega
  · rw [getElem?_splice (by omega),if_neg (by omega)]
  all_goals
    have hs : (splice xs t (ys.take (xs.length-t))).length=xs.length :=
      splice_length (by rw [List.length_take]; omega)
    have hd := List.length_drop (i := xs.length-t) (l := ys)
    have hk := List.length_take (i := xs.length-t) (l := ys)
    rw [getElem?_splice (by omega)]
  · rw [if_neg (by omega),getElem?_splice (by omega),if_pos (by omega),
      List.getElem?_take_of_lt (by omega)]
    congr 1
    omega
  · rw [if_neg (by omega),getElem?_splice (by omega),if_neg (by omega)]
  · rw [if_pos (by omega),List.getElem?_drop]
    congr 1
    omega
  · rw [if_neg (by omega),getElem?_splice (by omega),if_neg (by omega)]

/-- The n cells of the cyclic store xs read from cell h on. -/
def window (xs : List α) (h n : Nat) : List α := (xs.rotate h).take n

theorem window_length {xs : List α} {h n : Nat} (hn : n≤xs.length) : (window xs h n).length=n := by
  simp only [window,List.length_take,List.length_rotate]
  omega

theorem getElem?_window {xs : List α} {h n j : Nat} (hn : n≤xs.length) (hj : j<n) :
    (window xs h n)[j]?=xs[(h+j)%xs.length]? := by
  rw [window,List.getElem?_take_of_lt hj,List.getElem?_rotate (by omega),Nat.add_comm]

/-- Appending at the end of a window keeps the window and adds exactly the written cells. -/
theorem window_cyclicWrite (xs ys : List α) (h u : Nat) (hh : h<xs.length)
    (hu : u+ys.length≤xs.length) :
    window (cyclicWrite xs ((h+u)%xs.length) ys) h (u+ys.length)=window xs h u++ys := by
  have ht : (h+u)%xs.length<xs.length := Nat.mod_lt _ (by omega)
  have hl := cyclicWrite_length xs ys ht (by omega)
  have shift (i : Nat) : ((h+u)%xs.length+i)%xs.length=(h+u+i)%xs.length := by
    rw [Nat.add_mod,Nat.mod_mod,← Nat.add_mod]
  apply List.ext_getElem?
  intro j
  rcases Nat.lt_or_ge j (u+ys.length) with hj|hj
  · rw [getElem?_window (by omega) hj,hl]
    rcases Nat.lt_or_ge j u with hk|hk
    · have hc := getElem?_cyclicWrite xs ys (xs.length-u+j) ht (by omega) (by omega)
      have he : (h+u+(xs.length-u+j))%xs.length=(h+j)%xs.length := by
        rw [show h+u+(xs.length-u+j)=h+j+xs.length by omega,Nat.add_mod_right]
      rw [shift,he,if_neg (by omega)] at hc
      rw [hc,List.getElem?_append_left (by rw [window_length (by omega)]; exact hk),
        getElem?_window (by omega) hk]
    · have hc := getElem?_cyclicWrite xs ys (j-u) ht (by omega) (by omega)
      rw [shift,show h+u+(j-u)=h+j by omega,if_pos (by omega)] at hc
      rw [hc,List.getElem?_append_right (by rw [window_length (by omega)]; exact hk),
        window_length (by omega)]
  · rw [List.getElem?_eq_none (by rw [window_length (by omega)]; exact hj),
      List.getElem?_eq_none (by rw [List.length_append,window_length (by omega)]; exact hj)]

/-- Advancing the start of a window drops the cells it passes. -/
theorem window_advance (xs : List α) (h u k : Nat) (hu : u≤xs.length) (hk : k≤u) :
    window xs ((h+k)%xs.length) (u-k)=(window xs h u).drop k := by
  apply List.ext_getElem?
  intro j
  rw [List.getElem?_drop]
  rcases Nat.lt_or_ge j (u-k) with hj|hj
  · rw [getElem?_window (by omega) hj,getElem?_window hu (by omega)]
    congr 1
    rw [Nat.add_mod,Nat.mod_mod,← Nat.add_mod,Nat.add_assoc]
  · rw [List.getElem?_eq_none (by rw [window_length (by omega)]; exact hj),
      List.getElem?_eq_none (by rw [window_length hu]; omega)]

/-- A window that does not reach the end of the store is a plain slice of it. -/
theorem take_drop_eq_window (xs : List α) (h u k : Nat) (hu : u≤xs.length) (hk : k≤u)
    (he : h+k≤xs.length) : (xs.drop h).take k=(window xs h u).take k := by
  apply List.ext_getElem?
  intro j
  rcases Nat.lt_or_ge j k with hj|hj
  · rw [List.getElem?_take_of_lt hj,List.getElem?_take_of_lt hj,List.getElem?_drop,
      getElem?_window hu (by omega),Nat.mod_eq_of_lt (by omega)]
  · rw [List.getElem?_eq_none (by rw [List.length_take]; omega),
      List.getElem?_eq_none (by rw [List.length_take]; omega)]

end Serialmux.Framework

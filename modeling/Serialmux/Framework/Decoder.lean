import Mathlib.Data.List.Basic
import Mathlib.Tactic.Common

namespace Serialmux.Framework

/-- One move of an incremental decoder: the state it goes on in, what it emits, and how many
symbols it takes off the front of its buffer. -/
structure Move (σ β : Type) where
  next : σ
  out : Option β
  len : Nat

/-- An incremental decoder decides from its state and the buffered symbols alone. `none` waits for
more input; a decision once taken is never revised by input that arrives later. -/
structure Decoder (σ α β : Type) where
  move : σ → List α → Option (Move σ β)
  lenPos : ∀ {s xs m}, move s xs=some m → 0 < m.len
  lenLe : ∀ {s xs m}, move s xs=some m → m.len≤xs.length
  stable : ∀ {s xs m} ys, move s xs=some m → move s (xs++ys)=some m

namespace Decoder

variable {σ α β γ : Type} (d : Decoder σ α β)

/-- Moves until the decoder waits: the emissions in order, the last state and the rest. -/
def drain (s : σ) (xs : List α) : List β × σ × List α :=
  match _h : d.move s xs with
  | none => ([],s,xs)
  | some m =>
    let r := drain m.next (xs.drop m.len)
    (m.out.toList++r.1,r.2)
termination_by xs.length
decreasing_by
  have h0 := d.lenPos _h
  have h1 := d.lenLe _h
  simp only [List.length_drop]
  omega

theorem drain_wait {s : σ} {xs : List α} (h : d.move s xs=none) :
    d.drain s xs=([],s,xs) := by
  rw [drain]
  split
  · rfl
  · rename_i m hm
    rw [h] at hm
    cases hm

theorem drain_move {s : σ} {xs : List α} {m : Move σ β} (h : d.move s xs=some m) :
    d.drain s xs=(m.out.toList++(d.drain m.next (xs.drop m.len)).1,
      (d.drain m.next (xs.drop m.len)).2) := by
  rw [drain]
  split
  · rename_i hm
    rw [h] at hm
    cases hm
  · rename_i m' hm
    rw [h] at hm
    obtain rfl := Option.some.inj hm
    rfl

/-- Induction along the moves of a drain. -/
theorem drain_induct {P : σ → List α → Prop}
    (wait : ∀ s xs, d.move s xs=none → P s xs)
    (step : ∀ s xs m, d.move s xs=some m → P m.next (xs.drop m.len) → P s xs)
    (s : σ) (xs : List α) : P s xs := by
  induction hn : xs.length using Nat.strongRecOn generalizing s xs with
  | _ n ih =>
    cases hm : d.move s xs with
    | none => exact wait s xs hm
    | some m =>
      have h0 := d.lenPos hm
      have h1 := d.lenLe hm
      exact step s xs m hm (ih _ (by simp only [List.length_drop]; omega) _ _ rfl)

theorem drain_rest_waits (s : σ) (xs : List α) :
    d.move (d.drain s xs).2.1 (d.drain s xs).2.2=none := by
  induction s,xs using d.drain_induct with
  | wait s xs h => rw [d.drain_wait h]; exact h
  | step s xs m h ih => rw [d.drain_move h]; exact ih

theorem drain_rest_suffix (s : σ) (xs : List α) : (d.drain s xs).2.2 <:+ xs := by
  induction s,xs using d.drain_induct with
  | wait s xs h =>
    have hrest : (d.drain s xs).2.2=xs := by rw [d.drain_wait h]
    exact hrest.symm ▸ List.suffix_refl xs
  | step s xs m h ih =>
    rw [d.drain_move h]
    exact ih.trans (List.drop_suffix _ _)

/-- Input that arrives later continues from the rest; nothing is lost or read again. -/
theorem drain_append (s : σ) (xs ys : List α) :
    d.drain s (xs++ys)=
      ((d.drain s xs).1++(d.drain (d.drain s xs).2.1 ((d.drain s xs).2.2++ys)).1,
        (d.drain (d.drain s xs).2.1 ((d.drain s xs).2.2++ys)).2) := by
  induction s,xs using d.drain_induct with
  | wait s xs h => rw [d.drain_wait h]; rfl
  | step s xs m h ih =>
    have hd : (xs++ys).drop m.len=xs.drop m.len++ys := List.drop_append_of_le_length (d.lenLe h)
    rw [d.drain_move h,d.drain_move (d.stable ys h),hd,ih]
    simp only [List.append_assoc]

/-- Chunks drained one after the other, each appended to the rest the previous ones left. -/
def drainAll : σ → List α → List (List α) → List β × σ × List α
  | s,r,[] => ([],s,r)
  | s,r,c::cs =>
    let a := d.drain s (r++c)
    let b := drainAll a.2.1 a.2.2 cs
    (a.1++b.1,b.2)

/-- The chunking does not matter: draining chunk by chunk is draining the concatenation. -/
theorem drainAll_eq_drain {s : σ} {r : List α} (h : d.move s r=none) (cs : List (List α)) :
    d.drainAll s r cs=d.drain s (r++cs.flatten) := by
  induction cs generalizing s r with
  | nil => simp [drainAll,d.drain_wait h]
  | cons c cs ih =>
    simp only [drainAll,List.flatten_cons]
    rw [← List.append_assoc,d.drain_append s (r++c),ih (d.drain_rest_waits s (r++c))]

/-- A decoder that reads each of some code words wherever it stands at its front reads their
concatenation, and then goes on with what follows. -/
theorem drain_encoded {s : σ} (enc : γ → List α) (val : γ → β) {cs : List γ}
    (h : ∀c∈cs,∀ys,d.move s (enc c++ys)=some ⟨s,some (val c),(enc c).length⟩) (ys : List α) :
    d.drain s ((cs.map enc).flatten++ys)=(cs.map val++(d.drain s ys).1,(d.drain s ys).2) := by
  induction cs with
  | nil => rfl
  | cons c cs ih =>
    obtain ⟨hc,hcs⟩ := List.forall_mem_cons.mp h
    simp only [List.map_cons,List.flatten_cons,List.append_assoc]
    rw [d.drain_move (hc _)]
    simp only [List.drop_left,ih hcs]
    rfl

/-- A decoder that only skips, and never past n, before it reaches n, goes on from n. -/
theorem drain_skip_to {s : σ} {xs : List α} {n : Nat}
    (h : ∀p<n,∃k,p+k≤n ∧ d.move s (xs.drop p)=some ⟨s,none,k⟩) :
    d.drain s xs=d.drain s (xs.drop n) := by
  have from_p (j p : Nat) (hj : p+j=n) : d.drain s (xs.drop p)=d.drain s (xs.drop n) := by
    induction j using Nat.strongRecOn generalizing p with
    | _ j ih =>
      rcases Nat.eq_zero_or_pos j with rfl|hpos
      · rw [← hj,Nat.add_zero]
      obtain ⟨k,hk,hm⟩ := h p (by omega)
      have hk0 : 0<k := d.lenPos hm
      rw [d.drain_move hm,List.drop_drop,ih (j-k) (by omega) (p+k) (by omega)]
      rfl
  exact from_p n 0 (Nat.zero_add n)

/-- The emissions on a prefix of the input are a prefix of the emissions on all of it. -/
theorem drain_prefix (s : σ) {xs zs : List α} (h : xs <+: zs) :
    (d.drain s xs).1 <+: (d.drain s zs).1 := by
  obtain ⟨ys,rfl⟩ := h
  rw [d.drain_append]
  exact List.prefix_append _ _

end Decoder

end Serialmux.Framework

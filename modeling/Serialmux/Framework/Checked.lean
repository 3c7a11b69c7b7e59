import Mathlib.Algebra.Group.Nat.Defs
import Mathlib.Data.List.Basic
import Mathlib.Tactic.Common

namespace Serialmux.Framework

variable {α β σ ι : Type}

/-- The computation comes to an end, without a fault, in a value that meets `P`. -/
def Yields (P : α → Prop) (x : Option α) : Prop := ∃a,x=some a ∧ P a

namespace Yields

variable {P Q : α → Prop} {R : β → Prop} {x : Option α}

theorem some {a : α} (h : P a) : Yields P (some a) := ⟨a,rfl,h⟩

theorem mono (h : Yields P x) (hPQ : ∀a,P a → Q a) : Yields Q x := by
  obtain ⟨a,rfl,ha⟩ := h
  exact some (hPQ a ha)

/-- The rule for sequences: what the first part yields is what the second starts from. -/
theorem bind {f : α → Option β} (h : Yields P x) (hf : ∀a,P a → Yields R (f a)) :
    Yields R (x>>=f) := by
  obtain ⟨a,rfl,ha⟩ := h
  exact hf a ha

theorem of_eq {a : α} (h : x=.some a) (ha : P a) : Yields P x := ⟨a,h,ha⟩

theorem get (h : Yields P x) {a : α} (hx : x=.some a) : P a := by
  obtain ⟨a',rfl,ha⟩ := h
  exact Option.some.inj hx ▸ ha

/-- A first part whose value is known. -/
theorem next {f : α → Option β} {a : α} (hx : x=.some a) (h : Yields R (f a)) :
    Yields R (x>>=f) := by
  rw [hx]
  exact h

theorem map {f : α → β} (h : Yields P x) (hf : ∀a,P a → R (f a)) : Yields R (x.map f) := by
  obtain ⟨a,rfl,ha⟩ := h
  exact some (hf a ha)

/-- A check that is met costs nothing. -/
theorem check {c : Prop} [Decidable c] {f : Unit → Option α} (hc : c) (h : Yields P (f ())) :
    Yields P (guard c>>=f) := by
  rw [guard,if_pos hc]
  exact h

/-- A part that is only run where `c` holds. -/
theorem when {c : Prop} [Decidable c] {a : α} (h : c → Yields P x) (ha : P a) :
    Yields P (if c then x else .some a) := by
  split_ifs with hc
  · exact h hc
  · exact some ha

/-- An early return where `c` holds. -/
theorem early {c : Prop} [Decidable c] {a : α} (ha : P a) (h : ¬c → Yields P x) :
    Yields P (if c then .some a else x) := by
  split_ifs with hc
  · exact some ha
  · exact h hc

/-- The rule for loops over a list: an invariant that every pass keeps. -/
theorem foldlM {I : σ → Prop} {f : σ → ι → Option σ} (hstep : ∀s i,I s → Yields I (f s i))
    {s : σ} (hs : I s) (is : List ι) : Yields I (is.foldlM f s) := by
  induction is generalizing s with
  | nil => exact some hs
  | cons i is ih => exact (hstep s i hs).bind (fun s' hs' => ih hs')

end Yields

/-- If the computation comes to an end, then in a value that meets `P`. -/
def Allows (P : α → Prop) (x : Option α) : Prop := ∀a,x=some a → P a

namespace Allows

variable {P Q : α → Prop} {R : β → Prop} {x : Option α}

theorem some {a : α} (h : P a) : Allows P (some a) := fun _ ha => Option.some.inj ha ▸ h

theorem fault : Allows P none := fun _ h => nomatch h

theorem mono (h : Allows P x) (hPQ : ∀a,P a → Q a) : Allows Q x := fun a ha => hPQ a (h a ha)

theorem bind {f : α → Option β} (h : Allows P x) (hf : ∀a,P a → Allows R (f a)) :
    Allows R (x>>=f) := by
  intro b hb
  obtain ⟨a,ha,hab⟩ := Option.bind_eq_some_iff.mp hb
  exact hf a (h a ha) b hab

/-- A first part whose value, if there is one, is known. -/
theorem next {f : α → Option β} {a : α} (hx : x=.some a) (h : Allows R (f a)) :
    Allows R (x>>=f) := by
  rw [hx]
  exact h

theorem check {c : Prop} [Decidable c] {f : Unit → Option α} (h : c → Allows P (f ())) :
    Allows P (guard c>>=f) := by
  unfold guard
  split_ifs with hc
  · exact h hc
  · exact .fault

end Allows

theorem Yields.allows {P : α → Prop} {x : Option α} (h : Yields P x) : Allows P x :=
  fun _ ha => h.get ha

/-- What a computation yields, given what it allows. -/
theorem Yields.and_allows {P Q : α → Prop} {x : Option α} (h : Yields P x) (hx : Allows Q x) :
    Yields (fun a => P a ∧ Q a) x := by
  obtain ⟨a,rfl,ha⟩ := h
  exact .some ⟨ha,hx a rfl⟩

section Runs

-- A machine whose steps may fault.
variable (step : σ → ι → Option σ)

/-- Every step of the run is taken from a state, on an input, that meet `G`. -/
def Throughout (G : σ → ι → Prop) : σ → List ι → Prop
  | _,[] => True
  | s,i::is => G s i ∧ ∀s',step s i=some s' → Throughout G s' is

variable {step}

theorem Throughout.mono {G H : σ → ι → Prop} (hGH : ∀s i,G s i → H s i) {s : σ} {is : List ι}
    (h : Throughout step G s is) : Throughout step H s is := by
  induction is generalizing s with
  | nil => trivial
  | cons i is ih => exact ⟨hGH s i h.1,fun s' he => ih (h.2 s' he)⟩

theorem Throughout.of_forall {G : σ → ι → Prop} (hG : ∀s i,G s i) (s : σ) (is : List ι) :
    Throughout step G s is := by
  induction is generalizing s with
  | nil => trivial
  | cons i is ih => exact ⟨hG s i,fun s' _ => ih s'⟩

/-- A condition that is only asked for where `w` holds. -/
theorem Throughout.imp {w : Prop} {G : σ → ι → Prop} {s : σ} {is : List ι}
    (h : w → Throughout step G s is) : Throughout step (fun s i => w → G s i) s is := by
  by_cases hw : w
  · exact (h hw).mono (fun _ _ hs _ => hs)
  · exact .of_forall (fun _ _ hw' => absurd hw' hw) s is

theorem Throughout.take {G : σ → ι → Prop} {s : σ} {is : List ι} (h : Throughout step G s is)
    (n : Nat) : Throughout step G s (is.take n) := by
  induction is generalizing s n with
  | nil =>
    rw [List.take_nil]
    trivial
  | cons i is ih =>
    cases n with
    | zero => trivial
    | succ n => exact ⟨h.1,fun s' he => ih (h.2 s' he) n⟩

theorem Throughout.rest {G : σ → ι → Prop} {s s' : σ} {is js : List ι}
    (h : Throughout step G s (is++js)) (hs : is.foldlM step s=some s') : Throughout step G s' js := by
  induction is generalizing s with
  | nil => exact Option.some.inj hs ▸ h
  | cons i is ih =>
    rw [List.foldlM_cons] at hs
    obtain ⟨s₁,h₁,hs⟩ := Option.bind_eq_some_iff.mp hs
    exact ih (h.2 s₁ h₁) hs

/-- What every step keeps is at hand wherever a step is taken. -/
theorem Throughout.keep {I : σ → Prop} {G : σ → ι → Prop} (hstep : ∀s i,I s → Allows I (step s i))
    {s : σ} {is : List ι} (hs : I s) (h : Throughout step G s is) :
    Throughout step (fun s i => I s ∧ G s i) s is := by
  induction is generalizing s with
  | nil => trivial
  | cons i is ih => exact ⟨⟨hs,h.1⟩,fun s' he => ih (hstep s i hs s' he) (h.2 s' he)⟩

/-- What holds throughout a run of a machine holds throughout the run of one that does the same with
more to its state. -/
theorem Throughout.lift {τ : Type} {step' : τ → ι → Option τ} (π : τ → σ)
    (hstep : ∀t i t',step' t i=some t' → step (π t) i=some (π t')) {G : σ → ι → Prop} {t : τ}
    {is : List ι} (h : Throughout step G (π t) is) : Throughout step' (fun t i => G (π t) i) t is := by
  induction is generalizing t with
  | nil => trivial
  | cons i is ih => exact ⟨h.1,fun t' he => ih (h.2 (π t') (hstep t i t' he))⟩

/-- The rule for runs: an invariant that every step meeting `G` keeps, without a fault, is kept by
every run whose steps all meet `G`. -/
theorem Yields.run {I : σ → Prop} {G : σ → ι → Prop} (hstep : ∀s i,I s → G s i → Yields I (step s i))
    {s : σ} {is : List ι} (hs : I s) (h : Throughout step G s is) : Yields I (is.foldlM step s) := by
  induction is generalizing s with
  | nil => exact .some hs
  | cons i is ih =>
    obtain ⟨s',he,hs'⟩ := hstep s i hs h.1
    rw [List.foldlM_cons,he]
    exact ih hs' (h.2 s' he)

end Runs

section Sizes

/-- The difference of two sizes; to go below zero is a fault. -/
def sub? (a b : Nat) : Option Nat := if b≤a then some (a-b) else none

theorem sub?_eq {a b : Nat} (h : b≤a) : sub? a b=some (a-b) := if_pos h

theorem sub?_allows (a b : Nat) : Allows (· =a-b) (sub? a b) := by
  unfold sub?
  split_ifs
  · exact .some rfl
  · exact .fault

/-- A conversion to eight bits; to lose any is a fault. -/
def narrow8 (n : Nat) : Option UInt8 := if n<2^8 then some (UInt8.ofNat n) else none

theorem narrow8_eq {n : Nat} (h : n<2^8) : narrow8 n=some (UInt8.ofNat n) := if_pos h

theorem narrow8_allows (n : Nat) : Allows (fun b => n<2^8 ∧ b=UInt8.ofNat n) (narrow8 n) := by
  unfold narrow8
  split_ifs with h
  · exact .some ⟨h,rfl⟩
  · exact .fault

/-- Copies n elements of src to the end of a buffer that has cap cells; to read or to write beyond
either is a fault. -/
def copyTo (cap : Nat) (dst src : List α) (n : Nat) : Option (List α) :=
  if n ≤ src.length ∧ dst.length+n≤cap then some (dst++src.take n) else none

theorem copyTo_eq {cap n : Nat} {dst src : List α} (hn : n ≤ src.length) (hc : dst.length+n≤cap) :
    copyTo cap dst src n=some (dst++src.take n) := if_pos ⟨hn,hc⟩

theorem copyTo_allows (cap : Nat) (dst src : List α) (n : Nat) :
    Allows (· =dst++src.take n) (copyTo cap dst src n) := by
  unfold copyTo
  split_ifs
  · exact .some rfl
  · exact .fault

/-- Moves what follows the first n elements of a buffer to its front. -/
def slide (buf : List α) (n : Nat) : Option (List α) :=
  if n≤buf.length then some (buf.drop n) else none

theorem slide_eq {n : Nat} {buf : List α} (h : n≤buf.length) : slide buf n=some (buf.drop n) :=
  if_pos h

/-- Reads n elements of a buffer from i on. -/
def slice (buf : List α) (i n : Nat) : Option (List α) :=
  if i+n≤buf.length then some ((buf.drop i).take n) else none

theorem slice_eq {i n : Nat} {buf : List α} (h : i+n≤buf.length) :
    slice buf i n=some ((buf.drop i).take n) := if_pos h

end Sizes

end Serialmux.Framework

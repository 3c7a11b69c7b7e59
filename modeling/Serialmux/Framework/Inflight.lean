import Mathlib.Data.List.Basic
import Mathlib.Tactic.Common

namespace Serialmux.Framework

section Inflight

-- A receiver takes messages from a queue. At any time it may lose what it holds.
variable {α ρ : Type*} (recv : ρ → α → ρ) (lost : ρ)

/-- Whatever the receiver loses on the way: before each message of the queue it meets `I`, and `B`
once it has them all. -/
def Foretells (I B : ρ → Prop) : List α → ρ → Prop
  | [],r => B r ∧ B lost
  | a::as,r => I r ∧ Foretells I B as (recv r a) ∧ Foretells I B as (recv lost a)

variable {recv lost} {I B : ρ → Prop} {q : List α} {r : ρ}

namespace Foretells

/-- The receiver takes the first message. -/
theorem deliver {a : α} (h : Foretells recv lost I B (a::q) r) :
    Foretells recv lost I B q (recv r a) := h.2.1

/-- The receiver loses what it holds. -/
theorem lose (hI : I lost) (h : Foretells recv lost I B q r) : Foretells recv lost I B q lost := by
  cases q with
  | nil => exact ⟨h.2,h.2⟩
  | cons a q => exact ⟨hI,h.2.2,h.2.2⟩

theorem now (hB : ∀r,B r → I r) (h : Foretells recv lost I B q r) : I r := by
  cases q with
  | nil => exact hB r h.1
  | cons a q => exact h.1

theorem mono {I' B' : ρ → Prop} (hI : ∀r,I r → I' r) (hB : ∀r,B r → B' r)
    (h : Foretells recv lost I B q r) : Foretells recv lost I' B' q r := by
  induction q generalizing r with
  | nil => exact ⟨hB r h.1,hB lost h.2⟩
  | cons a q ih => exact ⟨hI r h.1,ih h.2.1,ih h.2.2⟩

/-- The receiver has lost what it holds, and some of the messages with it. -/
theorem drop (hI : I lost) (n : Nat) (h : Foretells recv lost I B q r) :
    Foretells recv lost I B (q.drop n) lost := by
  induction n generalizing q r with
  | zero => exact h.lose hI
  | succ n ih =>
    cases q with
    | nil => exact h.lose hI
    | cons a q => exact ih h.deliver

theorem append_iff (hI : I lost) {q' : List α} :
    Foretells recv lost I B (q++q') r ↔
      Foretells recv lost I (Foretells recv lost I B q') q r := by
  induction q generalizing r with
  | nil => exact ⟨fun h => ⟨h,h.lose hI⟩,fun h => h.1⟩
  | cons a q ih => simp only [List.cons_append,Foretells,ih]

/-- The sender appends to the queue. -/
theorem append (hI : I lost) {B' : ρ → Prop} {q' : List α} (h : Foretells recv lost I B q r)
    (hq : ∀r,B r → Foretells recv lost I B' q' r) : Foretells recv lost I B' (q++q') r :=
  (append_iff hI).mpr (h.mono (fun _ h => h) hq)

/-- The rest of the queue is lost. -/
theorem cut (hI : I lost) (hB : ∀r,B r → I r) {q' : List α}
    (h : Foretells recv lost I B (q++q') r) : Foretells recv lost I I q r :=
  ((append_iff hI).mp h).mono (fun _ h => h) (fun _ h => h.now hB)

/-- Messages that change nothing for the receiver. -/
theorem ignored (hq : ∀a∈q,∀r,recv r a=r) (hI : I r) (hI' : I lost) (h : B r) (h' : B lost) :
    Foretells recv lost I B q r := by
  induction q generalizing r with
  | nil => exact ⟨h,h'⟩
  | cons a q ih =>
    obtain ⟨ha,hq⟩ := List.forall_mem_cons.mp hq
    refine ⟨hI,?_,?_⟩
    · rw [ha]
      exact ih hq hI h
    · rw [ha]
      exact ih hq hI' h'

/-- The sender appends messages that change nothing for the receiver. -/
theorem append_ignored (hI : I lost) (hB : ∀r,B r → I r) (hlost : ∀r,B r → B lost) {q' : List α}
    (hq : ∀a∈q',∀r,recv r a=r) (h : Foretells recv lost I B q r) :
    Foretells recv lost I B (q++q') r :=
  h.append hI (fun r h => ignored hq (hB r h) hI h (hlost r h))

end Foretells

end Inflight

end Serialmux.Framework

import Mathlib.Data.List.Basic
import Mathlib.Tactic.Common

namespace Serialmux.Framework

section Marks

-- Some messages of a queue bear a mark; the last one decides.
variable {α μ : Type*} (mark : α → Option μ)

def lastMark (l : List α) : Option μ := (l.filterMap mark).getLast?

@[simp] theorem lastMark_nil : lastMark mark []=none := rfl

theorem lastMark_append (l l' : List α) :
    lastMark mark (l++l')=(lastMark mark l').or (lastMark mark l) := by
  rw [lastMark,List.filterMap_append,List.getLast?_append]
  rfl

theorem lastMark_cons (a : α) (l : List α) :
    lastMark mark (a::l)=(lastMark mark l).or (mark a) := by
  have ha : lastMark mark [a]=mark a := by
    cases h : mark a <;> simp [lastMark,h]
  rw [← List.singleton_append,lastMark_append,ha]

variable {mark}

theorem lastMark_unmarked {l : List α} (h : ∀a∈l,mark a=none) : lastMark mark l=none := by
  rw [lastMark,List.filterMap_eq_nil_iff.mpr h]
  rfl

/-- Unmarked messages at the end change nothing. -/
theorem lastMark_append_unmarked (l : List α) {l' : List α} (h : ∀a∈l',mark a=none) :
    lastMark mark (l++l')=lastMark mark l := by
  rw [lastMark_append,lastMark_unmarked h,Option.none_or]

/-- Where all marks are the same, the last one is known without its place. -/
theorem lastMark_const {l : List α} {m : μ} (hall : ∀a∈l,mark a=none ∨ mark a=some m)
    (hex : ∃a∈l,mark a=some m) : lastMark mark l=some m := by
  induction l with
  | nil =>
    obtain ⟨a,ha,-⟩ := hex
    exact absurd ha List.not_mem_nil
  | cons a l ih =>
    obtain ⟨ha,hl⟩ := List.forall_mem_cons.mp hall
    rw [lastMark_cons]
    by_cases h : ∃b∈l,mark b=some m
    · rw [ih hl h,Option.some_or]
    · have hnone : ∀b∈l,mark b=none := fun b hb => (hl b hb).resolve_right (fun hm => h ⟨b,hb,hm⟩)
      obtain ⟨b,hb,hm⟩ := hex
      rcases List.mem_cons.mp hb with rfl|hb
      · rw [lastMark_unmarked hnone,Option.none_or,hm]
      · exact absurd ⟨b,hb,hm⟩ h

/-- A queue that loses messages of its front part keeps its last mark, or has none left. -/
theorem lastMark_drop (l l' : List α) (n : Nat) :
    lastMark mark (l.drop n++l')=lastMark mark (l++l') ∨ lastMark mark (l.drop n++l')=none := by
  have h := lastMark_append mark (l.take n) (l.drop n++l')
  rw [← List.append_assoc,List.take_append_drop] at h
  cases hm : lastMark mark (l.drop n++l') with
  | none => exact .inr rfl
  | some m =>
    rw [hm,Option.some_or] at h
    exact .inl h.symm

end Marks

end Serialmux.Framework

import Mathlib.Data.List.Basic
import Mathlib.Tactic.Common

namespace Serialmux.Framework

variable {σ ι ω : Type*}

section Runs

-- A deterministic machine that answers every input with an output.
variable (step : σ → ι → σ × ω)

def after (s : σ) (is : List ι) : σ := is.foldl (fun s i => (step s i).1) s

/-- The outputs of a run, one for each input. -/
def outs : σ → List ι → List ω
  | _,[] => []
  | s,i::is => (step s i).2::outs (step s i).1 is

/-- Every step of the run is taken from a state, on an input, that meet `G`. -/
def Always (G : σ → ι → Prop) : σ → List ι → Prop
  | _,[] => True
  | s,i::is => G s i ∧ Always G (step s i).1 is

instance Always.decidable {G : σ → ι → Prop} [∀s i,Decidable (G s i)] :
    ∀(s : σ) (is : List ι),Decidable (Always step G s is)
  | _,[] => inferInstanceAs (Decidable True)
  | s,i::is =>
    have := Always.decidable (G := G) (step s i).1 is
    inferInstanceAs (Decidable (G s i ∧ Always step G (step s i).1 is))

@[simp] theorem after_nil (s : σ) : after step s []=s := rfl

@[simp] theorem after_cons (s : σ) (i : ι) (is : List ι) :
    after step s (i::is)=after step (step s i).1 is := rfl

theorem after_append (s : σ) (is js : List ι) :
    after step s (is++js)=after step (after step s is) js := by
  simp [after]

@[simp] theorem outs_nil (s : σ) : outs step s []=[] := rfl

@[simp] theorem outs_cons (s : σ) (i : ι) (is : List ι) :
    outs step s (i::is)=(step s i).2::outs step (step s i).1 is := rfl

theorem outs_append (s : σ) (is js : List ι) :
    outs step s (is++js)=outs step s is++outs step (after step s is) js := by
  induction is generalizing s with
  | nil => rfl
  | cons i is ih => simp [ih]

variable {G : σ → ι → Prop}

theorem always_append {s : σ} {is js : List ι} :
    Always step G s (is++js) ↔ Always step G s is ∧ Always step G (after step s is) js := by
  induction is generalizing s with
  | nil => simp [Always]
  | cons i is ih =>
    simp only [List.cons_append,Always,ih,after_cons]
    exact and_assoc.symm

theorem Always.take {s : σ} {is : List ι} (h : Always step G s is) (n : Nat) :
    Always step G s (is.take n) := by
  rw [← List.take_append_drop n is,always_append] at h
  exact h.1

theorem always_of_forall {G : ι → Prop} {s : σ} {is : List ι} (h : ∀i∈is,G i) :
    Always step (fun _ => G) s is := by
  induction is generalizing s with
  | nil => trivial
  | cons i is ih =>
    obtain ⟨hi,his⟩ := List.forall_mem_cons.mp h
    exact ⟨hi,ih his⟩

/-- The rule for invariants: a property that every step meeting `G` keeps holds after every run
whose steps all meet `G`. -/
theorem after_of_always {P : σ → Prop} (hstep : ∀s i,P s → G s i → P (step s i).1)
    {s : σ} {is : List ι} (hs : P s) (h : Always step G s is) : P (after step s is) := by
  induction is generalizing s with
  | nil => exact hs
  | cons i is ih => exact ih (hstep s i hs h.1) h.2

/-- The rule for steps: what an invariant and `G` say of a single step holds of every step of the
run. -/
theorem always_of_always {P : σ → Prop} {C : σ → ι → Prop}
    (hstep : ∀s i,P s → G s i → C s i ∧ P (step s i).1) {s : σ} {is : List ι} (hs : P s)
    (h : Always step G s is) : Always step C s is := by
  induction is generalizing s with
  | nil => trivial
  | cons i is ih =>
    obtain ⟨hc,hn⟩ := hstep s i hs h.1
    exact ⟨hc,ih hn h.2⟩

theorem always_and {H : σ → ι → Prop} {s : σ} {is : List ι} :
    Always step (fun s i => G s i ∧ H s i) s is ↔ Always step G s is ∧ Always step H s is := by
  induction is generalizing s with
  | nil => simp [Always]
  | cons i is ih =>
    simp only [Always,ih]
    exact and_and_and_comm

/-- The rule for conditions: where, under an invariant and in runs that meet `R`, single steps meet
`C` exactly if they meet `G`, which also keeps the invariant, so do whole runs. -/
theorem always_iff {P : σ → Prop} {R C : σ → ι → Prop}
    (hstep : ∀s i,P s → R s i → (C s i ↔ G s i) ∧ (G s i → P (step s i).1)) {s : σ} {is : List ι}
    (hs : P s) (hR : Always step R s is) : Always step C s is ↔ Always step G s is := by
  induction is generalizing s with
  | nil => exact Iff.rfl
  | cons i is ih =>
    obtain ⟨hiff,hnext⟩ := hstep s i hs hR.1
    simp only [Always,hiff]
    constructor
    · intro ⟨hg,h⟩
      exact ⟨hg,(ih (hnext hg) hR.2).mp h⟩
    · intro ⟨hg,h⟩
      exact ⟨hg,(ih (hnext hg) hR.2).mpr h⟩

/-- A condition on the steps of a run is one on what each of them comes after. -/
theorem always_iff_split {s : σ} {is : List ι} :
    Always step G s is ↔ ∀past i rest,is=past++i::rest → G (after step s past) i := by
  induction is generalizing s with
  | nil =>
    refine ⟨fun _ past i rest h => ?_,fun _ => trivial⟩
    exact absurd h.symm (List.append_ne_nil_of_right_ne_nil past (List.cons_ne_nil i rest))
  | cons j is ih =>
    simp only [Always,ih]
    constructor
    · rintro ⟨hj,his⟩ past i rest h
      cases past with
      | nil =>
        obtain ⟨rfl,rfl⟩ := List.cons.inj h
        exact hj
      | cons k past =>
        obtain ⟨rfl,rfl⟩ := List.cons.inj h
        exact his past i rest rfl
    · intro h
      exact ⟨h [] j is rfl,fun past i rest his => h (j::past) i rest (congrArg (j::·) his)⟩

theorem after_of_step {P : σ → Prop} (hstep : ∀s i,P s → P (step s i).1) {s : σ} (hs : P s)
    (is : List ι) : P (after step s is) := by
  induction is generalizing s with
  | nil => exact hs
  | cons i is ih => exact ih (hstep s i hs)

/-- The rule for outputs: where, under an invariant `P` and a condition `R` on the steps, every
single output meets `Q` exactly if its step meets `G`, all outputs of a run do exactly if all its
steps do. -/
theorem forall_outs_iff {P : σ → Prop} {R : σ → ι → Prop} {Q : ω → Prop}
    (hstep : ∀s i,P s → R s i → (Q (step s i).2 ↔ G s i) ∧ P (step s i).1)
    {s : σ} {is : List ι} (hs : P s) (hR : Always step R s is) :
    (∀o∈outs step s is,Q o) ↔ Always step G s is := by
  induction is generalizing s with
  | nil => simp [Always]
  | cons i is ih =>
    obtain ⟨hiff,hnext⟩ := hstep s i hs hR.1
    simp only [outs_cons,List.forall_mem_cons,hiff,ih hnext hR.2,Always]

end Runs

section Lockstep

variable {τ : Type*} (f : σ → ι → σ × ω) (g : τ → ι → τ × ω)

/-- Two machines that are given the same inputs. -/
def together (s : σ × τ) (i : ι) : (σ × τ) × (ω × ω) :=
  (((f s.1 i).1,(g s.2 i).1),((f s.1 i).2,(g s.2 i).2))

/-- A condition on the first machine alone. -/
theorem always_together_fst {H : σ → ι → Prop} {s : σ} {is : List ι} (h : Always f H s is) (t : τ) :
    Always (together f g) (fun s i => H s.1 i) (s,t) is := by
  induction is generalizing s t with
  | nil => trivial
  | cons i is ih => exact ⟨h.1,ih h.2 _⟩

variable {f g} {R : σ → τ → Prop} {G : σ × τ → ι → Prop}

/-- The rule for simulations: where related states give the same output and related states, on every
input that meets `G`, whole runs give the same outputs. -/
theorem outs_of_lockstep
    (hstep : ∀s t i,R s t → G (s,t) i → (f s i).2=(g t i).2 ∧ R (f s i).1 (g t i).1) {s : σ} {t : τ}
    {is : List ι} (h : R s t) (hG : Always (together f g) G (s,t) is) :
    outs f s is=outs g t is ∧ R (after f s is) (after g t is) := by
  induction is generalizing s t with
  | nil => exact ⟨rfl,h⟩
  | cons i is ih =>
    obtain ⟨hout,hnext⟩ := hstep s t i h hG.1
    obtain ⟨houts,hafter⟩ := ih hnext hG.2
    exact ⟨by rw [outs_cons,outs_cons,hout,houts],hafter⟩

end Lockstep

end Serialmux.Framework

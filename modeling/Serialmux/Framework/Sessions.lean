import Mathlib.Computability.Language
import Mathlib.Order.CompletePartialOrder
import Serialmux.Framework.Machine

namespace Serialmux.Framework

open scoped Computability

section Sessions

variable {α : Type*} (a b c : α)

/-- Words made of sessions: each opens with `a`, goes on with any number of `b`s and may end
with `c`. -/
def sessions : Language α := ({[a]} * {[b]}∗ * (1 + {[c]}))∗

/-- Words whose last session is still open. -/
def openSessions : Language α := sessions a b c * ({[a]} * {[b]}∗)

/-- Whether a word that has been said so far leaves a session open. -/
def Tracks (isOpen : Bool) (w : List α) : Prop :=
  if isOpen then w∈openSessions a b c else w∈sessions a b c

/-- Saying `u` leads from one such state to another, whatever was said before. -/
def Leads (o o' : Bool) (u : List α) : Prop := ∀w,Tracks a b c o w → Tracks a b c o' (w++u)

variable {a b c}

theorem openSessions_le {l : Language α} (h : l ≤ 1 + {[c]}) :
    openSessions a b c * l ≤ sessions a b c := by
  unfold openSessions
  rw [mul_assoc]
  calc sessions a b c * ({[a]} * {[b]}∗ * l)
      ≤ sessions a b c * ({[a]} * {[b]}∗ * (1 + {[c]})) := by gcongr
    _ ≤ sessions a b c := kstar_mul_le_kstar

theorem Tracks.word {o : Bool} {w : List α} (h : Tracks a b c o w) : w∈sessions a b c := by
  cases o with
  | false => exact h
  | true =>
    have hle : openSessions a b c * 1 ≤ sessions a b c := openSessions_le le_self_add
    rw [mul_one] at hle
    exact hle h

theorem Tracks.nil : Tracks a b c false [] := Language.nil_mem_kstar _

namespace Leads

theorem rest (o : Bool) : Leads a b c o o [] := by
  intro w h
  rwa [List.append_nil]

theorem trans {o o' o'' : Bool} {u v : List α} (hu : Leads a b c o o' u)
    (hv : Leads a b c o' o'' v) : Leads a b c o o'' (u++v) := by
  intro w h
  rw [← List.append_assoc]
  exact hv _ (hu w h)

theorem opens : Leads a b c false true [a] := by
  intro w h
  have hnil : [a]∈({[a]} * {[b]}∗ : Language α) :=
    Language.append_mem_mul (a := [a]) (b := []) rfl (Language.nil_mem_kstar _)
  exact Language.append_mem_mul h hnil

theorem goesOn {u : List α} (hu : ∀x∈u,x=b) : Leads a b c true true u := by
  have hbody : u∈({[b]}∗ : Language α) := by
    refine Language.mem_kstar.mpr ⟨u.map ([·]),(List.flatMap_singleton' u).symm,?_⟩
    intro y hy
    obtain ⟨x,hx,rfl⟩ := List.mem_map.mp hy
    rw [hu x hx]
    rfl
  have hle : openSessions a b c * {[b]}∗ ≤ openSessions a b c := by
    unfold openSessions
    rw [mul_assoc,mul_assoc,kstar_mul_kstar]
  intro w h
  exact hle (Language.append_mem_mul h hbody)

theorem ends : Leads a b c true false [] := by
  intro w h
  rw [List.append_nil]
  exact h.word

theorem closes : Leads a b c true false [c] := by
  intro w h
  have hle : openSessions a b c * {[c]} ≤ sessions a b c := openSessions_le le_add_self
  exact hle (Language.append_mem_mul h rfl)

end Leads

end Sessions

section Traces

variable {σ ι ω α : Type*} (step : σ → ι → σ × ω) (letters : σ → ι → List α)

/-- Everything that is said along a run. -/
def trace : σ → List ι → List α
  | _,[] => []
  | s,i::is => letters s i++trace (step s i).1 is

/-- The rule for grammars: where every step of a run leads from the state it is taken in to the
next, the whole run is a word of sessions. -/
theorem trace_mem_sessions {a b c : α} {isOpen : σ → Bool} {G : σ → ι → Prop}
    (hstep : ∀s i,G s i → Leads a b c (isOpen s) (isOpen (step s i).1) (letters s i))
    {s : σ} {is : List ι} (hs : isOpen s=false) (hG : Always step G s is) :
    trace step letters s is∈sessions a b c := by
  have hrun : ∀is s,Always step G s is →
      Leads a b c (isOpen s) (isOpen (after step s is)) (trace step letters s is) := by
    intro is
    induction is with
    | nil =>
      intro s _
      exact .rest _
    | cons i is ih =>
      intro s h
      exact (hstep s i h.1).trans (ih _ h.2)
  have hnil : Tracks a b c (isOpen s) [] := by
    rw [hs]
    exact .nil
  exact (hrun is s hG [] hnil).word

end Traces

end Serialmux.Framework

import Mathlib.Data.List.Basic
import Mathlib.Logic.Function.Basic
import Mathlib.Tactic.Common

namespace Serialmux.Framework

variable {ι α : Type} [DecidableEq ι]

/-- Several senders put their sequences into one queue. The scheduler picks any sender that has
something left, any number of times, until all are done. -/
inductive Interleaves : (ι → List α) → List α → Prop
  | done {src : ι → List α} (h : ∀i,src i=[]) : Interleaves src []
  | take {src : ι → List α} {queue rest : List α} {a : α} (i : ι) (h : src i=a::rest)
    (next : Interleaves (Function.update src i rest) queue) : Interleaves src (a::queue)

namespace Interleaves

variable {src : ι → List α} {queue : List α}

theorem mem (h : Interleaves src queue) : ∀a∈queue,∃i,a∈src i := by
  induction h with
  | done => simp
  | take i hi _ ih =>
    intro x hx
    rcases List.mem_cons.mp hx with rfl|hx
    · exact ⟨i,by rw [hi]; exact List.mem_cons_self⟩
    · obtain ⟨j,hj⟩ := ih x hx
      by_cases hji : j=i
      · subst hji
        rw [Function.update_self] at hj
        exact ⟨j,by rw [hi]; exact List.mem_cons_of_mem _ hj⟩
      · rw [Function.update_of_ne hji] at hj
        exact ⟨j,hj⟩

/-- Items that name their sender: what the queue holds of one sender is its sequence, in order. -/
theorem filter (h : Interleaves src queue) (key : α → ι) (hkey : ∀i,∀a∈src i,key a=i) (i : ι) :
    queue.filter (fun a => key a=i)=src i := by
  induction h with
  | done hsrc => rw [hsrc]; rfl
  | @take src queue rest a j hj _ ih =>
    have ha : key a=j := hkey j a (by rw [hj]; exact List.mem_cons_self)
    have hrest : ∀k,∀x∈Function.update src j rest k,key x=k := by
      intro k x hx
      by_cases hk : k=j
      · subst hk
        rw [Function.update_self] at hx
        exact hkey k x (by rw [hj]; exact List.mem_cons_of_mem _ hx)
      · rw [Function.update_of_ne hk] at hx
        exact hkey k x hx
    rw [List.filter_cons,ih hrest]
    by_cases hi : i=j
    · subst hi
      rw [if_pos (by simpa using ha),Function.update_self,hj]
    · rw [if_neg (by rw [ha]; simpa using fun h => hi h.symm),Function.update_of_ne hi]

/-- A queue whose items are tagged with their senders is made of what the senders put into it. -/
theorem of_tagged (l : List (ι × α)) :
    Interleaves (fun i => (l.filter (·.1=i)).map (·.2)) (l.map (·.2)) := by
  induction l with
  | nil => exact .done (fun _ => rfl)
  | cons p l ih =>
    have hself : ((p::l).filter (·.1=p.1)).map (·.2)=p.2::(l.filter (·.1=p.1)).map (·.2) := by simp
    refine .take p.1 hself ?_
    have hrest : Function.update (fun i => ((p::l).filter (·.1=i)).map (·.2)) p.1
        ((l.filter (·.1=p.1)).map (·.2))=fun i => (l.filter (·.1=i)).map (·.2) := by
      funext i
      by_cases hi : i=p.1
      · rw [hi,Function.update_self]
      · rw [Function.update_of_ne hi]
        simp [Ne.symm hi]
    rw [hrest]
    exact ih

end Interleaves

end Serialmux.Framework

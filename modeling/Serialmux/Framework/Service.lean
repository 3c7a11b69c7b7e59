import Mathlib.Tactic.Common

namespace Serialmux.Framework

/-- What a step means for a queue and the task that serves it: items arrive, the task takes one, it
finishes the one it has taken, or it is told to end, which it notices only while it waits. -/
inductive ServiceMark where
  | arrive (n : Nat)
  | take
  | finish
  | abort
  | other
  deriving DecidableEq

inductive Server where
  | waiting
  | busy
  | gone
  deriving DecidableEq

def Server.isBusy : Server → Bool
  | .busy => true
  | _ => false

/-- How many items still wait for their turn, and where the task stands. -/
structure Service where
  owed : Nat
  server : Server
  deriving DecidableEq

namespace Service

def start : Service := ⟨0,.waiting⟩

/-- Each turn of the task, from a take to the finish, settles one item that had arrived before it. -/
def next (s : Service) : ServiceMark → Service
  | .arrive n => {s with owed := s.owed+n}
  | .take => if s.server=.waiting ∧ 0 < s.owed then {s with server := .busy} else s
  | .finish => if s.server=.busy then ⟨s.owed-1,.waiting⟩ else s
  | .abort => if s.server=.waiting then {s with server := .gone} else s
  | .other => s

/-- What a schedule leaves unsettled. -/
def owes (ms : List ServiceMark) : Nat := (ms.foldl next start).owed

def arrivals : List ServiceMark → Nat
  | [] => 0
  | .arrive n::ms => n+arrivals ms
  | _::ms => arrivals ms

/-- The complete turns before the first abort, the first of which may have begun already. -/
def turns : Bool → List ServiceMark → Nat
  | _,[] => 0
  | _,.abort::_ => 0
  | false,.take::ms => turns true ms
  | true,.finish::ms => turns false ms+1
  | busy,_::ms => turns busy ms

/-- From every moment on there are at least as many turns as items arrive. -/
def Enough (ms : List ServiceMark) : Prop := ∀past rest,ms=past++rest → arrivals rest ≤ turns false rest

theorem Enough.tail {m : ServiceMark} {ms : List ServiceMark} (h : Enough (m::ms)) : Enough ms :=
  fun past rest hms => h (m::past) rest (congrArg (m::·) hms)

/-- Without arrivals a task that is gone leaves nothing behind it did not find. -/
theorem gone_owes {s : Service} {ms : List ServiceMark} (hg : s.server=.gone) (hs : s.owed=0)
    (ha : arrivals ms=0) : (ms.foldl next s).owed=0 := by
  induction ms generalizing s with
  | nil => exact hs
  | cons m ms ih =>
    cases m with
    | arrive n =>
      simp only [arrivals,Nat.add_eq_zero_iff] at ha
      exact ih hg (by simp [next,hs,ha.1]) ha.2
    | take => exact ih (by simp [next,hg]) (by simp [next,hg,hs]) ha
    | finish => exact ih (by simp [next,hg]) (by simp [next,hg,hs]) ha
    | abort => exact ih (by simp [next,hg]) (by simp [next,hg,hs]) ha
    | other => exact ih hg hs ha

/-- The induction over a schedule: what is owed now and what arrives later is covered by turns. -/
theorem covered_owes {s : Service} {ms : List ServiceMark} (he : Enough ms)
    (hg : s.server≠.gone) (hb : s.server=.busy → 0 < s.owed)
    (hc : s.owed+arrivals ms ≤ turns s.server.isBusy ms) : (ms.foldl next s).owed=0 := by
  induction ms generalizing s with
  | nil =>
    simp only [arrivals,turns] at hc
    exact Nat.eq_zero_of_le_zero hc
  | cons m ms ih =>
    obtain ⟨owed,server⟩ := s
    rw [List.foldl_cons]
    cases m with
    | arrive n =>
      have hturns : turns server.isBusy (.arrive n::ms)=turns server.isBusy ms := by
        cases server <;> rfl
      simp only [arrivals,hturns] at hc
      refine ih he.tail hg ?_ ?_
      · exact fun h => Nat.lt_of_lt_of_le (hb h) (Nat.le_add_right owed n)
      · exact Nat.le_trans (Nat.le_of_eq (Nat.add_assoc owed n (arrivals ms))) hc
    | take =>
      cases server with
      | gone => exact absurd rfl hg
      | busy => exact ih he.tail hg hb hc
      | waiting =>
        cases owed with
        | zero =>
          have hidle : next ⟨0,.waiting⟩ .take=⟨0,.waiting⟩ := by simp [next]
          have hrest : arrivals ms ≤ turns false ms := he [.take] ms rfl
          rw [hidle]
          exact ih he.tail hg hb (by simpa [Server.isBusy] using hrest)
        | succ n =>
          have hnext : next ⟨n+1,.waiting⟩ .take=⟨n+1,.busy⟩ := by simp [next]
          rw [hnext]
          exact ih he.tail (by simp) (fun _ => Nat.succ_pos n) hc
    | finish =>
      cases server with
      | gone => exact absurd rfl hg
      | waiting => exact ih he.tail hg hb hc
      | busy =>
        have hnext : next ⟨owed,.busy⟩ .finish=⟨owed-1,.waiting⟩ := by simp [next]
        have hpos : 0 < owed := hb rfl
        have hsettled : owed-1+arrivals ms ≤ turns false ms := by
          have hall : owed+arrivals ms ≤ turns false ms+1 := hc
          omega
        rw [hnext]
        exact ih he.tail (by simp) (by simp) hsettled
    | abort =>
      have hturns : turns server.isBusy (.abort::ms)=0 := by
        cases server <;> rfl
      simp only [arrivals,hturns] at hc
      have howed : owed=0 := by omega
      cases server with
      | gone => exact absurd rfl hg
      | busy => exact absurd (hb rfl) (by simp [howed])
      | waiting => exact gone_owes (by simp [next]) (by simp [next,howed]) (by omega)
    | other =>
      have hturns : turns server.isBusy (.other::ms)=turns server.isBusy ms := by
        cases server <;> rfl
      rw [hturns] at hc
      exact ih he.tail hg hb hc

/-- With enough turns nothing is left unsettled. -/
theorem owes_eq_zero {ms : List ServiceMark} (h : Enough ms) : owes ms=0 :=
  covered_owes h (by simp [start]) (by simp [start])
    (by simpa [start,Server.isBusy] using h [] ms rfl)

end Service

end Serialmux.Framework

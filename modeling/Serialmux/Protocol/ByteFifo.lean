import Serialmux.Framework.Machine
import Serialmux.Protocol.TxQueue

namespace Serialmux.Protocol

open Framework

/-- The calls that a transmit queue takes. -/
inductive QueueCall
  | enqueue (data : List UInt8)
  | drainToFd (w : WriteResult)
  | reset
  deriving DecidableEq

/-- What a call answers. A drain gives the bytes that `write()` took and the result, where `none` is
a real write error. -/
inductive QueueReply
  | done
  | drained (written : List UInt8) (result : Option Bool)
  deriving DecidableEq

/-- A FIFO of at most `cap` bytes, as its callers see it. -/
def fifoStep (cap : Nat) (xs : List UInt8) : QueueCall → List UInt8 × QueueReply
  | .enqueue data => (if data.length ≤ cap-xs.length then xs++data else xs,.done)
  | .drainToFd w =>
    if xs=[] then (xs,.drained [] (some true))
    else
      match w with
      | .again => (xs,.drained [] (some false))
      | .error => (xs,.drained [] none)
      | .wrote n => (xs.drop n,.drained (xs.take n) (some (xs.drop n).isEmpty))
  | .reset => ([],.done)

namespace TxQueue

def step (q : TxQueue) : QueueCall → TxQueue × QueueReply
  | .enqueue data => (q.enqueue data,.done)
  | .drainToFd w => ((q.drainToFd w).queue,.drained (q.drainToFd w).written (q.drainToFd w).result)
  | .reset => (q.reset,.done)

/-- The bytes that `drain_to_fd` offers to `write()`. -/
def segment (q : TxQueue) : List UInt8 := (q.buf.drop q.head).take q.avail

/-- `write()` takes at most what it is offered. -/
def Answered (q : TxQueue) : QueueCall → Prop
  | .drainToFd (.wrote n) => n≤q.segment.length
  | _ => True

instance (q : TxQueue) (c : QueueCall) : Decidable (q.Answered c) := by
  unfold Answered
  split <;> infer_instance

/-- Head, tail and the number of queued bytes are in their bounds. -/
structure Bounded (q : TxQueue) : Prop where
  head : q.head<linkTxbufSize
  tail : q.tail<linkTxbufSize
  used : q.used=q.contents.length
  room : q.used≤linkTxbufSize-1

/-- What a call does beyond its effect on the contents. -/
structure Serves (q : TxQueue) (c : QueueCall) : Prop where
  bounded : q.Bounded
  /-- A frame that does not fit changes nothing, not even the free cells. -/
  dropped : ∀data,c=.enqueue data → linkTxbufSize-1-q.used<data.length → (q.step c).1=q
  /-- What `write()` is offered is the front of the queue and lies inside the store. -/
  offered : q.contents≠[] → q.segment≠[] ∧ q.segment<+:q.contents ∧
    q.head+q.segment.length≤q.buf.length
  failed : c=.drainToFd .error → (q.step c).1=q
  emptied : ∀w,c=.drainToFd w →
    ((q.drainToFd w).result=some true ↔ (q.drainToFd w).queue.contents=[])

theorem bounded (q : TxQueue) : q.Bounded :=
  ⟨q.headLt,q.tailLt,q.contents_length.symm,Nat.le_sub_one_of_lt q.used_lt⟩

theorem segment_length (q : TxQueue) : q.segment.length=q.avail := by
  have ha := q.avail_le_used.2
  have hs := q.size
  rw [segment,List.length_take,List.length_drop]
  omega

theorem segment_eq_take (q : TxQueue) : q.segment=q.contents.take q.avail := by
  have ha := q.avail_le_used
  have hu := q.used_lt
  have hs := q.size
  rw [segment,contents]
  exact take_drop_eq_window q.buf q.head q.used q.avail (by omega) (by omega) (by omega)

theorem avail_pos (q : TxQueue) (h : q.contents≠[]) : 0<q.avail := by
  have hh := q.headLt
  have hne : q.head≠q.tail := by
    intro he
    exact h (q.isEmpty_iff.mp (by simp [isEmpty,he]))
  rw [avail]
  split_ifs <;> omega

/-- The segment is cut from the queue's front. -/
theorem segment_offered (q : TxQueue) (h : q.contents≠[]) :
    q.segment≠[] ∧ q.segment<+:q.contents ∧ q.head+q.segment.length≤q.buf.length := by
  have ha := q.avail_pos h
  have hl := q.segment_length
  refine ⟨?_,?_,?_⟩
  · intro he
    rw [he] at hl
    simp only [List.length_nil] at hl
    omega
  · rw [segment_eq_take]
    exact List.take_prefix _ _
  · rw [hl,q.size]
    exact q.avail_le_used.2

theorem overflows_iff (q : TxQueue) (data : List UInt8) :
    q.overflows data=true ↔ linkTxbufSize-1-q.used<data.length := by
  simp [overflows]

/-- A call of the queue is a call of the FIFO. -/
theorem step_fifo (q : TxQueue) (c : QueueCall) (h : q.Answered c) :
    (q.step c).2=(fifoStep (linkTxbufSize-1) q.contents c).2 ∧
    (q.step c).1.contents=(fifoStep (linkTxbufSize-1) q.contents c).1 := by
  cases c with
  | enqueue data =>
    refine ⟨rfl,?_⟩
    have hov := q.overflows_iff data
    simp only [step,fifoStep,contents_length]
    split_ifs with hfit
    · refine q.enqueue_contents data (Bool.eq_false_iff.mpr fun hd => ?_)
      exact absurd (hov.mp hd) (Nat.not_lt.mpr hfit)
    · rw [q.enqueue_overflow data (hov.mpr (by omega))]
  | reset => exact ⟨rfl,q.reset_contents⟩
  | drainToFd w =>
    by_cases hne : q.contents=[]
    · have he := q.isEmpty_iff.mpr hne
      have hd : q.drainToFd w=⟨q,[],some true⟩ := by
        unfold drainToFd
        exact if_pos he
      simp [step,fifoStep,hd,hne]
    have he : ¬q.isEmpty=true := fun he => hne (q.isEmpty_iff.mp he)
    cases w with
    | again =>
      have hd : q.drainToFd .again=⟨q,[],some false⟩ := by rw [drainToFd,if_neg he]
      simp [step,fifoStep,hd,hne]
    | error =>
      have hd : q.drainToFd .error=⟨q,[],none⟩ := by rw [drainToFd,if_neg he]
      simp [step,fifoStep,hd,hne]
    | wrote n =>
      have hn : n≤q.avail := q.segment_length ▸ h
      have ha := q.avail_le_used.1
      have hd : q.drainToFd (.wrote n)=
          ⟨q.advance n,(q.buf.drop q.head).take n,some (q.advance n).isEmpty⟩ := by
        rw [drainToFd,if_neg he]
        simp only [Nat.min_eq_left hn]
      have hc := q.advance_contents (k := n) (by omega)
      have hw : (q.buf.drop q.head).take n=q.contents.take n := by
        have hseg := congrArg (List.take n) q.segment_eq_take
        rwa [segment,List.take_take,List.take_take,Nat.min_eq_left hn] at hseg
      have hb : (q.advance n).isEmpty=(q.contents.drop n).isEmpty := by
        rw [Bool.eq_iff_iff,isEmpty_iff,hc,List.isEmpty_iff]
      simp [step,fifoStep,hd,hne,hc,hw,hb]

theorem step_serves (q : TxQueue) (c : QueueCall) : q.Serves c where
  bounded := q.bounded
  dropped data hc hov := by
    rw [hc]
    exact q.enqueue_overflow data ((q.overflows_iff data).mpr hov)
  offered := q.segment_offered
  failed hc := by
    rw [hc]
    simp only [step,drainToFd]
    split_ifs <;> rfl
  emptied w _ := q.drainToFd_result w

/-- From `new`, the queue is a FIFO of `LINK_TXBUF_SIZE - 1` bytes: every sequence of calls has the
replies of the FIFO and leaves its contents, every call keeps the bounds, drops a frame that does
not fit without a change and offers `write()` a segment of the store that is the queue's front. -/
theorem calls_fifo (calls : List QueueCall) (h : Always step Answered new calls) :
    outs step new calls=outs (fifoStep (linkTxbufSize-1)) [] calls ∧
    (after step new calls).contents=after (fifoStep (linkTxbufSize-1)) [] calls ∧
    (after step new calls).Bounded ∧ Always step Serves new calls := by
  have hR := always_together_fst step (fifoStep (linkTxbufSize-1)) h []
  have hlock := outs_of_lockstep (R := fun q xs => q.contents=xs)
    (f := step) (g := fifoStep (linkTxbufSize-1)) (G := fun s c => s.1.Answered c)
    (fun q xs c hxs hc => hxs ▸ q.step_fifo c hc) new_contents hR
  refine ⟨hlock.1,hlock.2,bounded _,?_⟩
  exact always_of_always step (P := fun _ => True) (fun q c _ _ => ⟨q.step_serves c,trivial⟩) trivial h

theorem calls_fifo_partial :
    Always step Answered new [.enqueue [1,2,3],.drainToFd (.wrote 1),.drainToFd .error,.reset] ∧
    (after step new [.enqueue [1,2,3],.drainToFd (.wrote 1),.drainToFd .error,.reset]).Bounded := by
  have h : Always step Answered new
      [.enqueue [1,2,3],.drainToFd (.wrote 1),.drainToFd .error,.reset] := by
    have hc := new.enqueue_contents [1,2,3] (by decide)
    have hne : (new.enqueue [1,2,3]).contents≠[] := by simp [hc]
    have hseg : (new.enqueue [1,2,3]).Answered (.drainToFd (.wrote 1)) :=
      List.length_pos_iff.mpr (segment_offered _ hne).1
    simp only [Always,step,Answered]
    exact ⟨trivial,hseg,trivial,trivial,trivial⟩
  exact ⟨h,(calls_fifo _ h).2.2.1⟩

end TxQueue

end Serialmux.Protocol

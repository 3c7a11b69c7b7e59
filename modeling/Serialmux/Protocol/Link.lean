import Serialmux.Protocol.TxQueue
import Serialmux.Protocol.Resync

namespace Serialmux.Protocol

open Framework

/-- What can happen on the sending side of the link. -/
inductive LinkOp where
  | send (f : WireFrame)
  | drain (w : WriteResult)

/-- The sending side, with the frames its queue has taken and the bytes it has written so far. -/
structure Sender where
  queue : TxQueue
  accepted : List WireFrame
  written : List UInt8

namespace Sender

variable (crc : List UInt8 → UInt32)

def new : Sender := ⟨TxQueue.new,[],[]⟩

def step (s : Sender) : LinkOp → Sender
  | .send f => {
      queue := s.queue.enqueue (f.build crc)
      accepted := if s.queue.overflows (f.build crc) then s.accepted else s.accepted++[f]
      written := s.written }
  | .drain w => {
      queue := (s.queue.drainToFd w).queue
      accepted := s.accepted
      written := s.written++(s.queue.drainToFd w).written }

def run (s : Sender) (ops : List LinkOp) : Sender := ops.foldl (step crc) s

/-- Written and queued bytes together are the encoding of the accepted frames. -/
def Intact (s : Sender) : Prop := s.written++s.queue.contents=encodeAll crc s.accepted

theorem encodeAll_concat (F : List WireFrame) (f : WireFrame) :
    encodeAll crc (F++[f])=encodeAll crc F++f.build crc := by
  simp [encodeAll]

theorem step_intact (s : Sender) (op : LinkOp) (h : s.Intact crc) : (s.step crc op).Intact crc := by
  unfold Intact at h ⊢
  cases op with
  | send f =>
    cases ho : s.queue.overflows (f.build crc) with
    | true =>
      simp only [step,ho,if_true,TxQueue.enqueue_overflow _ _ ho]
      exact h
    | false =>
      simp only [step,ho,Bool.false_eq_true,if_false]
      rw [TxQueue.enqueue_contents _ _ ho,← List.append_assoc,h,encodeAll_concat]
  | drain w =>
    simp only [step,List.append_assoc,TxQueue.drainToFd_contents]
    exact h

theorem run_intact (s : Sender) (ops : List LinkOp) (h : s.Intact crc) :
    (s.run crc ops).Intact crc := by
  induction ops generalizing s with
  | nil => exact h
  | cons op ops ih => exact ih _ (step_intact crc s op h)

theorem new_intact : new.Intact crc := by
  simp only [Intact,new,TxQueue.new_contents]
  rfl

/-- Link integrity: however sends and partial writes interleave and however the written bytes are
cut on the way, a fresh parser delivers a prefix of the accepted frames, and all of them with
nothing kept back once the queue has been drained. -/
theorem link_integrity (ops : List LinkOp) (cs : List (List UInt8))
    (hcs : cs.flatten=(new.run crc ops).written) :
    (FrameParser.new.feedAll crc cs).frames <+:
        (new.run crc ops).accepted.map WireFrame.toFrame ∧
    ((new.run crc ops).queue.isEmpty=true →
      (FrameParser.new.feedAll crc cs).frames=(new.run crc ops).accepted.map WireFrame.toFrame ∧
      (FrameParser.new.feedAll crc cs).parser.buf=[]) := by
  have hi := run_intact crc new ops (new_intact crc)
  obtain ⟨h1,h2,-⟩ := FrameParser.feedAll_correct crc _ (FrameParser.new_waiting crc) cs
  have hall := drain_encodeAll crc (new.run crc ops).accepted []
  have hnil : (frameDecoder crc).drain () []=([],(),[]) := Decoder.drain_wait _ rfl
  rw [hnil,List.append_nil,List.append_nil] at hall
  change _=((frameDecoder crc).drain () cs.flatten).1 at h1
  change _=((frameDecoder crc).drain () cs.flatten).2.2 at h2
  rw [hcs] at h1 h2
  rw [Intact] at hi
  constructor
  · rw [h1,← hall.1,← hi]
    exact Decoder.drain_prefix _ () (List.prefix_append _ _)
  · intro he
    rw [(TxQueue.isEmpty_iff _).mp he,List.append_nil] at hi
    rw [h1,h2,hi,hall.1,hall.2]
    exact ⟨rfl,rfl⟩

/-- One frame, sent, and written in two pieces around an EAGAIN. -/
def probeOps : List LinkOp :=
  [.send probeFrame,.drain (.wrote 3),.drain .again,.drain (.wrote 100)]

theorem link_integrity_probe :
    (FrameParser.new.feedAll crc32 [(new.run crc32 probeOps).written]).frames <+:
      (new.run crc32 probeOps).accepted.map WireFrame.toFrame :=
  (link_integrity crc32 probeOps [(new.run crc32 probeOps).written] (by simp)).1

end Sender

end Serialmux.Protocol

import Serialmux.Framework.Machine
import Serialmux.EventLoop.Fifo

namespace Serialmux.EventLoop

open Framework Protocol Channel

/-- A turn of the running process: one that takes frames as such, or an event of the link fd with
the bytes that the kernel hands over. -/
inductive RunOp (W : Type) where
  | loop (op : LoopOp W)
  | link (now : Instant) (readable writable : Bool) (r : ReadResult 65536) (ios : Nat → Io) (w : W)

namespace Daemon

variable {Q W : Type} (lq : LinkQueue Q W) (crc : List UInt8 → UInt32)

def step (d : Daemon Q) (op : RunOp W) : Daemon Q × Unit :=
  match op with
  | .loop op => (loop lq d op,())
  | .link now readable writable r ios w => (linkEvent lq crc d now readable writable r ios w,())

/-- The rule for events of the link: what does not depend on the parser and the clock of the link,
and is kept by the arrival of a frame, a write and a close, is kept by every such event. -/
theorem linkEvent_induct {P : Daemon Q → Prop}
    (hreceive : ∀d now io f,P d → P (receive lq d now io f))
    (hsend : ∀d now w,P d → P (linkWrite lq d now w))
    (hclose : ∀d now,P d → P (closeLink lq d now))
    (hparser : ∀d p t,P d → P {d with parser := p, lastRx := t}) {d : Daemon Q} (h : P d)
    (now : Instant) (readable writable : Bool) (r : ReadResult 65536) (ios : Nat → Io) (w : W) :
    P (linkEvent lq crc d now readable writable r ios w) := by
  have hread : P (linkRead lq crc d now r ios) := by
    by_cases hfd : d.linkFd=none
    · rwa [linkRead.eq_def,if_pos hfd]
    · cases r with
      | wouldBlock => rwa [linkRead,if_neg hfd]
      | error e =>
        rw [linkRead,if_neg hfd]
        exact hclose d now h
      | data bs hn =>
        cases bs with
        | nil => rwa [linkRead,if_neg hfd]
        | cons b bs =>
          rw [linkRead_receive lq crc d now hn (List.cons_ne_nil b bs) ios hfd]
          generalize (d.parser.feed crc (b::bs)).frames.zipIdx=ps
          have hstart := hparser d (d.parser.feed crc (b::bs)).parser (some now) h
          generalize {d with lastRx := some now, parser := (d.parser.feed crc (b::bs)).parser}=d'
            at hstart ⊢
          induction ps generalizing d' with
          | nil => exact hstart
          | cons p ps ih => exact ih _ (hreceive d' now (ios p.2) p.1 hstart)
  unfold linkEvent
  cases readable with
  | false =>
    cases writable with
    | false => exact h
    | true => exact hsend d now w h
  | true =>
    cases writable with
    | false => exact hread
    | true => exact hsend _ now w hread

end Daemon

end Serialmux.EventLoop

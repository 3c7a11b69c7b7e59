import Serialmux.EventLoop.Rules

namespace Serialmux.EventLoop

open Protocol Channel

/-- The link queue as the frames it holds, without a bound. A write takes some of them. It stands
for the ring in runs in which the ring refuses nothing. -/
def fifoLink : LinkQueue (List Frame) (Option Nat) where
  new := []
  reset _ := []
  enqueue q f := if f.payload.length ≤ maxPayload then q++[f] else q
  used := wireSize
  isEmpty := List.isEmpty
  drain q w :=
    match q,w with
    | [],_ => ([],some true)
    | f::q,none => (f::q,none)
    | f::q,some n => ((f::q).drop n,some ((f::q).drop n).isEmpty)

namespace Daemon

section Received

variable {Q W : Type} (lq : LinkQueue Q W)

/-- A read of the link comes to the arrival of its frames one by one. -/
theorem dispatchAll_receive (d : Daemon Q) (now : Instant) (ios : Nat → Io) (fs : List Frame)
    (hfd : d.linkFd≠none) (hrx : d.lastRx=some now) :
    dispatchAll lq d now ios fs=
      fs.zipIdx.foldl (fun d p => receive lq d now (ios p.2) p.1) d := by
  unfold dispatchAll
  generalize fs.zipIdx=ps
  induction ps generalizing d with
  | nil => rfl
  | cons p ps ih =>
    have hlink := dispatchFrame_link lq d now (ios p.2) p.1
    simp only [link,Prod.mk.injEq] at hlink
    have hsame : receive lq d now (ios p.2) p.1=dispatchFrame lq d now (ios p.2) p.1 := by
      rw [receive,if_neg hfd,← hrx]
    rw [List.foldl_cons,List.foldl_cons,hsame]
    exact ih _ (hlink.1 ▸ hfd) (hlink.2.2.trans hrx)

theorem linkRead_receive (crc : List UInt8 → UInt32) (d : Daemon Q) (now : Instant)
    {bs : List UInt8} (hn : bs.length≤65536) (hne : bs≠[]) (ios : Nat → Io)
    (hfd : d.linkFd≠none) :
    linkRead lq crc d now (.data bs hn) ios=
      (d.parser.feed crc bs).frames.zipIdx.foldl (fun d p => receive lq d now (ios p.2) p.1)
        {d with lastRx := some now, parser := (d.parser.feed crc bs).parser} := by
  cases bs with
  | nil => exact absurd rfl hne
  | cons b bs =>
    rw [linkRead,if_neg hfd]
    exact dispatchAll_receive lq _ now ios _ hfd rfl

end Received

/-- The frames a turn puts on the link. -/
def puts (d : Daemon (List Frame)) : DaemonOp (Option Nat) → List Frame
  | .send _ w => if d.linkFd=none then [] else d.txq.take (w.getD 0)
  | _ => []

theorem sendAll_fifo {q fs : List Frame} (h : ∀f∈fs,f.payload.length ≤ maxPayload) :
    sendAll fifoLink q fs=q++fs := by
  induction fs generalizing q with
  | nil => simp [sendAll]
  | cons f fs ih =>
    obtain ⟨hf,hfs⟩ := List.forall_mem_cons.mp h
    have henq : fifoLink.enqueue q f=q++[f] := if_pos hf
    rw [sendAll,List.foldl_cons,henq]
    exact (ih hfs).trans (List.append_assoc q [f] fs)

/-- A channel appends its frames. -/
theorem callChannel_txq (d : Daemon (List Frame)) (id : UInt8) (call : Call) :
    (callChannel fifoLink d id call).txq=d.txq++d.channels.frames id call :=
  sendAll_fifo (fun f hf => (d.channels.frames_channelFrame id call f hf).fits)

theorem eachChannel_fifo (d : Daemon (List Frame)) (call : UInt8 → Call) :
    ∃m : ChannelMap,
      eachChannel fifoLink d call={d with
        channels := m
        txq := d.txq++d.channels.keys.flatMap (fun id => d.channels.frames id (call id))} ∧
      m.keys=d.channels.keys ∧
      ∀id,m.get id=(d.channels.get id).map (fun c => (c.apply (call id)).1) := by
  obtain ⟨m,hm,hk,hget⟩ := eachChannel_eq fifoLink d call
  refine ⟨m,?_,hk,hget⟩
  rw [hm,sendAll_fifo]
  intro f hf
  obtain ⟨id,-,hf⟩ := List.mem_flatMap.mp hf
  exact (d.channels.frames_channelFrame id (call id) f hf).fits

/-- The frames the channels greet a new link with. -/
def greetings (m : ChannelMap) : List Frame :=
  m.keys.flatMap (fun id => m.frames id ⟨.onLinkConnect,Io.idle⟩)

theorem connectChannels_fifo (d : Daemon (List Frame)) (now : Instant) :
    ∃m b,connectChannels fifoLink d now={d with
        channels := m, txq := d.txq++greetings d.channels, lastTx := some now, wantWrite := b} ∧
      m.keys=d.channels.keys ∧
      ∀id,m.get id=(d.channels.get id).map (fun c => (c.apply ⟨.onLinkConnect,Io.idle⟩).1) := by
  obtain ⟨m,hm,hk,hget⟩ := eachChannel_fifo d (fun _ => ⟨.onLinkConnect,Io.idle⟩)
  unfold connectChannels touch
  rw [hm]
  obtain ⟨b,hb⟩ := setLinkWriteInterest_eq {d with
    channels := m, txq := d.txq++greetings d.channels, lastTx := some now}
    (!fifoLink.isEmpty (d.txq++greetings d.channels))
  exact ⟨m,b,hb,hk,hget⟩

/-- A frame of the daemon itself is appended while the link is open. -/
theorem enqueueFrame_fifo (d : Daemon (List Frame)) (now : Instant) (ftype : UInt8) :
    enqueueFrame fifoLink d now (controlFrame ftype)=d ∧ (d.disconnected=true ∨ d.linkFd=none) ∨
      ∃b,enqueueFrame fifoLink d now (controlFrame ftype)=
        {d with txq := d.txq++[controlFrame ftype], lastTx := some now, wantWrite := b} := by
  unfold enqueueFrame
  split_ifs with h
  · exact .inl ⟨rfl,h⟩
  · exact .inr (setLinkWriteInterest_eq _ true)

/-- Whatever a write answers, the frames it took are the front of the queue. -/
theorem drain_append (q : List Frame) (w : Option Nat) :
    q.take (w.getD 0)++(fifoLink.drain q w).1=q := by
  cases q with
  | nil => simp [fifoLink]
  | cons f q =>
    cases w with
    | none => rfl
    | some n => exact List.take_append_drop n (f::q)

/-- The calls of channels that a turn makes by itself. -/
def Calls (ok : UInt8 → Call → Prop) : DaemonOp (Option Nat) → Prop
  | .head now _ _ ios => ∀id,ok id ⟨.tick now,ios id⟩
  | .event _ token readable writable io => ∀id,ok id ⟨.handleEvent token readable writable,io⟩
  | _ => True

/-- A property that survives every turn of the daemon but those that send or restart. -/
structure Turns (ok : UInt8 → Call → Prop) (P : Daemon (List Frame) → Prop) : Prop
    extends Kept fifoLink ok P where
  opened : ∀{d : Daemon (List Frame)} {now : Instant} {dev : Option RawFd},P d →
    d.disconnected=true → P (openLink fifoLink d now dev)
  closed : ∀{d : Daemon (List Frame)} {now : Instant},P d → P (closeLink fifoLink d now)
  ping : ∀{d : Daemon (List Frame)} {now : Instant},P d →
    P (enqueueFrame fifoLink d now (controlFrame fPing))

namespace Turns

variable {ok : UInt8 → Call → Prop} {P : Daemon (List Frame) → Prop} (t : Turns ok P)
  {d : Daemon (List Frame)}
include t

/-- A turn keeps `P`, given what is true once a write has drained the queue and after a restart. -/
theorem step {op : DaemonOp (Option Nat)} (hok : Calls ok op)
    (hsend : ∀now w,op=.send now w → d.linkFd≠none → P {d with txq := (fifoLink.drain d.txq w).1})
    (hnew : ∀now ios,op=.restart now ios → P (new fifoLink (d.channels.fresh ios) now))
    (h : d.puts op=[] → P d) : P (d.turn fifoLink op) := by
  cases op with
  | start now dev =>
    simp only [turn]
    split_ifs with hd
    · exact t.opened (h rfl) hd
    · exact h rfl
  | head now later dev ios =>
    exact t.toKept.loopHead hok (h rfl) (t.opened (h rfl)) (fun _ h => t.closed h)
      (fun _ h => t.ping h)
  | event now token readable writable io => exact t.toKept.channelEvent now hok (h rfl)
  | send now w =>
    by_cases hfd : d.linkFd=none
    · have hsame : d.turn fifoLink (.send now w)=d := if_pos hfd
      rw [hsame]
      exact h (if_pos hfd)
    · have hdrain := hsend now w rfl hfd
      exact t.toKept.linkWrite (fun hn => absurd hn hfd) hdrain (t.closed hdrain)
  | readError now =>
    simp only [turn]
    split_ifs
    · exact h rfl
    · exact t.closed (h rfl)
  | restart now ios => exact hnew now ios rfl

end Turns

end Daemon

end Serialmux.EventLoop

import Serialmux.Protocol.Parser
import Serialmux.Channel.Dyn

namespace Serialmux.EventLoop

open Protocol Channel

/-- Maximum time to block in `poll()` before running timers. -/
abbrev maxTick : Nat := secs 1

abbrev kaInterval : Nat := secs 3

abbrev kaTimeout : Nat := secs 10

/-- What the daemon needs of its transmit queue. `enqueue` takes a frame before `build_frame`, and
`drain` answers `none` for a real write error. -/
structure LinkQueue (Q W : Type) where
  new : Q
  reset : Q → Q
  enqueue : Q → Frame → Q
  used : Q → Nat
  isEmpty : Q → Bool
  drain : Q → W → Q × Option Bool

/-- The ring buffer of the link as its queue. -/
def txLink (crc : List UInt8 → UInt32) : LinkQueue TxQueue WriteResult where
  new := TxQueue.new
  reset := TxQueue.reset
  enqueue q f := q.enqueue (f.build crc)
  used := TxQueue.used
  isEmpty := TxQueue.isEmpty
  drain q w := ((q.drainToFd w).queue,(q.drainToFd w).result)

/-- Central event-loop state. `wantWrite` is the write interest of the link fd. -/
structure Daemon (Q : Type) where
  channels : ChannelMap
  txq : Q
  parser : FrameParser
  linkFd : Option RawFd
  linkUp : Bool
  linkBp : Bool
  disconnected : Bool
  reopenAt : Instant
  reopenDelay : Nat
  lastRx : Option Instant
  lastTx : Option Instant
  wantWrite : Bool

namespace Daemon

variable {Q W : Type} (lq : LinkQueue Q W) (crc : List UInt8 → UInt32)

def new (channels : ChannelMap) (now : Instant) : Daemon Q :=
  ⟨channels,lq.new,FrameParser.new,none,false,false,true,now,secs 1/2,none,none,false⟩

/-- A frame of the daemon itself. -/
def controlFrame (ftype : UInt8) : Frame := ⟨ftype,0,[]⟩

def sendAll (q : Q) (fs : List Frame) : Q := fs.foldl lq.enqueue q

/-- A method of one channel, which is given the queue. -/
def callChannel (d : Daemon Q) (id : UInt8) (call : Call) : Daemon Q :=
  {d with channels := d.channels.set id call, txq := sendAll lq d.txq (d.channels.frames id call)}

/-- The same method of every channel in turn. -/
def eachChannel (d : Daemon Q) (call : UInt8 → Call) : Daemon Q :=
  d.channels.keys.foldl (fun d id => callChannel lq d id (call id)) d

def scheduleReopen (d : Daemon Q) (now : Instant) : Daemon Q :=
  {d with reopenAt := now+d.reopenDelay, reopenDelay := min (d.reopenDelay*2) (secs 8)}

/-- No device, a failed open and a failed registration are all retried later. -/
def openLink (d : Daemon Q) (now : Instant) (dev : Option RawFd) : Daemon Q :=
  match dev with
  | none => d.scheduleReopen now
  | some fd => {d with
      linkFd := some fd
      disconnected := false
      reopenDelay := secs 1/2
      linkBp := false
      parser := d.parser.reset
      txq := lq.enqueue (lq.reset d.txq) (controlFrame fHello)
      lastRx := some now
      lastTx := some now
      wantWrite := true}

/-- All channels are resumed if they are paused. -/
def resumeAll (d : Daemon Q) : Daemon Q :=
  if d.linkBp then
    eachChannel lq {d with linkBp := false} (fun _ => ⟨.resumeSourceReads,Io.idle⟩)
  else d

/-- Channels are resumed before they are told. -/
def closeLink (d : Daemon Q) (now : Instant) : Daemon Q :=
  if d.disconnected then d
  else
    (eachChannel lq
      (resumeAll lq {d with
        disconnected := true, linkUp := false, linkFd := none, txq := lq.reset d.txq})
      (fun _ => ⟨.onLinkDisconnect,Io.idle⟩)).scheduleReopen now

def setLinkWriteInterest (d : Daemon Q) (wantWrite : Bool) : Daemon Q :=
  if d.linkFd=none then d else {d with wantWrite := wantWrite}

def enqueueFrame (d : Daemon Q) (now : Instant) (f : Frame) : Daemon Q :=
  if d.disconnected=true ∨ d.linkFd=none then d
  else setLinkWriteInterest {d with txq := lq.enqueue d.txq f, lastTx := some now} true

def checkBpHigh (d : Daemon Q) : Daemon Q :=
  if d.linkBp=false ∧ linkHighWater≤lq.used d.txq then
    eachChannel lq {d with linkBp := true} (fun _ => ⟨.pauseSourceReads,Io.idle⟩)
  else d

/-- What every operation that may have queued something ends with. -/
def touch (d : Daemon Q) (now : Instant) : Daemon Q :=
  setLinkWriteInterest {d with lastTx := some now} (!lq.isEmpty d.txq)

/-- Tell every channel that the link is up. -/
def connectChannels (d : Daemon Q) (now : Instant) : Daemon Q :=
  touch lq (eachChannel lq d (fun _ => ⟨.onLinkConnect,Io.idle⟩)) now

def onLinkUp (d : Daemon Q) (now : Instant) : Daemon Q :=
  if d.linkUp then d else connectChannels lq {d with linkUp := true} now

/-- Bulk data and TCP control frames go to their channel. -/
def routeFrame (d : Daemon Q) (now : Instant) (io : Io) (f : Frame) : Daemon Q :=
  touch lq (callChannel lq
    (if f.ftype=fData ∨ f.ftype=fTdata then checkBpHigh lq d else d)
    f.channel ⟨.onFrame f.ftype f.payload,io⟩) now

def dispatchFrame (d : Daemon Q) (now : Instant) (io : Io) (f : Frame) : Daemon Q :=
  if f.ftype=fPing then enqueueFrame lq d now (controlFrame fPong)
  else if f.ftype=fPong then d
  else if f.ftype=fHello then
    let d := enqueueFrame lq d now (controlFrame fAck)
    -- A peer that has reconnected is told the channel states once more.
    if d.linkUp then connectChannels lq d now else onLinkUp lq d now
  else if f.ftype=fAck then onLinkUp lq d now
  else routeFrame lq d now io f

/-- The frames of one read, each with the kernel's answers to its channel. -/
def dispatchAll (d : Daemon Q) (now : Instant) (ios : Nat → Io) (fs : List Frame) : Daemon Q :=
  fs.zipIdx.foldl (fun d p => dispatchFrame lq d now (ios p.2) p.1) d

/-- A read without data is no end of file on a TTY; a real disconnect is an error. -/
def linkRead (d : Daemon Q) (now : Instant) (r : ReadResult 65536) (ios : Nat → Io) : Daemon Q :=
  if d.linkFd=none then d
  else
    match r with
    | .wouldBlock => d
    | .data [] _ => d
    | .data (b::bs) _ =>
      let fed := d.parser.feed crc (b::bs)
      dispatchAll lq {d with lastRx := some now, parser := fed.parser} now ios fed.frames
    | .error _ => closeLink lq d now

/-- Channel reads resume once the queue has drained to the low-water mark. -/
def resumeIfLow (d : Daemon Q) : Daemon Q :=
  if d.linkBp=true ∧ lq.used d.txq≤linkLowWater then
    eachChannel lq {d with linkBp := false} (fun _ => ⟨.resumeSourceReads,Io.idle⟩)
  else d

/-- An empty queue no longer waits for writability. -/
def disarmIfEmpty (d : Daemon Q) : Daemon Q :=
  if lq.isEmpty d.txq then d.setLinkWriteInterest false else d

def linkWrite (d : Daemon Q) (now : Instant) (w : W) : Daemon Q :=
  if d.linkFd=none then d
  else
    let d' := {d with txq := (lq.drain d.txq w).1}
    if (lq.drain d.txq w).2=none then closeLink lq d' now
    else disarmIfEmpty lq (resumeIfLow lq d')

/-- `now` is the clock of the loop head, `later` the clock when it enqueues. -/
def tickKeepalive (d : Daemon Q) (now later : Instant) : Daemon Q :=
  if d.disconnected then d
  else if d.lastRx.any (fun last => kaTimeout<now-last) then closeLink lq d later
  else if d.linkUp=true ∧ d.lastTx.any (fun lt => kaInterval≤now-lt)=true ∧
      lq.isEmpty d.txq=true then
    enqueueFrame lq d later (controlFrame fPing)
  else d

def reopenIfDue (d : Daemon Q) (now later : Instant) (dev : Option RawFd) : Daemon Q :=
  if d.disconnected=true ∧ d.reopenAt≤now then openLink lq d later dev else d

/-- Frames that the timers have queued count as transmission. -/
def armIfQueued (d : Daemon Q) (later : Instant) : Daemon Q :=
  if lq.isEmpty d.txq then d else setLinkWriteInterest {d with lastTx := some later} true

/-- The head of the main loop: reopen, keepalive and the ticks of the channels. -/
def loopHead (d : Daemon Q) (now later : Instant) (dev : Option RawFd) (ios : UInt8 → Io) :
    Daemon Q :=
  armIfQueued lq
    (eachChannel lq (tickKeepalive lq (reopenIfDue lq d now later dev) now later)
      (fun id => ⟨.tick now,ios id⟩)) later

/-- An event of the link fd; it may be stale, or become so by its own read. -/
def linkEvent (d : Daemon Q) (now : Instant) (readable writable : Bool) (r : ReadResult 65536)
    (ios : Nat → Io) (w : W) : Daemon Q :=
  let d := if readable then linkRead lq crc d now r ios else d
  if writable then linkWrite lq d now w else d

def channelEvent (d : Daemon Q) (now : Instant) (token : Token) (readable writable : Bool)
    (io : Io) : Daemon Q :=
  match channelIdForToken token with
  | none => d
  | some id =>
    touch lq (checkBpHigh lq (callChannel lq d id ⟨.handleEvent token readable writable,io⟩)) now

/-- The time until the next deadline, at most a tick. -/
def nextTimeout (d : Daemon Q) (now : Instant) : Nat :=
  let link : List Instant :=
    if d.disconnected then [d.reopenAt]
    else if d.linkUp then
      (d.lastTx.map (·+kaInterval)).toList++(d.lastRx.map (·+kaTimeout)).toList
    else []
  let timers := d.channels.keys.filterMap
    (fun id => (d.channels.get id).bind DynChannel.nextDeadline)
  (link++timers).foldl min (now+maxTick)-now

/-- The arrival of one frame. -/
def receive (d : Daemon Q) (now : Instant) (io : Io) (f : Frame) : Daemon Q :=
  if d.linkFd=none then d else dispatchFrame lq {d with lastRx := some now} now io f

end Daemon

/-- A turn of the daemon by itself: the open before the main loop, the loop head, and one event; a
process may also end and be started again. -/
inductive DaemonOp (W : Type) where
  | start (now : Instant) (dev : Option RawFd)
  | head (now later : Instant) (dev : Option RawFd) (ios : UInt8 → Io)
  | event (now : Instant) (token : Token) (readable writable : Bool) (io : Io)
  | send (now : Instant) (w : W)
  | readError (now : Instant)
  | restart (now : Instant) (ios : UInt8 → Io)

/-- A turn by itself or the arrival of a frame. -/
inductive LoopOp (W : Type) where
  | turn (op : DaemonOp W)
  | receive (now : Instant) (io : Io) (f : Frame)

namespace Daemon

variable {Q W : Type} (lq : LinkQueue Q W)

def turn (d : Daemon Q) : DaemonOp W → Daemon Q
  | .start now dev => if d.disconnected then openLink lq d now dev else d
  | .head now later dev ios => loopHead lq d now later dev ios
  | .event now token readable writable io => channelEvent lq d now token readable writable io
  | .send now w => linkWrite lq d now w
  | .readError now => if d.linkFd=none then d else closeLink lq d now
  | .restart now ios => new lq (d.channels.fresh ios) now

def loop (d : Daemon Q) : LoopOp W → Daemon Q
  | .turn op => turn lq d op
  | .receive now io f => receive lq d now io f

end Daemon

end Serialmux.EventLoop

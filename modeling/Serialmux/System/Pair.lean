import Serialmux.EventLoop.Fifo

namespace Serialmux.System

open Protocol Channel EventLoop

/-- One side of the link: its daemon and the frames on their way to it. -/
structure Endpoint where
  daemon : Daemon (List Frame)
  incoming : List Frame

/-- A turn of one side. It receives the first frame on the link, and a side whose link is closed may
lose the first of those that are on their way to it. -/
inductive EndpointOp where
  | own (op : DaemonOp (Option Nat))
  | deliver (now : Instant) (io : Io)
  | lose (n : Nat)

namespace Endpoint

/-- The side after a turn, and what it puts on the link. -/
def step (e : Endpoint) : EndpointOp → Endpoint × List Frame
  | .own op => ({e with daemon := e.daemon.turn fifoLink op},e.daemon.puts op)
  | .deliver now io =>
    match e.incoming with
    | [] => (e,[])
    | f::fs =>
      if e.daemon.linkFd=none then (e,[]) else (⟨e.daemon.receive fifoLink now io f,fs⟩,[])
  | .lose n => if e.daemon.disconnected then ({e with incoming := e.incoming.drop n},[]) else (e,[])

end Endpoint

/-- The calls that timers and backpressure make. -/
def Still (c : Call) : Prop :=
  match c.op with
  | .tick _ => True
  | .pauseSourceReads => True
  | .resumeSourceReads => True
  | _ => False

section Effects

variable (id : UInt8)

/-- What a call of channel `id` does to the outside. -/
def effect (m : ChannelMap) (call : Call) : Effect :=
  match m.get id with
  | none => .quiet
  | some c => (c.apply call).2

/-- What an event makes channel `id` read and write. -/
def occurrence (m : ChannelMap) (token : Token) (readable writable : Bool) (io : Io) : Effect :=
  if channelIdForToken token=some id then effect id m ⟨.handleEvent token readable writable,io⟩
  else .quiet

/-- The daemon as a routed frame finds it. -/
def beforeRoute (d : Daemon (List Frame)) (f : Frame) : Daemon (List Frame) :=
  if f.ftype=fData ∨ f.ftype=fTdata then Daemon.checkBpHigh fifoLink d else d

/-- What the arrival of a frame makes channel `id` read and write. -/
def arrival (d : Daemon (List Frame)) (f : Frame) (io : Io) : Effect :=
  if isControl f.ftype=true ∨ f.channel≠id then .quiet
  else effect id (beforeRoute d f).channels ⟨.onFrame f.ftype f.payload,io⟩

/-- What a turn reads and writes at the fd of channel `id`. Neither timers nor changes of the link
touch it. -/
def Endpoint.effectOn (e : Endpoint) : EndpointOp → Effect
  | .own (.event _ token readable writable io) =>
    occurrence id e.daemon.channels token readable writable io
  | .deliver now io =>
    match e.incoming with
    | [] => .quiet
    | f::_ =>
      if e.daemon.linkFd=none then .quiet else arrival id {e.daemon with lastRx := some now} f io
  | _ => .quiet

/-- Whether a turn tells the channels that the link is up. -/
def Endpoint.greets (e : Endpoint) : EndpointOp → Bool
  | .deliver _ _ =>
    match e.incoming with
    | [] => false
    | f::_ => e.daemon.linkFd≠none ∧ (f.ftype=fHello ∨ f.ftype=fAck ∧ e.daemon.linkUp=false)
  | _ => false

/-- Before a frame is routed, a channel may be paused. -/
theorem beforeRoute_get (d : Daemon (List Frame)) (f : Frame) :
    (beforeRoute d f).disconnected=d.disconnected ∧
      ((beforeRoute d f).channels.get id=d.channels.get id ∨
        (beforeRoute d f).channels.get id=
          (d.channels.get id).map (fun c => (c.apply ⟨.pauseSourceReads,Io.idle⟩).1)) := by
  unfold beforeRoute
  split_ifs
  · obtain ⟨m,bp,hd,-,hget⟩ := Daemon.checkBpHigh_eq fifoLink d
    rw [hd]
    exact ⟨rfl,hget id⟩
  · exact ⟨rfl,.inl rfl⟩

end Effects

/-- The exporter and the host. Their queues refuse no frame, and the link loses frames only on their
way to an end that is closed. -/
structure Pair where
  exporter : Endpoint
  host : Endpoint

inductive PairOp where
  | exporter (op : EndpointOp)
  | host (op : EndpointOp)

namespace Pair

def step (p : Pair) : PairOp → Pair × Unit
  | .exporter op =>
    (⟨(p.exporter.step op).1,
      {p.host with incoming := p.host.incoming++(p.exporter.step op).2}⟩,())
  | .host op =>
    (⟨{p.exporter with incoming := p.exporter.incoming++(p.host.step op).2},
      (p.host.step op).1⟩,())

/-- Both processes have just started. -/
def new (exporter host : ChannelMap) (now : Instant) : Pair :=
  ⟨⟨Daemon.new fifoLink exporter now,[]⟩,⟨Daemon.new fifoLink host now,[]⟩⟩

/-- The frames on their way to the host, in the order it will see them. -/
def towardsHost (p : Pair) : List Frame := p.host.incoming++p.exporter.daemon.txq

def towardsExporter (p : Pair) : List Frame := p.exporter.incoming++p.host.daemon.txq

/-- No frame is on its way to either side. -/
def Quiescent (p : Pair) : Prop := p.towardsHost=[] ∧ p.towardsExporter=[]

instance (p : Pair) : Decidable p.Quiescent := instDecidableAnd

/-- The handshake is complete on both sides. -/
def Connected (p : Pair) : Prop := p.exporter.daemon.linkUp=true ∧ p.host.daemon.linkUp=true

instance (p : Pair) : Decidable p.Connected := instDecidableAnd

end Pair

end Serialmux.System

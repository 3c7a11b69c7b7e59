import Serialmux.Framework.Machine
import Serialmux.Framework.Tasks
import Serialmux.Windlass.Framing

namespace Serialmux.Windlass

open Framework

/-- The two tasks behind a UART, or behind the socket of a Klipper connection: one reads the device
and forwards its frames to the USB, the other writes what came from the USB. -/
structure Port where
  reader : ReaderTask KlipperFramer.decoder .new
  writer : WriterTask (id : List UInt8 → List UInt8)

def Port.new : Port := ⟨.new rfl,.new⟩

/-- What a process is made of besides: the USB writer task, the USB reader, which is the main loop,
and the ports. `entered` is the history of the USB writer's queue, with the port of each frame. -/
structure Relay (κ : Type) where
  usbWriter : WriterTask (TunnelCodec.encode · [])
  usbReader : ReaderTask TunnelCodec.decoder ()
  ports : κ → Option Port
  chOf : κ → UInt8
  entered : List (κ × TunnelFrame)

/-- What one of the tasks does next. -/
inductive RelayOp (κ : Type)
  -- Device → USB.
  | read (k : κ) (bs : List UInt8)
  | forward (k : κ)
  | readEnd (k : κ)
  -- USB → device.
  | feed (k : κ)
  | write (k : κ) (n : Nat)
  | writeEnd (k : κ)
  -- The USB link.
  | usbFeed
  | usbWriteEnd
  | usbFrame
  | usbEnd

namespace Relay

variable {κ : Type} [DecidableEq κ]

def setPort (r : Relay κ) (k : κ) (p : Port) : Relay κ :=
  {r with ports := Function.update r.ports k (some p)}

/-- Device → USB: a complete frame goes to the USB writer under the channel's id. Without a USB
writer the task ends. -/
def forward (r : Relay κ) (k : κ) (p : Port) : Relay κ :=
  let (item,reader) := p.reader.next KlipperFramer.codec KlipperFramer.codec_implements
  match item with
  | none => r.setPort k {p with reader := reader}
  | some frame =>
    match r.usbWriter.send ⟨r.chOf k,frame⟩ with
    | some usbTx =>
      {r.setPort k {p with reader := reader} with
        usbWriter := usbTx
        entered := r.entered++[(k,⟨r.chOf k,frame⟩)]}
    | none => r.setPort k {p with reader := reader.stop}

/-- A frame is sent to the port's writer; if that has ended, the frame is dropped. -/
def hand (r : Relay κ) (k : κ) (frame : List UInt8) : Relay κ :=
  match r.ports k with
  | none => r
  | some p =>
    match p.writer.send frame with
    | some writer => r.setPort k {p with writer := writer}
    | none => r

/-- The USB demux: a frame goes to the port that `route` has for its channel, if there is one. -/
def demux (route : UInt8 → Option κ) (r : Relay κ) : Relay κ :=
  let (item,reader) := r.usbReader.next TunnelCodec.codec TunnelCodec.codec_implements
  let r := {r with usbReader := reader}
  match item with
  | none => r
  | some tf =>
    match route tf.chId with
    | none => r
    | some k => r.hand k tf.frame

/-- The frames of a channel that have come in from the USB. -/
def arrived (r : Relay κ) (c : UInt8) : List (List UInt8) :=
  (r.usbReader.given.filter (·.chId=c)).map (·.frame)

def onPort (r : Relay κ) (k : κ) (f : Port → Relay κ) : Relay κ :=
  match r.ports k with
  | none => r
  | some p => f p

/-- A step of one task. The process ends with its main loop. -/
def step (route : UInt8 → Option κ) (r : Relay κ) (op : RelayOp κ) : Relay κ :=
  if r.usbReader.alive=false then r
  else
    match op with
    | .read k bs => r.onPort k (fun p => r.setPort k {p with reader := p.reader.read bs})
    | .forward k => r.onPort k (r.forward k)
    | .readEnd k => r.onPort k (fun p => r.setPort k {p with reader := p.reader.stop})
    | .feed k => r.onPort k (fun p => r.setPort k {p with writer := p.writer.feed})
    | .write k n => r.onPort k (fun p => r.setPort k {p with writer := (p.writer.write n).1})
    | .writeEnd k => r.onPort k (fun p => r.setPort k {p with writer := p.writer.stop})
    | .usbFeed => {r with usbWriter := r.usbWriter.feed}
    | .usbWriteEnd => {r with usbWriter := r.usbWriter.stop}
    | .usbFrame => r.demux route
    | .usbEnd => {r with usbReader := r.usbReader.stop}

/-- The USB device takes up to `n` bytes of the frame that is being written. -/
def usbWrite (r : Relay κ) (n : Nat) : Relay κ × List UInt8 :=
  if r.usbReader.alive=false then (r,[])
  else ({r with usbWriter := (r.usbWriter.write n).1},(r.usbWriter.write n).2)

/-- Up to `n` bytes are read from the USB device; what it still holds is the second component. -/
def usbRead (r : Relay κ) (link : List UInt8) (n : Nat) : Relay κ × List UInt8 :=
  ({r with usbReader := (r.usbReader.pull link n).1},(r.usbReader.pull link n).2)

end Relay

/-- The exporter opens every UART before the main loop starts. -/
def runExporter (channels : List UInt8) : Relay UInt8 where
  usbWriter := .new
  usbReader := .new rfl
  ports c := if c∈channels then some .new else none
  chOf := id
  entered := []

/-- Where the task that accepts the connections of a channel is. -/
inductive Accepting
  | waiting
  | accepted
  | serving (n : Nat)
  | leaving
  deriving DecidableEq

/-- The host numbers the connections of all channels in the order in which they are installed.
`since` is the history of how many frames of its channel had come in when each was installed. -/
structure Host where
  relay : Relay Nat
  channels : List UInt8
  slot : UInt8 → Option Nat
  task : UInt8 → Accepting
  next : Nat
  since : Nat → Nat

inductive HostOp
  | accept (c : UInt8)
  | install (c : UInt8)
  | select (c : UInt8)
  | clear (c : UInt8)
  | own (op : RelayOp Nat)

namespace Host

def new (channels : List UInt8) : Host where
  relay :=
    {usbWriter := .new, usbReader := .new rfl, ports := fun _ => none, chOf := fun _ => 0
     entered := []}
  channels := channels
  slot _ := none
  task _ := .waiting
  next := 0
  since _ := 0

/-- `handle_klipper_connection` up to the `select!`: the sender goes into the slot of the channel,
and the two tasks of the connection start. -/
def install (h : Host) (c : UInt8) : Host :=
  {h with
    relay :=
      {h.relay with
        ports := Function.update h.relay.ports h.next (some .new)
        chOf := Function.update h.relay.chOf h.next c}
    slot := Function.update h.slot c (some h.next)
    task := Function.update h.task c (.serving h.next)
    next := h.next+1
    since := Function.update h.since h.next (h.relay.arrived c).length}

/-- One of the two tasks of a connection has finished. The other one is not stopped. -/
def finished (h : Host) (n : Nat) : Bool :=
  (h.relay.ports n).any (fun p => !p.reader.alive || !p.writer.alive)

def step (h : Host) (op : HostOp) : Host :=
  if h.relay.usbReader.alive=false then h
  else
    match op with
    | .accept c =>
      if c∈h.channels ∧ h.task c=.waiting then {h with task := Function.update h.task c .accepted}
      else h
    | .install c => if h.task c=.accepted then h.install c else h
    | .select c =>
      match h.task c with
      | .serving n =>
        if h.finished n then {h with task := Function.update h.task c .leaving} else h
      | _ => h
    | .clear c =>
      if h.task c=.leaving then
        {h with
          slot := Function.update h.slot c none
          task := Function.update h.task c .waiting}
      else h
    | .own op => {h with relay := h.relay.step h.slot op}

end Host

/-- The host and the exporter with the bytes in flight on the USB link between them. -/
structure Bridge where
  host : Host
  exporter : Relay UInt8
  down : List UInt8
  up : List UInt8

inductive BridgeOp
  | host (op : HostOp)
  | exporter (op : RelayOp UInt8)
  | hostWrites (n : Nat)
  | exporterReads (n : Nat)
  | exporterWrites (n : Nat)
  | hostReads (n : Nat)

namespace Bridge

def new (channels uarts : List UInt8) : Bridge := ⟨.new channels,runExporter uarts,[],[]⟩

def step (b : Bridge) (op : BridgeOp) : Bridge × Unit :=
  match op with
  | .host op => ({b with host := b.host.step op},())
  | .exporter op => ({b with exporter := b.exporter.step some op},())
  | .hostWrites n =>
    let (relay,bs) := b.host.relay.usbWrite n
    ({b with host := {b.host with relay := relay}, down := b.down++bs},())
  | .exporterReads n =>
    let (exporter,down) := b.exporter.usbRead b.down n
    ({b with exporter := exporter, down := down},())
  | .exporterWrites n =>
    let (exporter,bs) := b.exporter.usbWrite n
    ({b with exporter := exporter, up := b.up++bs},())
  | .hostReads n =>
    let (relay,up) := b.host.relay.usbRead b.up n
    ({b with host := {b.host with relay := relay}, up := up},())

end Bridge

end Serialmux.Windlass

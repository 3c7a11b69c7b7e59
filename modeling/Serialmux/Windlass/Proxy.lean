import Serialmux.Framework.Tasks
import Serialmux.Windlass.Dictionary
import Serialmux.Windlass.SmartHost

namespace Serialmux.Windlass

open Framework

/-- What `FramedWrite` puts into its buffer for a frame: nothing if the codec refuses it. -/
def PayloadTunnelCodec.bytes (pf : PayloadTunnelFrame) : List UInt8 :=
  match encode pf [] with
  | .ok bytes => bytes
  | .error _ => []

/-- The USB writer task of either process. It ends with the first frame that the codec refuses. -/
abbrev PayloadWriter := WriterTask PayloadTunnelCodec.bytes

def PayloadWriter.recv (w : PayloadWriter) : PayloadWriter :=
  if w.out=[] ∧ w.queue.head?.any (255 < ·.payload.length) then w.stop else w.feed

abbrev PayloadReader := ReaderTask PayloadTunnelCodec.decoder ()

def PayloadReader.nextFrame (r : PayloadReader) : Option PayloadTunnelFrame × PayloadReader :=
  r.next PayloadTunnelCodec.codec PayloadTunnelCodec.codec_implements

/-- A queue of payloads, each of which goes to a call that does not block. -/
abbrev CommandTask := WriterTask (fun payload : List UInt8 => [payload])

/-- The two tasks of an MCU, which share its transport. `heard` is the history of the payloads that
the transport has handed out. -/
structure McuTasks where
  forwarding : Bool
  heard : List (List UInt8)
  commands : CommandTask

def McuTasks.new : McuTasks := ⟨true,[],.new⟩

/-- How far the exporter has come: it opens one UART after the other and, for each, fetches the
dictionary and puts it into the queue; only then come the USB tasks. -/
inductive Startup
  | opening (todo : List UInt8)
  | sending (chId : UInt8) (frames : List PayloadTunnelFrame) (todo : List UInt8)
  | running
  | ended
  deriving DecidableEq

/-- `dicts` is the history of the dictionaries fetched. -/
structure SmartExporter where
  startup : Startup
  usbWriter : PayloadWriter
  usbReader : PayloadReader
  dicts : UInt8 → Option (List UInt8)
  mcus : UInt8 → Option McuTasks

inductive ExporterOp
  /-- The UART is opened and the MCU asked for its dictionary, or either fails. -/
  | connect (dictionary : Option (List UInt8))
  | sendFrame
  | payload (c : UInt8) (p : List UInt8)
  | payloadEnd (c : UInt8)
  | recv (c : UInt8)
  | transportSend (c : UInt8)
  | transportError (c : UInt8)
  | usbRecv
  | usbWriteEnd
  | usbFrame
  | usbEnd

/-- The exporter with the ids of its channel specs. -/
def runSmartExporter (channels : List UInt8) : SmartExporter :=
  ⟨.opening channels,.new,.new rfl,fun _ => none,fun _ => none⟩

namespace SmartExporter

def setMcu (x : SmartExporter) (c : UInt8) (m : McuTasks) : SmartExporter :=
  {x with mcus := Function.update x.mcus c (some m)}

def onMcu (x : SmartExporter) (c : UInt8) (f : McuTasks → SmartExporter) : SmartExporter :=
  match x.mcus c with
  | none => x
  | some m => f m

/-- The next UART, or the end of the loop over them. -/
def connect (x : SmartExporter) (dictionary : Option (List UInt8)) : SmartExporter :=
  match x.startup with
  | .opening [] => {x with startup := .running}
  | .opening (c::todo) =>
    match dictionary with
    | none => {x with startup := .ended}
    | some d =>
      {x with
        startup := .sending c (sendDictionary c d) todo
        dicts := Function.update x.dicts c (some d)}
  | _ => x

/-- The next frame of `send_dictionary`; after the last one the tasks of the MCU are spawned. -/
def sendFrame (x : SmartExporter) : SmartExporter :=
  match x.startup with
  | .sending c (pf::frames) todo =>
    match x.usbWriter.send pf with
    | some usbTx => {x with startup := .sending c frames todo, usbWriter := usbTx}
    | none => {x with startup := .ended}
  | .sending c [] todo => {x.setMcu c .new with startup := .opening todo}
  | _ => x

/-- MCU → USB: without a USB writer the task ends. -/
def payload (x : SmartExporter) (c : UInt8) (p : List UInt8) (m : McuTasks) : SmartExporter :=
  if m.forwarding then
    match x.usbWriter.send ⟨c,p⟩ with
    | some usbTx => {x.setMcu c {m with heard := m.heard++[p]} with usbWriter := usbTx}
    | none => x.setMcu c {m with forwarding := false, heard := m.heard++[p]}
  else x

/-- The USB demux. Control frames from the host and frames of unknown channels are ignored. -/
def demux (x : SmartExporter) : SmartExporter :=
  let (item,reader) := x.usbReader.nextFrame
  let x := {x with usbReader := reader}
  match item with
  | none => x
  | some pf =>
    if pf.chId=ctrlCh then x
    else
      x.onMcu pf.chId (fun m =>
        match m.commands.send pf.payload with
        | some commands => x.setMcu pf.chId {m with commands := commands}
        | none => x)

/-- The main loop has been entered and has not been left. -/
def Up (x : SmartExporter) : Prop := x.startup=.running ∧ x.usbReader.alive=true

instance (x : SmartExporter) : Decidable x.Up := inferInstanceAs (Decidable (_ ∧ _))

/-- The process is there: it is starting or its main loop runs. -/
def Alive (x : SmartExporter) : Prop := x.startup≠.ended ∧ x.usbReader.alive=true

instance (x : SmartExporter) : Decidable x.Alive := inferInstanceAs (Decidable (_ ∧ _))

/-- A step of one task. The USB tasks are spawned last, and the process ends with its main loop. -/
def step (x : SmartExporter) (op : ExporterOp) : SmartExporter :=
  if x.Alive then
    match op with
    | .connect dictionary => x.connect dictionary
    | .sendFrame => x.sendFrame
    | .payload c p => x.onMcu c (x.payload c p)
    | .payloadEnd c => x.onMcu c (fun m => x.setMcu c {m with forwarding := false})
    | .recv c => x.onMcu c (fun m => x.setMcu c {m with commands := m.commands.feed})
    | .transportSend c => x.onMcu c (fun m => x.setMcu c {m with commands := (m.commands.write 1).1})
    | .transportError c => x.onMcu c (fun m => x.setMcu c {m with commands := m.commands.stop})
    | .usbRecv => if x.Up then {x with usbWriter := x.usbWriter.recv} else x
    | .usbWriteEnd => if x.Up then {x with usbWriter := x.usbWriter.stop} else x
    | .usbFrame => if x.Up then x.demux else x
    | .usbEnd => if x.Up then {x with usbReader := x.usbReader.stop} else x
  else x

/-- The USB device takes up to `n` bytes of the frame that is being written. -/
def usbWrite (x : SmartExporter) (n : Nat) : SmartExporter × List UInt8 :=
  if x.Up then ({x with usbWriter := (x.usbWriter.write n).1},(x.usbWriter.write n).2) else (x,[])

/-- Up to `n` bytes are read from the USB device; what it still holds is the second component. -/
def usbRead (x : SmartExporter) (link : List UInt8) (n : Nat) : SmartExporter × List UInt8 :=
  if x.Up then ({x with usbReader := (x.usbReader.pull link n).1},(x.usbReader.pull link n).2)
  else (x,link)

end SmartExporter

/-- A Klipper connection with what its handler was called with. `since` and `handed` are histories:
how many payloads of the channel had come in when the handler took the slot, and those that it was
given from there on. -/
structure Client (τ : Type) where
  chId : UInt8
  dictionary : List UInt8
  conn : Connection τ
  since : Nat
  handed : List (List UInt8)

/-- Where the task that accepts the connections of a channel is. -/
inductive SmartTask
  | waiting
  | listening (dictionary : List UInt8)
  | serving (dictionary : List UInt8) (n : Nat)

/-- The host numbers the connections of all channels in the order in which they are accepted.
`entered` is the history of the USB writer's queue, with the connection of each frame. -/
structure SmartHost (τ : Type) where
  channels : List UInt8
  usbWriter : PayloadWriter
  usbReader : PayloadReader
  control : List (List UInt8)
  gatherer : Gatherer
  task : UInt8 → SmartTask
  clients : Nat → Option (Client τ)
  next : Nat
  entered : List (Nat × PayloadTunnelFrame)

inductive SmartHostOp
  | gather
  | learn (c : UInt8)
  | accept (c : UInt8)
  | served (c : UInt8)
  | conn (n : Nat) (e : ConnEvent)
  | usbRecv
  | usbWriteEnd
  | usbFrame
  | usbEnd

section Host

variable {τ : Type} (anchor : Anchor τ)

def runSmartHost (channels : List UInt8) : SmartHost τ where
  channels := channels
  usbWriter := .new
  usbReader := .new rfl
  control := []
  gatherer := .new
  task _ := .waiting
  clients _ := none
  next := 0
  entered := []

namespace SmartHost

def setClient (h : SmartHost τ) (n : Nat) (cl : Client τ) : SmartHost τ :=
  {h with clients := Function.update h.clients n (some cl)}

def watched (h : SmartHost τ) (c : UInt8) : Bool := c∈h.channels

/-- The gatherer takes the next control payload. -/
def gather (h : SmartHost τ) : SmartHost τ :=
  match h.control with
  | [] => h
  | payload::rest =>
    {h with control := rest, gatherer := h.gatherer.onPayload h.watched payload}

/-- The watch channel of `c` holds the dictionary published last. -/
def learn (h : SmartHost τ) (c : UInt8) : SmartHost τ :=
  match h.task c,(h.gatherer.publishedFor c).getLast? with
  | .waiting,some d => {h with task := Function.update h.task c (.listening d)}
  | _,_ => h

def accept (h : SmartHost τ) (c : UInt8) : SmartHost τ :=
  match h.task c with
  | .listening d =>
    {h.setClient h.next ⟨c,d,.new anchor,0,[]⟩ with
      task := Function.update h.task c (.serving d h.next)
      next := h.next+1}
  | _ => h

/-- The handler has returned, and the task waits for the next connection. -/
def served (h : SmartHost τ) (c : UInt8) : SmartHost τ :=
  match h.task c with
  | .serving d n =>
    if (h.clients n).any (·.conn.phase=.returned) then
      {h with task := Function.update h.task c (.listening d)}
    else h
  | _ => h

/-- The payloads of a channel that have come in. -/
def arrived (h : SmartHost τ) (c : UInt8) : List (List UInt8) :=
  (h.usbReader.given.filter (·.chId=c)).map (·.payload)

/-- `usb_out_clone.send`: without a USB writer the forwarder ends, and drops what it holds. -/
def forward (h : SmartHost τ) (n : Nat) (cl : Client τ) : SmartHost τ :=
  match cl.conn.forwarder with
  | .holding payload =>
    match h.usbWriter.send ⟨cl.chId,payload⟩ with
    | some usbOut =>
      {h.setClient n {cl with conn := cl.conn.send cl.chId} with
        usbWriter := usbOut
        entered := h.entered++[(n,⟨cl.chId,payload⟩)]}
    | none => h.setClient n {cl with conn := {cl.conn with forwarder := .cancelled}}
  | _ => h

/-- A step of a connection. Its frames come from the demux and go through the USB writer's queue. -/
def onConn (h : SmartHost τ) (n : Nat) (cl : Client τ) (e : ConnEvent) : SmartHost τ :=
  match e with
  | .demux _ => h
  | .send => h.forward n cl
  | .register =>
    h.setClient n
      {cl with
        conn := cl.conn.register
        since := if cl.conn.phase=.starting then (h.arrived cl.chId).length else cl.since}
  | e => h.setClient n {cl with conn := cl.conn.step anchor cl.chId cl.dictionary e}

/-- A payload goes to the connection that has the slot of its channel, if there is one. -/
def hand (h : SmartHost τ) (pf : PayloadTunnelFrame) : SmartHost τ :=
  match h.task pf.chId with
  | .serving _ n =>
    match h.clients n with
    | some cl =>
      if cl.conn.slotOpen then
        h.setClient n
          {cl with
            conn := cl.conn.onDemux pf.payload
            handed := cl.handed++[pf.payload]}
      else h
    | none => h
  | _ => h

/-- The USB demux: control frames go to the gatherer. -/
def demux (h : SmartHost τ) : SmartHost τ :=
  let (item,reader) := h.usbReader.nextFrame
  let h := {h with usbReader := reader}
  match item with
  | none => h
  | some pf =>
    if pf.chId=ctrlCh then {h with control := h.control++[pf.payload]}
    else if pf.chId∈h.channels then h.hand pf
    else h

/-- A step of one task. The process ends with its main loop. -/
def step (h : SmartHost τ) (op : SmartHostOp) : SmartHost τ :=
  if h.usbReader.alive=false then h
  else
    match op with
    | .gather => h.gather
    | .learn c => h.learn c
    | .accept c => h.accept anchor c
    | .served c => h.served c
    | .conn n e =>
      match h.clients n with
      | none => h
      | some cl => h.onConn anchor n cl e
    | .usbRecv => {h with usbWriter := h.usbWriter.recv}
    | .usbWriteEnd => {h with usbWriter := h.usbWriter.stop}
    | .usbFrame => h.demux
    | .usbEnd => {h with usbReader := h.usbReader.stop}

def usbWrite (h : SmartHost τ) (n : Nat) : SmartHost τ × List UInt8 :=
  if h.usbReader.alive=false then (h,[])
  else ({h with usbWriter := (h.usbWriter.write n).1},(h.usbWriter.write n).2)

def usbRead (h : SmartHost τ) (link : List UInt8) (n : Nat) : SmartHost τ × List UInt8 :=
  ({h with usbReader := (h.usbReader.pull link n).1},(h.usbReader.pull link n).2)

end SmartHost

/-- The two processes with the bytes in flight on the USB link between them. -/
structure Proxy (τ : Type) where
  host : SmartHost τ
  exporter : SmartExporter
  down : List UInt8
  up : List UInt8

inductive ProxyOp
  | host (op : SmartHostOp)
  | exporter (op : ExporterOp)
  | hostWrites (n : Nat)
  | exporterReads (n : Nat)
  | exporterWrites (n : Nat)
  | hostReads (n : Nat)

namespace Proxy

def new (channels uarts : List UInt8) : Proxy τ :=
  ⟨runSmartHost channels,runSmartExporter uarts,[],[]⟩

def step (x : Proxy τ) (op : ProxyOp) : Proxy τ × Unit :=
  match op with
  | .host op => ({x with host := x.host.step anchor op},())
  | .exporter op => ({x with exporter := x.exporter.step op},())
  | .hostWrites n =>
    ({x with host := (x.host.usbWrite n).1, down := x.down++(x.host.usbWrite n).2},())
  | .exporterReads n =>
    ({x with exporter := (x.exporter.usbRead x.down n).1, down := (x.exporter.usbRead x.down n).2},())
  | .exporterWrites n =>
    ({x with exporter := (x.exporter.usbWrite n).1, up := x.up++(x.exporter.usbWrite n).2},())
  | .hostReads n =>
    ({x with host := (x.host.usbRead x.up n).1, up := (x.host.usbRead x.up n).2},())

end Proxy

end Host

end Serialmux.Windlass

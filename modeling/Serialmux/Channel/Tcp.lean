import Serialmux.Framework.Chunks
import Serialmux.Channel.Io

namespace Serialmux.Channel

open Protocol Framework

/-- Per-connection buffer limit. -/
abbrev connHighWater : Nat := 256*1024

/-- One TCP connection. `watch.inSel` is the source's `in_sel`. -/
structure TcpConn where
  stream : StreamId
  txbuf : List UInt8
  connecting : Bool
  watch : Watch
  closePending : Bool
  deriving DecidableEq

def packCid (slot : Slot) : List UInt8 := u16ToLe (UInt16.ofNat slot)

def unpackCid : List UInt8 → Option (UInt16 × List UInt8)
  | b0::b1::data => some (u16OfLe b0 b1,data)
  | _ => none

/-- The slot a TCP frame names and the data behind it; a cid without a slot is ignored. -/
def slotOfPayload (payload : List UInt8) : Option (Slot × List UInt8) :=
  match unpackCid payload with
  | none => none
  | some (cid,data) => if h : cid.toNat < maxTcpConns then some (⟨cid.toNat,h⟩,data) else none

theorem slotOfPayload_packCid (slot : Slot) (data : List UInt8) :
    slotOfPayload (packCid slot++data)=some (slot,data) := by
  have h := slot.isLt
  have hcid : (UInt16.ofNat slot).toNat=slot.val := by
    simp only [UInt16.toNat_ofNat',maxTcpConns] at h ⊢
    omega
  have hun : unpackCid (packCid slot++data)=some (UInt16.ofNat slot,data) := by
    simp only [packCid,u16ToLe,List.cons_append,List.nil_append,unpackCid]
    rw [u16OfLe_u16ToLe]
  simp only [slotOfPayload,hun,hcid,h,dif_pos]

/-- What an operation makes of one slot. -/
abbrev SlotOp := Option TcpConn → Option TcpConn × Effect

namespace SlotOp

/-- The slot is left alone. -/
def skip : SlotOp := fun c => (c,.quiet)

def seq (f g : SlotOp) : SlotOp := fun c => ((g (f c).1).1,(f c).2.next (g (f c).1).2)

/-- A part of an event that only runs under its flag. -/
def guard (b : Bool) (f : SlotOp) : SlotOp := if b then f else skip

@[simp] theorem guard_true (f : SlotOp) : guard true f=f := rfl

@[simp] theorem guard_false (f : SlotOp) : guard false f=skip := rfl

@[simp] theorem skip_seq (f : SlotOp) : seq skip f=f := rfl

end SlotOp

section Slot

variable (chId : UInt8) (slot : Slot)

def tconnFrame : Frame := ⟨fTconn,chId,packCid slot⟩

def tcloseFrame : Frame := ⟨fTclose,chId,packCid slot⟩

def tdataFrame (data : List UInt8) : Frame := ⟨fTdata,chId,packCid slot++data⟩

/-- What one read becomes: two bytes of each payload are the cid. -/
def tdataFrames (bs : List UInt8) : List Frame :=
  (chunksOf (maxPayload-2) bs).map (tdataFrame chId slot)

def closeSlot (notify : Bool) : SlotOp
  | none => (none,.quiet)
  | some _ => (none,.sends (if notify then [tcloseFrame chId slot] else []))

/-- The readable part of an event: read until the kernel has no more. End of file and errors close
the slot and end the whole event, which the parts that follow respect because they pass an empty
slot unchanged. -/
def readLoop (notify : Bool) (blocked : TcpConn → Bool) :
    List (ReadResult 65536) → SlotOp
  | [],c => (c,.quiet)
  | _::_,none => (none,.quiet)
  | r::rs,some c =>
    if blocked c then (some c,.quiet)
    else
      match r with
      | .wouldBlock => (some c,.quiet)
      | .error _ => closeSlot chId slot notify (some c)
      | .data [] _ => closeSlot chId slot notify (some c)
      | .data (b::bs) _ =>
        let (c',e) := readLoop notify blocked rs (some c)
        (c',Effect.next ⟨tdataFrames chId slot (b::bs),b::bs,[]⟩ e)

/-- One write of the pending bytes of a stream; `none` is a real error. -/
def writeTxbuf (ready : TcpConn → Bool) (w : WriteResult) (c : TcpConn) :
    Option (TcpConn × List UInt8) :=
  if ready c=true ∧ c.txbuf≠[] then
    match w with
    | .wrote n => some ({c with txbuf := c.txbuf.drop n},c.txbuf.take n)
    | .again => some (c,[])
    | .error => none
  else some (c,[])

/-- The writable part of an event. A slot whose peer has gone closes, unannounced, once it has
drained. -/
def writeSlot (notify : Bool) (ready : TcpConn → Bool) (w : WriteResult) : SlotOp
  | none => (none,.quiet)
  | some c =>
    match writeTxbuf ready w c with
    | none => closeSlot chId slot notify (some c)
    | some (c',out) =>
      if c'.txbuf=[] ∧ c'.closePending=true then
        ((closeSlot chId slot false (some c')).1,⟨[],[],out⟩)
      else (some c',⟨[],[],out⟩)

def updateConnInterest (interest : TcpConn → Option Interest) : SlotOp :=
  fun c => (c.map (fun c => {c with watch := c.watch.update (interest c)}),.quiet)

/-- A connection whose peer reads too slowly for what the link delivers. -/
def overLimit (c : TcpConn) (data : List UInt8) : Bool :=
  decide (connHighWater<c.txbuf.length) ||
    decide (connHighWater+maxPayload-c.txbuf.length<data.length)

def onTdata (notify : Bool) (interest : TcpConn → Option Interest) (data : List UInt8) : SlotOp
  | none => (none,.quiet)
  | some c =>
    if data=[] then (some c,.quiet)
    else if overLimit c data then closeSlot chId slot notify (some c)
    else updateConnInterest interest (some {c with txbuf := c.txbuf++data})

def onTclose (interest : TcpConn → Option Interest) : SlotOp
  | none => (none,.quiet)
  | some c =>
    if c.txbuf=[] then closeSlot chId slot false (some c)
    else updateConnInterest interest (some {c with closePending := true})

end Slot

/-- The slots of a channel with the operation `f` done at one of them. -/
def atSlot (conns : Slot → Option TcpConn) (slot : Slot) (f : SlotOp) :
    (Slot → Option TcpConn) × Effect :=
  (Function.update conns slot (f (conns slot)).1,(f (conns slot)).2)

/-- A connection as it is entered into a slot, registered for both directions. -/
def TcpConn.opened (stream : StreamId) (connecting : Bool) : TcpConn :=
  ⟨stream,[],connecting,⟨true,some .both⟩,false⟩

/-- Exporter-side TCP channel: a listener whose connections are carried to the host. -/
structure TcpSourceChannel where
  chId : UInt8
  conns : Slot → Option TcpConn
  nextSlot : Nat
  linkUp : Bool
  bpPaused : Bool

namespace TcpSourceChannel

def new (chId : UInt8) : TcpSourceChannel := ⟨chId,fun _ => none,0,false,false⟩

/-- Reads are suspended under backpressure and once the peer has gone; writes are wanted while bytes
are pending. -/
def srcConnInterest (bpPaused : Bool) (c : TcpConn) : Option Interest :=
  Interest.ofFlags (!(bpPaused || c.closePending)) (!c.txbuf.isEmpty)

/-- `n` tries from the cursor on. -/
def probe (conns : Slot → Option TcpConn) : Nat → Nat → Option Slot × Nat
  | 0,next => (none,next)
  | n+1,next =>
    if conns (Fin.ofNat maxTcpConns next)=none then (some (Fin.ofNat maxTcpConns next),next+1)
    else probe conns n (next+1)

/-- Round-robin search for a free slot; the cursor moves past every slot it looked at. -/
def allocSlot (s : TcpSourceChannel) : Option Slot × TcpSourceChannel :=
  ((probe s.conns maxTcpConns s.nextSlot).1,
    {s with nextSlot := (probe s.conns maxTcpConns s.nextSlot).2})

/-- One turn of the accept loop. -/
def acceptOne (s : TcpSourceChannel) (a : Accepted) : TcpSourceChannel × Effect :=
  if s.linkUp then
    match s.allocSlot with
    | (none,s') => (s',.quiet)
    | (some slot,s') =>
      if a.registers then
        ({s' with conns := Function.update s'.conns slot (some (.opened a.stream false))},
          .sends [tconnFrame s.chId slot])
      else (s',.quiet)
  else (s,.quiet)

def accept (s : TcpSourceChannel) : List Accepted → TcpSourceChannel × Effect
  | [] => (s,.quiet)
  | a::as =>
    let (s',e) := s.acceptOne a
    let (s'',e') := s'.accept as
    (s'',e.next e')

/-- The event of one slot: readable, then writable. -/
def slotEvent (s : TcpSourceChannel) (slot : Slot) (readable writable : Bool) (io : Io) : SlotOp :=
  SlotOp.seq
    (.guard readable (readLoop s.chId slot s.linkUp TcpConn.closePending io.reads))
    (.guard writable (.seq (writeSlot s.chId slot s.linkUp (fun _ => true) io.write)
      (updateConnInterest (srcConnInterest s.bpPaused))))

/-- A frame for one slot; a source is never asked to connect. -/
def slotFrame (s : TcpSourceChannel) (slot : Slot) (ftype : UInt8) (data : List UInt8) : SlotOp :=
  if ftype=fTdata then onTdata s.chId slot s.linkUp (srcConnInterest s.bpPaused) data
  else if ftype=fTclose then onTclose s.chId slot (srcConnInterest s.bpPaused)
  else .skip

def tcpEvent (s : TcpSourceChannel) (token : Token) (readable writable : Bool) (io : Io) :
    TcpSourceChannel × Effect :=
  let (conns,e) := atSlot s.conns (slotOfToken token)
    (s.slotEvent (slotOfToken token) readable writable io)
  ({s with conns := conns},e)

def onFrame (s : TcpSourceChannel) (ftype : UInt8) (payload : List UInt8) :
    TcpSourceChannel × Effect :=
  match slotOfPayload payload with
  | none => (s,.quiet)
  | some (slot,data) =>
    let (conns,e) := atSlot s.conns slot (s.slotFrame slot ftype data)
    ({s with conns := conns},e)

def handleEvent (s : TcpSourceChannel) (token : Token) (readable writable : Bool) (io : Io) :
    TcpSourceChannel × Effect :=
  if token=primaryToken s.chId then if readable then s.accept io.accepts else (s,.quiet)
  else s.tcpEvent token readable writable io

/-- Set the pause flag and bring every connection's interest in line. -/
def setPaused (s : TcpSourceChannel) (p : Bool) : TcpSourceChannel :=
  if s.bpPaused=p then s
  else {s with
    bpPaused := p
    conns := fun k => (updateConnInterest (srcConnInterest p) (s.conns k)).1}

/-- The connections of a lost link are closed without a word; a new link leaves them alone. -/
def apply (s : TcpSourceChannel) (call : Call) : TcpSourceChannel × Effect :=
  match call.op with
  | .onFrame ftype payload => s.onFrame ftype payload
  | .onLinkConnect => ({s with linkUp := true},.quiet)
  | .onLinkDisconnect => ({s with linkUp := false, conns := fun _ => none},.quiet)
  | .tick _ => (s,.quiet)
  | .handleEvent token readable writable => s.handleEvent token readable writable call.io
  | .pauseSourceReads => (s.setPaused true,.quiet)
  | .resumeSourceReads => (s.setPaused false,.quiet)

end TcpSourceChannel

/-- Host-side TCP channel: opens a connection for each F_TCONN. -/
structure TcpDestChannel where
  chId : UInt8
  conns : Slot → Option TcpConn
  bpPaused : Bool

namespace TcpDestChannel

def new (chId : UInt8) : TcpDestChannel := ⟨chId,fun _ => none,false⟩

/-- As at the source, but a connect in progress also waits for writability. -/
def dstConnInterest (bpPaused : Bool) (c : TcpConn) : Option Interest :=
  Interest.ofFlags (!(bpPaused || c.closePending)) (!c.txbuf.isEmpty || c.connecting)

/-- F_TCONN at a slot: an occupied slot stays as it is. A bad address, a failed connect and a failed
registration are all answered by F_TCLOSE. -/
def openConn (chId : UInt8) (slot : Slot) (io : Io) : SlotOp
  | some c => (some c,.quiet)
  | none =>
    match io.connect with
    | none => (none,.sends [tcloseFrame chId slot])
    | some stream => (some (.opened stream true),.quiet)

/-- The end of an asynchronous connect, seen as writability. -/
def finishConnect (chId : UInt8) (slot : Slot) (writable : Bool) (io : Io) : SlotOp
  | none => (none,.quiet)
  | some c =>
    if c.connecting=true ∧ writable=true then
      if io.peerAddr then (some {c with connecting := false},.quiet)
      else closeSlot chId slot true (some c)
    else (some c,.quiet)

/-- The event of one slot: connect, writable, readable, interest. -/
def slotEvent (d : TcpDestChannel) (slot : Slot) (readable writable : Bool) (io : Io) : SlotOp :=
  SlotOp.seq (finishConnect d.chId slot writable io)
    (.seq (.guard writable (writeSlot d.chId slot true (fun c => !c.connecting) io.write))
      (.seq
        (.guard readable
          (readLoop d.chId slot true (fun c => c.connecting || c.closePending) io.reads))
        (updateConnInterest (dstConnInterest d.bpPaused))))

def slotFrame (d : TcpDestChannel) (slot : Slot) (ftype : UInt8) (data : List UInt8) (io : Io) :
    SlotOp :=
  if ftype=fTconn then openConn d.chId slot io
  else if ftype=fTdata then onTdata d.chId slot true (dstConnInterest d.bpPaused) data
  else if ftype=fTclose then onTclose d.chId slot (dstConnInterest d.bpPaused)
  else .skip

def tcpEvent (d : TcpDestChannel) (token : Token) (readable writable : Bool) (io : Io) :
    TcpDestChannel × Effect :=
  let (conns,e) := atSlot d.conns (slotOfToken token)
    (d.slotEvent (slotOfToken token) readable writable io)
  ({d with conns := conns},e)

def onFrame (d : TcpDestChannel) (ftype : UInt8) (payload : List UInt8) (io : Io) :
    TcpDestChannel × Effect :=
  match slotOfPayload payload with
  | none => (d,.quiet)
  | some (slot,data) =>
    let (conns,e) := atSlot d.conns slot (d.slotFrame slot ftype data io)
    ({d with conns := conns},e)

/-- Set the pause flag and bring every connection's interest in line. -/
def setPaused (d : TcpDestChannel) (p : Bool) : TcpDestChannel :=
  if d.bpPaused=p then d
  else {d with
    bpPaused := p
    conns := fun k => (updateConnInterest (dstConnInterest p) (d.conns k)).1}

/-- Connections left from a previous session are closed at link-up as well as at link-down. -/
def apply (d : TcpDestChannel) (call : Call) : TcpDestChannel × Effect :=
  match call.op with
  | .onFrame ftype payload => d.onFrame ftype payload call.io
  | .onLinkConnect => ({d with conns := fun _ => none},.quiet)
  | .onLinkDisconnect => ({d with conns := fun _ => none},.quiet)
  | .tick _ => (d,.quiet)
  | .handleEvent token readable writable => d.tcpEvent token readable writable call.io
  | .pauseSourceReads => (d.setPaused true,.quiet)
  | .resumeSourceReads => (d.setPaused false,.quiet)

end TcpDestChannel

end Serialmux.Channel

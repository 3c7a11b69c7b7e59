import Serialmux.Reference.Channels
import Serialmux.Reference.Parser
import Serialmux.Reference.Txq

namespace Serialmux.Reference

open Framework Protocol Channel

abbrev kaIntervalMs : Millis := 3000

abbrev kaTimeoutMs : Millis := 10000

/-- `linkWatch.inSel` is the source's `link_in_epoll`, `reopenDelayMs` its global
`g_reopen_delay_ms`, and `parser` the valid bytes of the parser's buffer. -/
structure Daemon where
  linkFd : Option RawFd
  linkWatch : Watch
  linkUp : Bool
  disconnected : Bool
  linkBpPaused : Bool
  lastRxMs : Millis
  lastTxMs : Millis
  reopenAtMs : Millis
  reopenDelayMs : Millis
  txq : LinkTxq
  parser : List UInt8
  channels : UInt8 → Option ChannelT

namespace Daemon

variable (d : Daemon) (id : UInt8)

def put (ch : ChannelT) : Daemon := {d with channels := Function.update d.channels id (some ch)}

@[simp] theorem put_self (ch : ChannelT) : (d.put id ch).channels id=some ch :=
  Function.update_self id _ _

theorem put_other {j : UInt8} (ch : ChannelT) (hj : j≠id) : (d.put id ch).channels j=d.channels j :=
  Function.update_of_ne hj _ _

/-- A pointer to a channel that turns out to be an MCU; anything else is a fault. -/
def mcu : Option McuCh :=
  match d.channels id with
  | some (.mcu m) => some m
  | _ => none

def pty : Option PtyCh :=
  match d.channels id with
  | some (.pty p) => some p
  | _ => none

def src : Option TcpSrc :=
  match d.channels id with
  | some (.src s) => some s
  | _ => none

/-- A pointer to a connection of a TCP channel, of either kind. -/
def conn (cid : Slot) : Option TcpConn := do (← d.channels id).conn cid

def setConn (cid : Slot) (c : TcpConn) : Daemon :=
  match d.channels id with
  | none => d
  | some ch => d.put id (ch.setConn cid c)

/-- `tcp_conn_update` with the channel's own pause flag. -/
def updateConn (cid : Slot) : Option Daemon := do
  let ch ← d.channels id
  let c ← ch.conn cid
  return d.setConn id cid (tcpConnUpdate c ch.bpPaused)

/-- What the source does to every channel in turn, where no frame is sent. -/
def mapChannels (f : ChannelT → ChannelT) : Daemon :=
  {d with channels := fun id => (d.channels id).map f}

/-- What the source does to every channel in turn. -/
def eachChannel (f : Daemon → UInt8 → Option Daemon) : Option Daemon :=
  ((List.range 256).map UInt8.ofNat).foldlM
    (fun d id => if (d.channels id).isSome then f d id else some d) d

end Daemon

/-- The two bytes of a connection id. -/
def cidBytes (cid : Slot) : Option (List UInt8) := do
  let lo ← narrow8 (cid.val&&&0xFF)
  let hi ← narrow8 (cid.val>>>8)
  return [lo,hi]

section Send

variable (crc : List UInt8 → UInt32)

/-- The header, the payload and the CRC are pushed one by one; a push that finds no space leaves the
others alone. -/
def enqueueFrame (d : Daemon) (clock : Millis) (ftype channel : UInt8) (payload : List UInt8) :
    Option Daemon := do
  let lo ← narrow8 (payload.length&&&0xFF)
  let hi ← narrow8 (payload.length>>>8)
  let sum := if payload.length=0 then 0 else crc payload
  let q ← txqPush d.txq [0xAA,0x55,ftype,channel,lo,hi]
  let q ← (if payload.length=0 then some q else txqPush q payload)
  let q ← txqPush q (u32ToLe sum)
  let watch := if d.linkWatch.inSel then epollUpdate d.linkWatch (some .both) else d.linkWatch
  return {d with txq := q, lastTxMs := clock, linkWatch := watch}

/-- Bulk data that finds the queue above the high-water mark pauses all channels, its own sender
included, before it is enqueued. -/
def daemonSend (d : Daemon) (clock : Millis) (ftype channel : UInt8) (payload : List UInt8) :
    Option Daemon :=
  if d.disconnected then some d
  else do
    let used ← txqUsed d.txq
    let high := (ftype=fData ∨ ftype=fTdata) ∧ d.linkBpPaused=false ∧ linkHighWater≤used
    let d := if high then {d.mapChannels chPause with linkBpPaused := true} else d
    enqueueFrame crc d clock ftype channel payload

/-- A `daemon_send` whose length is converted to uint16_t; to lose a bit of it is a fault. -/
def daemonSend16 (d : Daemon) (clock : Millis) (ftype channel : UInt8) (payload : List UInt8) :
    Option Daemon := do
  guard (payload.length<2^16)
  daemonSend crc d clock ftype channel payload

def mcuTransition (d : Daemon) (id : UInt8) (clock : Millis) (newState : McuState) :
    Option Daemon := do
  let m ← d.mcu id
  if newState=m.state then return d
  else
    match newState with
    | .resetting =>
      let m := mcuUpdateInterest {m with state := .resetting, lastRxMs := 0, txbuf := []}
      if m.linkUp then daemonSend crc (d.put id (.mcu m)) clock fFlush id []
      else return d.put id (.mcu m)
    | .active =>
      let m := {m with state := .active}
      if m.linkUp then daemonSend crc (d.put id (.mcu m)) clock fReady id []
      else return d.put id (.mcu m)
    | .init => return d.put id (.mcu {m with state := .init})

/-- A `read()` on a fd of -1 fails with EBADF. -/
def readFd (fd : Option RawFd) {cap : Nat} (r : ReadResult cap) : ReadResult cap :=
  if fd=none then .error .other else r

/-- Bytes of a UART whose MCU is not seen to run: all up to the sync byte is bootloader noise. -/
def mcuAwaitSync (d : Daemon) (id : UInt8) (clock : Millis) (bs : List UInt8) : Option Daemon :=
  match bs.findIdx? (·==klipperSync) with
  | none => some d
  | some i => do
    let d ← mcuTransition crc d id clock .active
    let m ← d.mcu id
    if m.linkUp then daemonSend16 crc d clock fData id (bs.drop i) else return d

def mcuUartRead (d : Daemon) (id : UInt8) (io : Io) : Option Daemon := do
  let m ← d.mcu id
  match readFd m.fd io.read with
  | .wouldBlock => return d
  | .error _ =>
    let d ← mcuTransition crc (d.put id (.mcu (mcuCloseUart m))) id io.clock .resetting
    let m ← d.mcu id
    return d.put id (.mcu {m with reopenAtMs := io.clock+1000})
  | .data [] _ => return d
  | .data bs _ =>
    let m := {m with lastRxMs := io.clock}
    let d := d.put id (.mcu m)
    if m.state=.active then
      if m.linkUp then daemonSend16 crc d io.clock fData id bs else return d
    else mcuAwaitSync crc d id io.clock bs

def ptyMasterRead (d : Daemon) (id : UInt8) (io : Io) : Option Daemon := do
  let p ← d.pty id
  match readFd p.masterFd io.read with
  | .wouldBlock => return d
  | .error .eio => return d.put id (.pty (ptyClose p))
  | .error .other => return d
  | .data [] _ => return d
  | .data bs _ => daemonSend16 crc d io.clock fData id bs

/-- The common body of `src_close_cid` and `dst_close_cid`. -/
def closeCid (d : Daemon) (id : UInt8) (clock : Millis) (cid : Slot) (notify : Bool) :
    Option Daemon := do
  let c ← d.conn id cid
  if c.fd=none then return d
  else
    let d := d.setConn id cid (tcpConnCloseFd c)
    if notify then daemonSend crc d clock fTclose id (← cidBytes cid) else return d

def srcCloseCid (d : Daemon) (id : UInt8) (clock : Millis) (cid : Slot) (notify : Bool) :
    Option Daemon := do
  let s ← d.src id
  closeCid crc d id clock cid (notify && s.linkUp)

def dstCloseCid (d : Daemon) (id : UInt8) (clock : Millis) (cid : Slot) (notify : Bool) :
    Option Daemon :=
  closeCid crc d id clock cid notify

/-- The chunk loop: two bytes of each frame are reserved for the connection id. -/
def sendTdata (id : UInt8) (clock : Millis) (cid : Slot) : Nat → Daemon → List UInt8 → Option Daemon
  | fuel,d,rest =>
    if rest.length=0 then some d
    else
      match fuel with
      | 0 => none
      | fuel+1 => do
        let chunk := min rest.length (maxPayload-2)
        let frame ← copyTo maxPayload (← cidBytes cid) rest chunk
        let d ← daemonSend16 crc d clock fTdata id frame
        sendTdata id clock cid fuel d (rest.drop chunk)

def srcOnAccept (d : Daemon) (id : UInt8) (io : Io) : Option Daemon := do
  let s ← d.src id
  match io.accept with
  | none => return d
  | some fd =>
    if s.linkUp=false then return d
    else
      match ← srcAllocCid s with
      | none => return d
      | some (s,cid) =>
        let c := {s.conns cid with fd := some fd, watch := .fresh, connecting := false}
        if io.malloc=false then
          let c := {c with fd := none, txbuf := none}
          return d.put id (.src {s with conns := Function.update s.conns cid c})
        else
          let c := {c with txbuf := some []}
          let d := d.put id (.src {s with conns := Function.update s.conns cid c})
          let d ← daemonSend crc d io.clock fTconn id (← cidBytes cid)
          d.updateConn id cid

/-- What a `send()` leaves of the buffer of a connection. -/
def sentTxbuf (c : TcpConn) (n : Nat) : Option TcpConn := do
  let txbuf ← c.txbuf
  return {c with txbuf := some (← slide txbuf (min n txbuf.length))}

/-- The second half of `src_on_conn_event`. A `send()` that would block ends it before the interest
is updated. -/
def srcConnWrite (d : Daemon) (id : UInt8) (cid : Slot) (io : Io) : Option Daemon := do
  let c ← d.conn id cid
  if c.txbufLen=0 then d.updateConn id cid
  else
    match io.write with
    | .again => return d
    | .error => srcCloseCid crc d id io.clock cid true
    | .wrote n =>
      let c ← sentTxbuf c n
      let d := d.setConn id cid c
      if c.txbufLen=0 ∧ c.closePending then srcCloseCid crc d id io.clock cid false
      else d.updateConn id cid

def srcOnConnEvent (d : Daemon) (id : UInt8) (cid : Slot) (readable writable : Bool) (io : Io) :
    Option Daemon := do
  let c ← d.conn id cid
  if c.fd=none then return d
  else
    let goOn := fun d => if writable then srcConnWrite crc d id cid io else some d
    if readable=true ∧ c.closePending=false then
      match io.recv with
      | .wouldBlock => return d
      | .error _ => srcCloseCid crc d id io.clock cid true
      | .data [] _ => srcCloseCid crc d id io.clock cid true
      | .data bs _ => do goOn (← sendTdata crc id io.clock cid bs.length d bs)
    else goOn d

def dstOpenConn (d : Daemon) (id : UInt8) (cid : Slot) (io : Io) : Option Daemon := do
  let c ← d.conn id cid
  match io.socket,io.connect with
  | none,_ => daemonSend crc d io.clock fTclose id (← cidBytes cid)
  | some _,.refused => daemonSend crc d io.clock fTclose id (← cidBytes cid)
  | some fd,r =>
    let c := {c with fd := some fd, watch := .fresh, connecting := r=Connect.pending}
    if io.malloc=false then
      dstCloseCid crc (d.setConn id cid {c with txbuf := none}) id io.clock cid true
    else (d.setConn id cid {c with txbuf := some []}).updateConn id cid

/-- The middle of `dst_on_conn_event`; false tells that the connection was closed. -/
def dstConnWrite (d : Daemon) (id : UInt8) (cid : Slot) (io : Io) : Option (Daemon × Bool) := do
  let c ← d.conn id cid
  if c.connecting then return (d,true)
  else if c.txbufLen=0 then return (← d.updateConn id cid,true)
  else
    match io.write with
    | .again => return (← d.updateConn id cid,true)
    | .error => return (← dstCloseCid crc d id io.clock cid (!c.closePending),false)
    | .wrote n =>
      let c ← sentTxbuf c n
      let d := d.setConn id cid c
      if c.txbufLen=0 ∧ c.closePending then
        return (← dstCloseCid crc d id io.clock cid false,false)
      else return (← d.updateConn id cid,true)

def dstConnRead (d : Daemon) (id : UInt8) (cid : Slot) (io : Io) : Option Daemon :=
  match io.recv with
  | .wouldBlock => some d
  | .error _ => dstCloseCid crc d id io.clock cid true
  | .data [] _ => dstCloseCid crc d id io.clock cid true
  | .data bs _ => sendTdata crc id io.clock cid bs.length d bs

def dstOnConnEvent (d : Daemon) (id : UInt8) (cid : Slot) (readable writable : Bool) (io : Io) :
    Option Daemon := do
  let c ← d.conn id cid
  if c.fd=none then return d
  else if c.connecting=true ∧ writable=true ∧ io.soError=true then
    dstCloseCid crc d id io.clock cid true
  else
    -- A connect that came through.
    let d := if c.connecting=true ∧ writable=true then d.setConn id cid {c with connecting := false}
      else d
    let (d,alive) ← (if writable then dstConnWrite crc d id cid io else some (d,true))
    if alive=true ∧ readable=true then dstConnRead crc d id cid io else return d

/-- `F_TDATA` for a slot of a TCP channel, which `close` closes with a word to the peer. -/
def tcpOnTdata (close : Daemon → Bool → Option Daemon) (d : Daemon) (id : UInt8) (cid : Slot)
    (data : List UInt8) : Option Daemon := do
  let c ← d.conn id cid
  if c.fd=none ∨ data.length=0 then return d
  else
    let avail ← sub? connTxbufSize c.txbufLen
    if avail<data.length ∨ connHighWater<c.txbufLen then close d true
    else
      let txbuf ← copyTo connTxbufSize (← c.txbuf) data data.length
      (d.setConn id cid {c with txbuf := some txbuf}).updateConn id cid

def tcpOnTclose (close : Daemon → Bool → Option Daemon) (d : Daemon) (id : UInt8) (cid : Slot) :
    Option Daemon := do
  let c ← d.conn id cid
  if c.fd=none then return d
  else if c.txbufLen=0 then close d false
  else (d.setConn id cid {c with closePending := true}).updateConn id cid

/-- The slot and the rest of the payload of a TCP frame; a short payload and a large id are
dropped. -/
def tcpPayload : List UInt8 → Option (Slot × List UInt8)
  | b0::b1::data =>
    if h : b0.toNat|||b1.toNat<<<8 < maxTcpConns then some (⟨_,h⟩,data) else none
  | _ => none

def srcOnFrame (d : Daemon) (id : UInt8) (ftype : UInt8) (payload : List UInt8) (io : Io) :
    Option Daemon :=
  match tcpPayload payload with
  | none => some d
  | some (cid,data) =>
    if ftype=fTdata then tcpOnTdata (srcCloseCid crc · id io.clock cid) d id cid data
    else if ftype=fTclose then tcpOnTclose (srcCloseCid crc · id io.clock cid) d id cid
    else some d

def dstOnFrame (d : Daemon) (id : UInt8) (ftype : UInt8) (payload : List UInt8) (io : Io) :
    Option Daemon :=
  match tcpPayload payload with
  | none => some d
  | some (cid,data) =>
    if ftype=fTconn then do
      let c ← d.conn id cid
      if c.fd=none then dstOpenConn crc d id cid io else return d
    else if ftype=fTdata then tcpOnTdata (dstCloseCid crc · id io.clock cid) d id cid data
    else if ftype=fTclose then tcpOnTclose (dstCloseCid crc · id io.clock cid) d id cid
    else some d

def chTick (d : Daemon) (id : UInt8) (nowMs : Millis) (io : Io) : Option Daemon :=
  match d.channels id with
  | some (.mcu m) =>
    if m.fd=none ∧ m.reopenAtMs≤nowMs then some (d.put id (.mcu (mcuOpenUart m io)))
    else if m.linkUp=true ∧ m.state=.active ∧ 0 < m.lastRxMs ∧ resetSilenceMs<nowMs-m.lastRxMs then
      mcuTransition crc d id io.clock .resetting
    else some d
  | _ => some d

def chOnFrame (d : Daemon) (id : UInt8) (ftype : UInt8) (payload : List UInt8) (io : Io) :
    Option Daemon :=
  match d.channels id with
  | none => some d
  | some (.mcu m) => do return d.put id (.mcu (← mcuOnFrame m ftype payload io))
  | some (.pty p) => do return d.put id (.pty (← ptyOnFrame p ftype payload io))
  | some (.src _) => srcOnFrame crc d id ftype payload io
  | some (.dst _) => dstOnFrame crc d id ftype payload io

def chOnLinkUp (clock : Millis) (d : Daemon) (id : UInt8) : Option Daemon :=
  match d.channels id with
  | none => some d
  | some (.mcu m) =>
    daemonSend crc (d.put id (.mcu {m with linkUp := true, lastRxMs := clock})) clock
      (if m.state=.active then fReady else fFlush) id []
  | some (.pty p) => some (d.put id (.pty (ptyClose p)))
  | some (.src s) => some (d.put id (.src {s with linkUp := true}))
  | some (.dst t) => some (d.put id (chOnLinkDown (.dst t)))

/-- Events of a UART or a PTY. -/
def serialEvent (d : Daemon) (id : UInt8) (readable writable : Bool) (io : Io) : Option Daemon :=
  match d.channels id with
  | some (.mcu _) => do
    let d ← (if readable then mcuUartRead crc d id io else some d)
    if writable then return d.put id (.mcu (← mcuUartDrain (← d.mcu id) io)) else return d
  | some (.pty _) => do
    let d ← (if readable then ptyMasterRead crc d id io else some d)
    if writable then return d.put id (.pty (← ptyMasterDrain (← d.pty id) io)) else return d
  | _ => some d

/-- An event goes to a channel only if the kind of its tag and the type of the channel agree. -/
def chHandleEvent (d : Daemon) (id : UInt8) (kind info : Nat) (readable writable : Bool) (io : Io) :
    Option Daemon :=
  match kind,d.channels id with
  | 2,some (.mcu _) => serialEvent crc d id readable writable io
  | 3,some (.pty _) => serialEvent crc d id readable writable io
  | 4,some (.src _) => srcOnAccept crc d id io
  | 5,some (.src _) =>
    if h : info&&&0xFFFF < maxTcpConns then srcOnConnEvent crc d id ⟨_,h⟩ readable writable io
    else some d
  | 5,some (.dst _) =>
    if h : info&&&0xFFFF < maxTcpConns then dstOnConnEvent crc d id ⟨_,h⟩ readable writable io
    else some d
  | _,_ => some d

/-- Frame dispatch; the callback of the parser. -/
def onFrame (d : Daemon) (f : Frame) (io : Io) : Option Daemon :=
  if f.ftype=fPing then enqueueFrame crc d io.clock fPong 0 []
  else if f.ftype=fPong then some d
  else if f.ftype=fHello then do
    let d ← enqueueFrame crc d io.clock fAck 0 []
    -- A peer that says hello again gets a second broadcast.
    Daemon.eachChannel {d with linkUp := true} (chOnLinkUp crc io.clock)
  else if f.ftype=fAck then
    if d.linkUp then some d
    else Daemon.eachChannel {d with linkUp := true} (chOnLinkUp crc io.clock)
  else chOnFrame crc d f.channel f.ftype f.payload io

def scheduleReopen (d : Daemon) (clock : Millis) : Daemon :=
  {d with
    reopenAtMs := clock+d.reopenDelayMs
    reopenDelayMs := if 8000<d.reopenDelayMs*2 then 8000 else d.reopenDelayMs*2
    disconnected := true}

/-- `dev` is the fd of the link device, if one is found and opens. -/
def openLink (d : Daemon) (clock : Millis) (dev : Option RawFd) : Option Daemon :=
  match dev with
  | none => some (scheduleReopen d clock)
  | some fd =>
    let watch := epollUpdate {d.linkWatch with registered := none} (some .readable)
    enqueueFrame crc {d with
      reopenDelayMs := 500, linkFd := some fd, disconnected := false, linkUp := false
      linkBpPaused := false, lastRxMs := clock, lastTxMs := clock, txq := .zero, parser := []
      linkWatch := watch} clock fHello 0 []

def closeLink (d : Daemon) (clock : Millis) : Daemon :=
  if d.disconnected then d
  else
    let watch := if d.linkFd=none then d.linkWatch else epollUpdate d.linkWatch none
    let down := {d with
      disconnected := true, linkUp := false, linkFd := none, linkWatch := watch, txq := .zero}
    let resumed :=
      if d.linkBpPaused then {down.mapChannels chResume with linkBpPaused := false} else down
    scheduleReopen (resumed.mapChannels chOnLinkDown) clock

/-- The answers of the kernel to a handler of the link: a read and a write of the link itself, and
for every frame in what is read those to its handler. -/
structure LinkIo where
  clock : Millis
  read : ReadResult 65536
  ios : Nat → Io
  write : WriteResult

/-- The k-th frame of a read. -/
def linkFrame (lio : LinkIo) : Daemon × Nat → Frame → Option (Daemon × Nat)
  | (d,k),f => do return (← onFrame crc d f (lio.ios k),k+1)

/-- `n == 0` on a non-blocking TTY is not EOF. -/
def linkRead (d : Daemon) (lio : LinkIo) : Option Daemon :=
  match lio.read with
  | .wouldBlock => some d
  | .error _ => some (closeLink d lio.clock)
  | .data [] _ => some d
  | .data bs _ => do
    let (parser,d,_) ← fpFeed crc (linkFrame crc lio) bs.length d.parser bs
      ({d with lastRxMs := lio.clock},0)
    return {d with parser := parser}

/-- A queue that has drained to the low-water mark ends the pause. -/
def resumeIfLow (d : Daemon) (used : Nat) : Daemon :=
  if d.linkBpPaused=true ∧ used≤linkLowWater then
    {d.mapChannels chResume with linkBpPaused := false}
  else d

def linkWrite (d : Daemon) (lio : LinkIo) : Option Daemon := do
  let (txq,rc) ← txqDrain d.txq lio.write
  let d := {d with txq := txq}
  if rc=none then return closeLink d lio.clock
  else
    let d := resumeIfLow d (← txqUsed txq)
    if txqEmpty txq then return {d with linkWatch := epollUpdate d.linkWatch (some .readable)}
    else return d

def handleLinkEvent (d : Daemon) (readable writable : Bool) (lio : LinkIo) : Option Daemon :=
  if d.linkFd=none then some d
  else do
    let d ← (if readable then linkRead crc d lio else some d)
    if d.linkFd=none then return d
    else if writable then linkWrite d lio else return d

def tickKeepalive (d : Daemon) (nowMs clock : Millis) : Option Daemon :=
  if d.disconnected then some d
  else if 0 < d.lastRxMs ∧ kaTimeoutMs<nowMs-d.lastRxMs then some (closeLink d clock)
  else if d.linkUp=true ∧ txqEmpty d.txq=true ∧ 0 < d.lastTxMs ∧ kaIntervalMs≤nowMs-d.lastTxMs then
    enqueueFrame crc d clock fPing 0 []
  else some d

/-- What an epoll event is tagged with. -/
inductive Tag where
  | link
  | mcu (id : UInt8)
  | pty (id : UInt8)
  | server (id : UInt8)
  | tcpConn (id : UInt8) (cid : Slot)
  deriving DecidableEq

def Tag.encode : Tag → Nat
  | link => 0x0100000000
  | mcu id => 0x0200000000|||id.toNat
  | pty id => 0x0300000000|||id.toNat
  | server id => 0x0400000000|||id.toNat
  | tcpConn id cid => 0x0500000000|||id.toNat<<<16|||cid.val

/-- An index beyond the table of channels is a fault. -/
def dispatchEvent (d : Daemon) (tag : Nat) (readable writable : Bool) (io : Io) (lio : LinkIo) :
    Option Daemon :=
  let kind := tag>>>32
  let info := tag&&&0xFFFFFFFF
  if kind=1 then handleLinkEvent crc d readable writable lio
  else if 2≤kind ∧ kind≤5 then do
    let chId := if kind=5 then (info>>>16)&&&0xFF else info
    guard (chId<256)
    chHandleEvent crc d (UInt8.ofNat chId) kind info readable writable io
  else some d

/-- The head of the main loop, at `nowMs`; `clock` is what `mono_now_ms` reads further down. -/
def loopHead (d : Daemon) (nowMs clock : Millis) (dev : Option RawFd) (ios : UInt8 → Io) :
    Option Daemon := do
  let d ← (if d.disconnected=true ∧ d.reopenAtMs≤nowMs then openLink crc d clock dev else some d)
  let d ← tickKeepalive crc d nowMs clock
  d.eachChannel (fun d id => chTick crc d id nowMs (ios id))

/-- One step of the event loop: its head, or an event that epoll reports. -/
inductive LoopStep where
  | head (nowMs clock : Millis) (dev : Option RawFd) (ios : UInt8 → Io)
  | event (tag : Tag) (readable writable : Bool) (io : Io) (lio : LinkIo)

def loopStep (d : Daemon) : LoopStep → Option Daemon
  | .head nowMs clock dev ios => loopHead crc d nowMs clock dev ios
  | .event tag readable writable io lio =>
    dispatchEvent crc d tag.encode readable writable io lio

/-- The channel specs of the command line. -/
inductive Spec where
  | mcu
  | pty
  | tcpSrc
  | tcpDst
  deriving DecidableEq

def chInit (spec : Spec) (io : Io) : ChannelT :=
  match spec with
  | .mcu => .mcu (mcuChInit io)
  | .pty => .pty ptyChInit
  | .tcpSrc => .src ⟨false,false,0,fun _ => .zero⟩
  | .tcpDst => .dst ⟨false,fun _ => .zero⟩

/-- The daemon as `main` builds it. -/
def daemonInit (specs : UInt8 → Option Spec) (ios : UInt8 → Io) : Daemon where
  linkFd := none
  linkWatch := .fresh
  linkUp := false
  disconnected := true
  linkBpPaused := false
  lastRxMs := 0
  lastTxMs := 0
  reopenAtMs := 0
  reopenDelayMs := 500
  txq := .zero
  parser := []
  channels := fun id => (specs id).map (fun spec => chInit spec (ios id))

/-- A run of the daemon: it opens the link and then takes the steps. -/
def daemonRun (specs : UInt8 → Option Spec) (ios : UInt8 → Io) (clock : Millis)
    (dev : Option RawFd) (steps : List LoopStep) : Option Daemon := do
  let d ← openLink crc (daemonInit specs ios) clock dev
  steps.foldlM (loopStep crc) d

end Send

end Serialmux.Reference

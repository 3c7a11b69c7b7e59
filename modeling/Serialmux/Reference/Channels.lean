import Mathlib.Logic.Function.Basic
import Serialmux.Framework.Checked
import Serialmux.Channel.Mcu

namespace Serialmux.Reference

open Framework Protocol Channel

/-- A reading of `mono_now_ms`. -/
abbrev Millis := Int

abbrev resetSilenceMs : Millis := 5000

abbrev connHighWater : Nat := 256*1024

/-- sizeof(txbuf) of an MCU or a PTY. -/
abbrev serialTxbufSize : Nat := maxPayload*2

/-- What `connect()` answers: it is done, EINPROGRESS and its like, or an error. -/
inductive Connect where
  | done
  | pending
  | refused
  deriving DecidableEq

/-- The answers of the kernel to the calls that one handler may make. `write` is for `write()` and
`send()` alike and `errno` for the `write()` that fails; no opening succeeds without a fd. -/
structure Io where
  clock : Millis
  read : ReadResult 4096
  recv : ReadResult 65536
  write : WriteResult
  errno : Errno
  openSerialFd : Option RawFd
  openpty : Option (RawFd × RawFd)
  accept : Option RawFd
  malloc : Bool
  socket : Option RawFd
  connect : Connect
  soError : Bool

/-- A kernel with nothing to offer. -/
def Io.idle : Io :=
  ⟨0,.wouldBlock,.wouldBlock,.again,.other,none,none,none,false,none,.refused,false⟩

/-- `epoll_update`: delete, modify or add. The flag `inSel` is the caller's `in_epoll`; modifying an
fd that epoll does not know and adding one that it knows are errors that the source ignores. -/
def epollUpdate (w : Watch) (events : Option Interest) : Watch := w.update events

/-- `txbuf` holds the `txbuf_len` bytes in use. -/
structure McuCh where
  fd : Option RawFd
  watch : Watch
  state : McuState
  linkUp : Bool
  bpPaused : Bool
  lastRxMs : Millis
  reopenAtMs : Millis
  txbuf : List UInt8
  deriving DecidableEq

def mcuUpdateInterest (m : McuCh) : McuCh :=
  if m.fd=none then m
  else {m with watch := epollUpdate m.watch (Interest.ofFlags (!m.bpPaused) (!m.txbuf.isEmpty))}

def mcuOpenUart (m : McuCh) (io : Io) : McuCh :=
  match io.openSerialFd with
  | none => {m with reopenAtMs := io.clock+2000}
  | some fd => mcuUpdateInterest {m with fd := some fd, watch := .fresh}

def mcuCloseUart (m : McuCh) : McuCh :=
  if m.fd=none then m else {m with fd := none, watch := epollUpdate m.watch none}

/-- A `write()` that would block ends the drain before the interest is updated. -/
def mcuUartDrain (m : McuCh) (io : Io) : Option McuCh :=
  if m.txbuf=[] ∨ m.fd=none then some m
  else
    match io.write with
    | .again => some m
    | .error => some (mcuUpdateInterest {m with txbuf := []})
    | .wrote n => do
      let txbuf ← slide m.txbuf (min n m.txbuf.length)
      return mcuUpdateInterest {m with txbuf := txbuf}

/-- Appends as much of a payload as there is space for. -/
def fillTxbuf (txbuf payload : List UInt8) : Option (List UInt8) := do
  let space ← sub? serialTxbufSize txbuf.length
  copyTo serialTxbufSize txbuf payload (min payload.length space)

def mcuOnFrame (m : McuCh) (ftype : UInt8) (payload : List UInt8) (io : Io) : Option McuCh :=
  if ftype≠fData ∨ m.fd=none ∨ m.state≠.active then some m
  else do mcuUartDrain {m with txbuf := ← fillTxbuf m.txbuf payload} io

def mcuChInit (io : Io) : McuCh :=
  mcuOpenUart ⟨none,.fresh,.init,false,false,0,0,[]⟩ io

structure PtyCh where
  masterFd : Option RawFd
  slaveFd : Option RawFd
  watch : Watch
  bpPaused : Bool
  txbuf : List UInt8
  deriving DecidableEq

def ptyUpdateInterest (p : PtyCh) : PtyCh :=
  if p.masterFd=none then p
  else {p with watch := epollUpdate p.watch (Interest.ofFlags (!p.bpPaused) (!p.txbuf.isEmpty))}

def ptyOpen (p : PtyCh) (io : Io) : PtyCh :=
  if p.masterFd≠none then p
  else
    match io.openpty with
    | none => p
    | some (master,slave) =>
      ptyUpdateInterest {p with masterFd := some master, slaveFd := some slave, watch := .fresh}

def ptyClose (p : PtyCh) : PtyCh :=
  if p.masterFd=none then p
  else {p with masterFd := none, slaveFd := none, watch := epollUpdate p.watch none, txbuf := []}

/-- As `mcu_uart_drain`, but EIO tells that Klipper is gone. -/
def ptyMasterDrain (p : PtyCh) (io : Io) : Option PtyCh :=
  if p.txbuf=[] ∨ p.masterFd=none then some p
  else
    match io.write with
    | .again => some p
    | .error => some (if io.errno=.eio then ptyClose p else ptyUpdateInterest {p with txbuf := []})
    | .wrote n => do
      let txbuf ← slide p.txbuf (min n p.txbuf.length)
      return ptyUpdateInterest {p with txbuf := txbuf}

def ptyOnFrame (p : PtyCh) (ftype : UInt8) (payload : List UInt8) (io : Io) : Option PtyCh :=
  if ftype=fFlush then some (ptyClose p)
  else if ftype=fReady then some (ptyOpen p io)
  else if ftype=fData ∧ p.masterFd≠none then do
    ptyMasterDrain {p with txbuf := ← fillTxbuf p.txbuf payload} io
  else some p

def ptyChInit : PtyCh := ⟨none,none,.fresh,false,[]⟩

/-- `txbuf` is none where the source has NULL, with a `txbuf_len` of 0. -/
structure TcpConn where
  fd : Option RawFd
  watch : Watch
  connecting : Bool
  closePending : Bool
  txbuf : Option (List UInt8)
  deriving DecidableEq

abbrev connTxbufSize : Nat := connHighWater+maxPayload

def TcpConn.zero : TcpConn := ⟨none,.fresh,false,false,none⟩

def TcpConn.txbufLen (c : TcpConn) : Nat := (c.txbuf.getD []).length

def tcpConnUpdate (c : TcpConn) (bpPaused : Bool) : TcpConn :=
  if c.fd=none then c
  else
    let events := Interest.ofFlags (!(bpPaused || c.closePending)) (c.txbufLen≠0 || c.connecting)
    {c with watch := epollUpdate c.watch events}

def tcpConnCloseFd (c : TcpConn) : TcpConn :=
  if c.fd=none then c
  else ⟨none,epollUpdate c.watch none,false,false,none⟩

structure TcpSrc where
  linkUp : Bool
  bpPaused : Bool
  nextCid : Nat
  conns : Slot → TcpConn

structure TcpDst where
  bpPaused : Bool
  conns : Slot → TcpConn

/-- The slot that the next client gets, and where the search goes on after it. -/
def srcAllocCid (s : TcpSrc) : Option (Option (TcpSrc × Slot)) :=
  match (List.range maxTcpConns).find?
      (fun i => (s.conns (Fin.ofNat maxTcpConns (s.nextCid+i))).fd=none) with
  | none => some none
  | some i => do
    let cid := Fin.ofNat maxTcpConns (s.nextCid+i)
    guard ((cid+1)%maxTcpConns<2^16)
    return some ({s with nextCid := (cid+1)%maxTcpConns},cid)

inductive ChannelT where
  | mcu (m : McuCh)
  | pty (p : PtyCh)
  | src (s : TcpSrc)
  | dst (t : TcpDst)

namespace ChannelT

def conn (cid : Slot) : ChannelT → Option TcpConn
  | mcu _ => none
  | pty _ => none
  | src s => some (s.conns cid)
  | dst t => some (t.conns cid)

def setConn (cid : Slot) (c : TcpConn) : ChannelT → ChannelT
  | mcu m => mcu m
  | pty p => pty p
  | src s => src {s with conns := Function.update s.conns cid c}
  | dst t => dst {t with conns := Function.update t.conns cid c}

def bpPaused : ChannelT → Bool
  | mcu m => m.bpPaused
  | pty p => p.bpPaused
  | src s => s.bpPaused
  | dst t => t.bpPaused

end ChannelT

/-- `ch_on_link_down`. It closes connections without a word to the peer. -/
def chOnLinkDown : ChannelT → ChannelT
  | .mcu m => .mcu (mcuUpdateInterest {m with linkUp := false, txbuf := []})
  | .pty p => .pty (ptyClose p)
  | .src s => .src {s with linkUp := false, conns := fun cid => tcpConnCloseFd (s.conns cid)}
  | .dst t => .dst {t with conns := fun cid => tcpConnCloseFd (t.conns cid)}

/-- The common body of `ch_pause` and `ch_resume`. -/
def chSetPaused (b : Bool) (ch : ChannelT) : ChannelT :=
  if ch.bpPaused=b then ch
  else
    match ch with
    | .mcu m => .mcu (mcuUpdateInterest {m with bpPaused := b})
    | .pty p => .pty (ptyUpdateInterest {p with bpPaused := b})
    | .src s => .src {s with bpPaused := b, conns := fun cid => tcpConnUpdate (s.conns cid) b}
    | .dst t => .dst {t with bpPaused := b, conns := fun cid => tcpConnUpdate (t.conns cid) b}

def chPause : ChannelT → ChannelT := chSetPaused true

def chResume : ChannelT → ChannelT := chSetPaused false

end Serialmux.Reference

import Serialmux.Protocol.TxQueue

namespace Serialmux.Channel

open Protocol

/-- A reading of the monotonic clock, in nanoseconds. -/
abbrev Instant := Nat

abbrev secs (n : Nat) : Nat := n*1000000000

abbrev RawFd := Nat

/-- The identity of a TCP stream; no code path looks inside. -/
abbrev StreamId := Nat

abbrev Token := Nat

abbrev tcpBase : Nat := 64

abbrev maxChannelId : Nat := 62

abbrev maxTcpConns : Nat := 256

/-- A slot index, which is also the connection id on the wire. -/
abbrev Slot := Fin maxTcpConns

instance : NeZero maxTcpConns := ⟨by decide⟩

def primaryToken (chId : UInt8) : Token := chId.toNat+1

def tcpSlotToken (chId : UInt8) (slot : Slot) : Token := tcpBase+chId.toNat*maxTcpConns+slot

/-- The slot of a token; only tokens from `tcpBase` on are registered for slots. -/
def slotOfToken (token : Token) : Slot := Fin.ofNat maxTcpConns (token-tcpBase)

def channelIdForToken (token : Token) : Option UInt8 :=
  if token=0 then none
  else if token≤63 then some (UInt8.ofNat (token-1))
  else if (token-tcpBase)/maxTcpConns ≤ maxChannelId then
    some (UInt8.ofNat ((token-tcpBase)/maxTcpConns))
  else none

theorem slotOfToken_tcpSlotToken (chId : UInt8) (slot : Slot) :
    slotOfToken (tcpSlotToken chId slot)=slot := by
  apply Fin.ext
  have h := slot.isLt
  simp only [slotOfToken,tcpSlotToken,Fin.ofNat,maxTcpConns,tcpBase] at h ⊢
  omega

theorem tcpSlotToken_ne_primary (chId : UInt8) (slot : Slot) :
    tcpSlotToken chId slot≠primaryToken chId := by
  apply Nat.ne_of_gt
  simp only [tcpSlotToken,primaryToken,maxTcpConns,tcpBase]
  omega

/-- EIO is the one error a channel tells apart: the PTY lost its slaves. -/
inductive Errno where
  | eio
  | other
  deriving DecidableEq, Repr

/-- What a non-blocking read into a buffer of `cap` bytes answers. -/
inductive ReadResult (cap : Nat) where
  | data (bs : List UInt8) (fits : bs.length≤cap)
  | wouldBlock
  | error (e : Errno)
  deriving DecidableEq

theorem eof_fits : ([] : List UInt8).length≤65536 := Nat.zero_le _

theorem sync_fits : [klipperSync].length≤4096 := by decide

/-- One answer of `accept()`: a stream and whether mio registers it. -/
structure Accepted where
  stream : StreamId
  registers : Bool
  deriving DecidableEq

/-- The answers of the kernel to the calls one operation of a channel may make. A list ends where
the call would block or fails. -/
structure Io where
  now : Instant
  read : ReadResult 4096
  write : WriteResult
  openSerialFd : Option RawFd
  openPty : Option (RawFd × RawFd)
  accepts : List Accepted
  reads : List (ReadResult 65536)
  peerAddr : Bool
  connect : Option StreamId

/-- A kernel with nothing to offer. -/
def Io.idle : Io := ⟨0,.wouldBlock,.again,none,none,[],[],false,none⟩

inductive Interest where
  | readable
  | writable
  | both
  deriving DecidableEq, Repr

def Interest.ofFlags : Bool → Bool → Option Interest
  | true,true => some .both
  | true,false => some .readable
  | false,true => some .writable
  | false,false => none

/-- One fd towards mio: the flag its owner keeps and the interest mio holds. -/
structure Watch where
  inSel : Bool
  registered : Option Interest
  deriving DecidableEq

/-- A fd mio has not seen. -/
def Watch.fresh : Watch := ⟨false,none⟩

/-- The common end of every interest update: register, reregister or deregister. Registering a
known fd and reregistering an unknown one are errors that the source ignores. -/
def Watch.update (w : Watch) (interest : Option Interest) : Watch :=
  match interest,w.inSel with
  | none,true => ⟨false,none⟩
  | none,false => w
  | some i,false => ⟨true,some (w.registered.getD i)⟩
  | some i,true => ⟨true,w.registered.map (fun _ => i)⟩

/-- What an operation of a channel does to the outside: the frames it enqueues on the link, and the
bytes it reads from and writes to its local fd. -/
@[ext] structure Effect where
  frames : List Frame
  read : List UInt8
  wrote : List UInt8
  deriving DecidableEq

namespace Effect

/-- Nothing happens. -/
def quiet : Effect := ⟨[],[],[]⟩

/-- Only frames for the link. -/
def sends (fs : List Frame) : Effect := ⟨fs,[],[]⟩

/-- One effect after another. -/
def next (e e' : Effect) : Effect := ⟨e.frames++e'.frames,e.read++e'.read,e.wrote++e'.wrote⟩

@[simp] theorem quiet_frames : quiet.frames=[] := rfl

@[simp] theorem quiet_read : quiet.read=[] := rfl

@[simp] theorem quiet_wrote : quiet.wrote=[] := rfl

@[simp] theorem sends_frames (fs : List Frame) : (sends fs).frames=fs := rfl

@[simp] theorem sends_read (fs : List Frame) : (sends fs).read=[] := rfl

@[simp] theorem sends_wrote (fs : List Frame) : (sends fs).wrote=[] := rfl

@[simp] theorem next_frames (e e' : Effect) : (e.next e').frames=e.frames++e'.frames := rfl

@[simp] theorem next_read (e e' : Effect) : (e.next e').read=e.read++e'.read := rfl

@[simp] theorem next_wrote (e e' : Effect) : (e.next e').wrote=e.wrote++e'.wrote := rfl

@[simp] theorem next_quiet (e : Effect) : e.next quiet=e := by
  simp [next]

@[simp] theorem quiet_next (e : Effect) : quiet.next e=e := rfl

end Effect

/-- The methods of the channel trait that the daemon calls. -/
inductive ChannelOp where
  | onFrame (ftype : UInt8) (payload : List UInt8)
  | onLinkConnect
  | onLinkDisconnect
  | tick (now : Instant)
  | handleEvent (token : Token) (readable writable : Bool)
  | pauseSourceReads
  | resumeSourceReads
  deriving DecidableEq

/-- A call of a channel: the method and the kernel's answers to it. -/
structure Call where
  op : ChannelOp
  io : Io

end Serialmux.Channel

import Serialmux.Framework.Machine
import Serialmux.Channel.Demand
import Serialmux.EventLoop.Rules

namespace Serialmux.EventLoop

open Framework Protocol Channel

/-- The ring buffer of the link with the frames it has refused. -/
structure Logged where
  queue : TxQueue
  dropped : List Frame

/-- The queue of the link, which remembers what its overflow branch drops. -/
def loggedLink (crc : List UInt8 → UInt32) : LinkQueue Logged WriteResult where
  new := ⟨TxQueue.new,[]⟩
  reset q := ⟨q.queue.reset,q.dropped⟩
  enqueue q f :=
    ⟨q.queue.enqueue (f.build crc),
      if q.queue.overflows (f.build crc) then q.dropped++[f] else q.dropped⟩
  used q := q.queue.used
  isEmpty q := q.queue.isEmpty
  drain q w := (⟨(q.queue.drainToFd w).queue,q.dropped⟩,(q.queue.drainToFd w).result)

/-- The room on the link that a turn can ask for. -/
def LoopOp.demand {Q W : Type} (d : Daemon Q) : LoopOp W → Nat
  | .turn (.head _ _ _ _) => statusSize*d.channels.keys.length+2*statusSize
  | .turn (.event _ token readable writable io) =>
    match channelIdForToken token with
    | none => 0
    | some id => d.channels.demand id ⟨.handleEvent token readable writable,io⟩
  | .receive _ _ f =>
    if f.ftype=fPing then statusSize
    else if f.ftype=fPong then 0
    else if f.ftype=fHello then statusSize*d.channels.keys.length+statusSize
    else if f.ftype=fAck then statusSize*d.channels.keys.length
    else if f.ftype=fTconn ∨ f.ftype=fTdata then cidSize
    else 0
  | _ => 0

section Room

variable {crc : List UInt8 → UInt32}

/-- Nothing was refused so far and there is room for `n` more bytes. -/
def Room (n : Nat) (q : Logged) : Prop := q.dropped=[] ∧ q.queue.used+n<linkTxbufSize

theorem Room.mono {n m : Nat} {q : Logged} (h : Room n q) (hm : m≤n) : Room m q :=
  ⟨h.1,(Nat.add_le_add_left hm _).trans_lt h.2⟩

theorem Room.enqueue {n : Nat} {q : Logged} {f : Frame}
    (h : Room (hdrSize+f.payload.length+crcSize+n) q) :
    Room n ((loggedLink crc).enqueue q f) := by
  obtain ⟨hd,hu⟩ := h
  have hlen : (f.build crc).length≤hdrSize+f.payload.length+crcSize :=
    buildFrame_length_le crc f.ftype f.channel f.payload
  have hfits : q.queue.overflows (f.build crc)=false := by
    simp only [TxQueue.overflows,decide_eq_false_iff_not]
    omega
  refine ⟨?_,?_⟩
  · simp only [loggedLink,hfits,Bool.false_eq_true,if_false]
    exact hd
  · have hused := q.queue.enqueue_used (f.build crc) hfits
    simp only [loggedLink,hused]
    omega

theorem Room.sendAll {n : Nat} {q : Logged} {fs : List Frame} (h : Room (wireSize fs+n) q) :
    Room n (Daemon.sendAll (loggedLink crc) q fs) := by
  induction fs generalizing q with
  | nil => simpa [Daemon.sendAll] using h
  | cons f fs ih =>
    rw [wireSize_cons,Nat.add_assoc] at h
    exact ih h.enqueue

variable (crc) in
theorem Room.reset {n m : Nat} {q : Logged} (h : Room n q) (hm : m<linkTxbufSize) :
    Room m ((loggedLink crc).reset q) := by
  have hused : q.queue.reset.used=0 := by
    rw [← TxQueue.contents_length,TxQueue.reset_contents]
    rfl
  refine ⟨h.1,?_⟩
  simp only [loggedLink,hused]
  omega

end Room

namespace Daemon

/-- A daemon with `k` channels whose queue has room for `n` more bytes. -/
structure Fits (k n : Nat) (d : Daemon Logged) : Prop where
  channels : d.channels.keys.length=k
  room : Room n d.txq

namespace Fits

variable {crc : List UInt8 → UInt32} {k n : Nat} {d : Daemon Logged}

theorem mono {m : Nat} (h : Fits k n d) (hm : m≤n) : Fits k m d := ⟨h.channels,h.room.mono hm⟩

theorem interest (b : Bool) (h : Fits k n d) : Fits k n (d.setLinkWriteInterest b) := by
  obtain ⟨b',hb⟩ := setLinkWriteInterest_eq d b
  rw [hb]
  exact ⟨h.channels,h.room⟩

theorem touch (now : Instant) (h : Fits k n d) : Fits k n (touch (loggedLink crc) d now) :=
  interest _ ⟨h.channels,h.room⟩

theorem call {id : UInt8} {c : Call} {m : Nat} (hm : d.channels.demand id c ≤ m)
    (h : Fits k (m+n) d) : Fits k n (callChannel (loggedLink crc) d id c) :=
  ⟨h.channels,(h.room.mono
    (Nat.add_le_add_right ((d.channels.frames_size id c).trans hm) n)).sendAll⟩

theorem round {call : UInt8 → Call} {m : Nat} (hm : ∀id,d.channels.demand id (call id) ≤ m)
    (h : Fits k (m*k+n) d) : Fits k n (eachChannel (loggedLink crc) d call) := by
  obtain ⟨cs,hcs,hk,-⟩ := eachChannel_eq (loggedLink crc) d call
  rw [hcs]
  refine ⟨by rw [hk]; exact h.channels,(h.room.mono (Nat.add_le_add_right ?_ n)).sendAll⟩
  have hsize := d.channels.round_size call hm
  rwa [h.channels] at hsize

/-- A round of calls that are met in silence. -/
theorem quietly {call : Call}
    (hq : call.op=.pauseSourceReads ∨ call.op=.resumeSourceReads ∨ call.op=.onLinkDisconnect)
    (h : Fits k n d) : Fits k n (eachChannel (loggedLink crc) d (fun _ => call)) :=
  round (fun id => d.channels.demand_quiet id hq) (h.mono (by omega))

theorem checkBpHigh (h : Fits k n d) : Fits k n (checkBpHigh (loggedLink crc) d) := by
  unfold Daemon.checkBpHigh
  split_ifs
  · exact quietly (.inl rfl) ⟨h.channels,h.room⟩
  · exact h

theorem control {now : Instant} {ftype : UInt8} (h : Fits k (statusSize+n) d) :
    Fits k n (enqueueFrame (loggedLink crc) d now (controlFrame ftype)) := by
  unfold enqueueFrame
  split_ifs
  · exact h.mono (Nat.le_add_left _ _)
  · exact interest true ⟨h.channels,h.room.enqueue⟩

theorem closeLink {now : Instant} (h : Fits k n d) : Fits k n (closeLink (loggedLink crc) d now) := by
  have hreset : Fits k n {d with
      disconnected := true, linkUp := false, linkFd := none
      txq := (loggedLink crc).reset d.txq} :=
    ⟨h.channels,h.room.reset crc ((Nat.le_add_left _ _).trans_lt h.room.2)⟩
  have hresumed : Fits k n (resumeAll (loggedLink crc) {d with
      disconnected := true, linkUp := false, linkFd := none
      txq := (loggedLink crc).reset d.txq}) := by
    unfold resumeAll
    split_ifs
    · exact quietly (.inr (.inl rfl)) ⟨hreset.channels,hreset.room⟩
    · exact hreset
  unfold Daemon.closeLink
  split_ifs
  · exact h
  · have hround : Fits k n (eachChannel (loggedLink crc) (resumeAll (loggedLink crc) {d with
        disconnected := true, linkUp := false, linkFd := none
        txq := (loggedLink crc).reset d.txq}) (fun _ => ⟨.onLinkDisconnect,Io.idle⟩)) :=
      quietly (.inr (.inr rfl)) hresumed
    exact ⟨hround.channels,hround.room⟩

theorem openLink {now : Instant} {dev : Option RawFd} (h : Fits k n d)
    (hn : statusSize+n<linkTxbufSize) : Fits k n (openLink (loggedLink crc) d now dev) := by
  cases dev with
  | none => exact ⟨h.channels,h.room⟩
  | some fd =>
    have hroom : Room (statusSize+n) ((loggedLink crc).reset d.txq) := h.room.reset crc hn
    exact ⟨h.channels,hroom.enqueue⟩

theorem connectChannels {now : Instant} (h : Fits k (statusSize*k+n) d) :
    Fits k n (connectChannels (loggedLink crc) d now) :=
  touch now (round (fun id => d.channels.demand_status id (.inl rfl)) h)

theorem loopHead {now later : Instant} {dev : Option RawFd} {ios : UInt8 → Io}
    (h : Fits k (statusSize*k+2*statusSize) d) :
    Fits k 0 (loopHead (loggedLink crc) d now later dev ios) := by
  have hopen : Fits k (statusSize*k+statusSize) (reopenIfDue (loggedLink crc) d now later dev) := by
    unfold reopenIfDue
    split_ifs
    · have hroom := h.room.2
      exact openLink (h.mono (by omega)) (by omega)
    · exact h.mono (by omega)
  have hka : Fits k (statusSize*k)
      (tickKeepalive (loggedLink crc) (reopenIfDue (loggedLink crc) d now later dev) now later) := by
    unfold tickKeepalive
    split_ifs
    · exact hopen.mono (Nat.le_add_right _ _)
    · exact closeLink (hopen.mono (Nat.le_add_right _ _))
    · exact control (hopen.mono (by omega))
    · exact hopen.mono (Nat.le_add_right _ _)
  have hticks : Fits k 0 (eachChannel (loggedLink crc)
      (tickKeepalive (loggedLink crc) (reopenIfDue (loggedLink crc) d now later dev) now later)
      (fun id => ⟨.tick now,ios id⟩)) :=
    round (fun id => ChannelMap.demand_status _ id (.inr ⟨now,rfl⟩)) hka
  unfold Daemon.loopHead armIfQueued
  split_ifs
  · exact hticks
  · exact interest true ⟨hticks.channels,hticks.room⟩

theorem resumeIfLow (h : Fits k n d) : Fits k n (resumeIfLow (loggedLink crc) d) := by
  unfold Daemon.resumeIfLow
  split_ifs
  · exact quietly (.inr (.inl rfl)) ⟨h.channels,h.room⟩
  · exact h

theorem disarmIfEmpty (h : Fits k n d) : Fits k n (disarmIfEmpty (loggedLink crc) d) := by
  unfold Daemon.disarmIfEmpty
  split_ifs
  · exact interest false h
  · exact h

theorem linkWrite {now : Instant} {w : WriteResult} (h : Fits k 0 d) :
    Fits k 0 (linkWrite (loggedLink crc) d now w) := by
  have hdrained : Fits k 0 {d with txq := ((loggedLink crc).drain d.txq w).1} := by
    have hused := (d.txq.queue.drainToFd w).queue.used_lt
    refine ⟨h.channels,h.room.1,?_⟩
    rw [Nat.add_zero]
    exact hused
  unfold Daemon.linkWrite
  dsimp only
  split_ifs
  · exact h
  · exact closeLink hdrained
  · exact disarmIfEmpty (resumeIfLow hdrained)

theorem receive {now : Instant} {io : Io} {f : Frame}
    (h : Fits k (LoopOp.demand d (.receive now io f : LoopOp WriteResult)) d) :
    Fits k 0 (receive (loggedLink crc) d now io f) := by
  have hk := h.channels
  have hrx : Fits k (LoopOp.demand d (.receive now io f : LoopOp WriteResult))
      {d with lastRx := some now} := ⟨h.channels,h.room⟩
  have hne : fPong≠fPing ∧ fHello≠fPing ∧ fHello≠fPong ∧ fAck≠fPing ∧ fAck≠fPong ∧ fAck≠fHello := by
    decide
  unfold Daemon.receive
  split_ifs with hfd
  · exact h.mono (Nat.zero_le _)
  apply dispatchFrame_induct
  · intro hf
    simp only [LoopOp.demand,hf,if_true] at hrx
    exact control hrx
  · intro _
    exact hrx.mono (Nat.zero_le _)
  · intro hf
    simp only [LoopOp.demand,hf,hne,if_true,if_false,hk] at hrx
    have hack : Fits k (statusSize*k+0) (enqueueFrame (loggedLink crc) {d with lastRx := some now} now
        (controlFrame fAck)) := control (hrx.mono (by omega))
    exact connectChannels ⟨hack.channels,hack.room⟩
  · intro _ _
    exact hrx.mono (Nat.zero_le _)
  · intro hf _
    simp only [LoopOp.demand,hf,hne,if_true,if_false,hk] at hrx
    exact connectChannels ⟨hrx.channels,hrx.room⟩
  · intro hf
    simp only [isControl,Bool.or_eq_false_iff,beq_eq_false_iff_ne] at hf
    obtain ⟨⟨⟨h₁,h₂⟩,h₃⟩,h₄⟩ := hf
    simp only [LoopOp.demand,h₁,h₂,h₃,h₄,if_false] at hrx
    have hbp : Fits k (if f.ftype=fTconn ∨ f.ftype=fTdata then cidSize else 0)
        (if f.ftype=fData ∨ f.ftype=fTdata then
          Daemon.checkBpHigh (loggedLink crc) {d with lastRx := some now}
        else {d with lastRx := some now}) := by
      split_ifs at hrx ⊢
      all_goals first | exact checkBpHigh hrx | exact hrx
    exact touch now (call (ChannelMap.demand_onFrame _ _ _ _ _) hbp)

theorem loop {op : LoopOp WriteResult} (h : Fits k (op.demand d) d) :
    Fits k 0 (loop (loggedLink crc) d op) := by
  cases op with
  | receive now io f => exact receive h
  | turn op =>
    cases op with
    | start now dev =>
      simp only [Daemon.loop,turn]
      split_ifs
      · exact openLink h (by decide)
      · exact h
    | head now later dev ios =>
      simp only [LoopOp.demand,h.channels] at h
      exact loopHead h
    | event now token readable writable io =>
      simp only [Daemon.loop,turn,Daemon.channelEvent,LoopOp.demand] at h ⊢
      cases hid : channelIdForToken token with
      | none => exact h.mono (Nat.zero_le _)
      | some id =>
        rw [hid] at h
        exact touch now (checkBpHigh (call le_rfl h))
    | send now w => exact linkWrite h
    | readError now =>
      simp only [Daemon.loop,turn]
      split_ifs
      · exact h
      · exact closeLink h
    | restart now ios =>
      refine ⟨h.channels,rfl,?_⟩
      rw [Nat.add_zero]
      exact TxQueue.new.used_lt

end Fits

section Forwards

variable (crc : List UInt8 → UInt32)

/-- A turn on the logging queue. -/
def logStep (d : Daemon Logged) (op : LoopOp WriteResult) : Daemon Logged × Unit :=
  (loop (loggedLink crc) d op,())

/-- No frame was refused, and all that an event made its channel send is at the end of the queue. -/
def Forwards (d : Daemon Logged) (op : LoopOp WriteResult) : Prop :=
  (loop (loggedLink crc) d op).txq.dropped=[] ∧
    match op with
    | .turn (.event _ token readable writable io) =>
      ∀id,channelIdForToken token=some id →
        (loop (loggedLink crc) d op).txq.queue.contents=d.txq.queue.contents++
          encodeFrames crc (d.channels.frames id ⟨.handleEvent token readable writable,io⟩)
    | _ => True

/-- The turn's inputs ask for no more than the queue has room for. -/
def HasRoom (d : Daemon Logged) (op : LoopOp WriteResult) : Prop :=
  d.txq.queue.used+op.demand d<linkTxbufSize

instance (d : Daemon Logged) (op : LoopOp WriteResult) : Decidable (HasRoom d op) :=
  inferInstanceAs (Decidable (_<_))

/-- A queue that has refused nothing holds all it was given. -/
theorem sendAll_contents {q : Logged} {fs : List Frame}
    (h : (sendAll (loggedLink crc) q fs).dropped=[]) :
    q.dropped=[] ∧ (sendAll (loggedLink crc) q fs).queue.contents=
      q.queue.contents++encodeFrames crc fs := by
  induction fs generalizing q with
  | nil => exact ⟨h,(List.append_nil _).symm⟩
  | cons f fs ih =>
    obtain ⟨hd,hc⟩ := ih h
    simp only [loggedLink] at hd
    cases ho : q.queue.overflows (f.build crc) with
    | true => simp [ho] at hd
    | false =>
      simp only [ho,Bool.false_eq_true,if_false] at hd
      refine ⟨hd,hc.trans ?_⟩
      simp only [loggedLink,TxQueue.enqueue_contents _ _ ho,encodeFrames_cons,List.append_assoc]

/-- A turn that finds the room its inputs ask for forwards everything. -/
theorem HasRoom.forwards {d : Daemon Logged} {op : LoopOp WriteResult} (hd : d.txq.dropped=[])
    (h : HasRoom d op) : Forwards crc d op := by
  have hfits : Fits d.channels.keys.length (op.demand d) d := ⟨rfl,hd,h⟩
  have hclean : (loop (loggedLink crc) d op).txq.dropped=[] := hfits.loop.room.1
  refine ⟨hclean,?_⟩
  split
  · next now token readable writable io =>
    intro id hid
    have hloop : (loop (loggedLink crc) d (.turn (.event now token readable writable io))).txq=
        sendAll (loggedLink crc) d.txq
          (d.channels.frames id ⟨.handleEvent token readable writable,io⟩) := by
      simp only [loop,turn,channelEvent,hid,touch_txq,checkBpHigh_txq]
      rfl
    rw [hloop] at hclean ⊢
    exact (sendAll_contents crc hclean).2
  · trivial

/-- Backpressure is enough in every run whose turns all find the room that their inputs ask for: the
overflow branch of `enqueue` is not taken. -/
theorem run_forwards (channels : ChannelMap) (now : Instant) {ops : List (LoopOp WriteResult)}
    (h : Always (logStep crc) HasRoom (new (loggedLink crc) channels now) ops) :
    Always (logStep crc) (Forwards crc) (new (loggedLink crc) channels now) ops := by
  refine always_of_always (logStep crc) (P := fun d => d.txq.dropped=[]) ?_ rfl h
  intro d op hd hroom
  have hforwards := hroom.forwards crc hd
  exact ⟨hforwards,hforwards.1⟩

/-- One client of a TCP source has connected over a link that is up. -/
def clientOps : List (LoopOp WriteResult) :=
  [.turn (.start 0 (some 3)),.receive 0 Io.idle (controlFrame fHello),
    .turn (.event 0 (primaryToken 0) true false {Io.idle with accepts := [⟨7,true⟩]})]

/-- The client has `rs` to be read, after which its socket would block. -/
def clientIo (rs : List (ReadResult 65536)) : Io := {Io.idle with reads := rs}

def clientReads (rs : List (ReadResult 65536)) : LoopOp WriteResult :=
  .turn (.event 0 (tcpSlotToken 0 0) true false (clientIo rs))

theorem run_forwards_oneByte :
    Always (logStep crc32) (Forwards crc32)
      (new (loggedLink crc32) (.single (.tcpSource (.new 0))) 0)
      (clientOps++[clientReads [.data [0x61] (by decide)]]) :=
  run_forwards crc32 _ 0 (by decide +kernel)

/-- A loop that is not blocked forwards as many full reads as the socket has. -/
theorem readLoop_replicate (chId : UInt8) (slot : Slot) (notify : Bool) {blocked : TcpConn → Bool}
    {c : TcpConn} (hc : blocked c=false) {bs : List UInt8} (hn : bs.length≤65536) (hne : bs≠[])
    (n : Nat) :
    wireSize (readLoop chId slot notify blocked (List.replicate n (.data bs hn)) (some c)).2.frames=
      n*streamSize (.data bs hn) := by
  cases bs with
  | nil => exact absurd rfl hne
  | cons b bs =>
    induction n with
    | zero => exact (Nat.zero_mul _).symm
    | succ n ih =>
      simp only [List.replicate_succ,readLoop,hc,Bool.false_eq_true,if_false,Effect.next_frames,
        wireSize_append,ih,tdataFrames_size,streamSize,Nat.succ_mul]
      exact Nat.add_comm _ _

/-- Nine full reads, more than the ring buffer can hold. -/
def flood : List (ReadResult 65536) :=
  List.replicate 9 (.data (List.replicate 65536 0) List.length_replicate.le)

/-- The daemon once its client has connected. -/
def connected : Daemon Logged :=
  after (logStep crc32) (new (loggedLink crc32) (.single (.tcpSource (.new 0))) 0) clientOps

/-- A TCP source of channel 0 with a client in slot 0. -/
def hasClient : DynChannel → Bool
  | .tcpSource s => decide (s.chId=0) && (s.conns 0).any (fun c => !c.closePending)
  | _ => false

theorem connected_slot : ∃s c,connected.channels.get 0=some (.tcpSource s) ∧ s.chId=0 ∧
    s.conns 0=some c ∧ c.closePending=false := by
  have h : (connected.channels.get 0).any hasClient=true := by decide +kernel
  obtain ⟨ch,hch,hclient⟩ := (Option.any_eq_true _ _).mp h
  cases ch with
  | tcpSource s =>
    simp only [hasClient,Bool.and_eq_true,decide_eq_true_eq,Option.any_eq_true,Bool.not_eq_true']
      at hclient
    obtain ⟨hid,c,hc,hp⟩ := hclient
    exact ⟨s,c,hch,hid,hc,hp⟩
  | mcu m => simp [hasClient] at hclient
  | pty p => simp [hasClient] at hclient
  | tcpDest d => simp [hasClient] at hclient

/-- What the client sends is read and forwarded. -/
theorem connected_frames {s : TcpSourceChannel} (hs : connected.channels.get 0=some (.tcpSource s))
    (hid : s.chId=0) (rs : List (ReadResult 65536)) :
    connected.channels.frames 0 ⟨.handleEvent (tcpSlotToken 0 0) true false,clientIo rs⟩=
      (readLoop s.chId 0 s.linkUp (·.closePending) rs (s.conns 0)).2.frames := by
  have hslot := slotOfToken_tcpSlotToken 0 0
  have hne : tcpSlotToken 0 0≠primaryToken s.chId := by
    rw [hid]
    exact tcpSlotToken_ne_primary 0 0
  simp only [ChannelMap.frames,hs,DynChannel.apply,TcpSourceChannel.apply,
    TcpSourceChannel.handleEvent,hne,if_false,TcpSourceChannel.tcpEvent,atSlot_effect,hslot,
    TcpSourceChannel.slotEvent,SlotOp.guard_true,SlotOp.guard_false,SlotOp.seq,SlotOp.skip,
    Effect.next_quiet,clientIo]

/-- A full read goes out in five frames. -/
theorem streamSize_full {bs : List UInt8} {hn : bs.length≤65536} (h : bs.length=65536) :
    streamSize (.data bs hn)=65596 := by
  simp only [streamSize,h,maxPayload,cidSize,hdrSize,crcSize]

theorem flood_size :
    wireSize (connected.channels.frames 0
      ⟨.handleEvent (tcpSlotToken 0 0) true false,clientIo flood⟩)=590364 := by
  obtain ⟨s,c,hs,hid,hc,hp⟩ := connected_slot
  have hlen : (List.replicate 65536 (0 : UInt8)).length=65536 := List.length_replicate
  have hne : List.replicate 65536 (0 : UInt8)≠[] := List.ne_nil_of_length_pos (by
    rw [hlen]
    decide)
  have hsize := readLoop_replicate s.chId 0 s.linkUp hp hlen.le hne 9
  rw [streamSize_full hlen] at hsize
  rw [connected_frames hs hid,hc]
  exact hsize

/-- A client that has nine full reads waiting makes the queue drop frames, whose bytes are lost. -/
theorem flood_dropped :
    ¬∀channels now ops,Always (logStep crc32) (Forwards crc32)
      (new (loggedLink crc32) channels now) ops := by
  intro h
  have hrun := h (.single (.tcpSource (.new 0))) 0 (clientOps++[clientReads flood])
  have hforwards : Forwards crc32 connected (clientReads flood) :=
    ((always_append (logStep crc32)).mp hrun).2.1
  have hid : channelIdForToken (tcpSlotToken 0 0)=some 0 := by decide
  have hcontents : (loop (loggedLink crc32) connected (clientReads flood)).txq.queue.contents=
      connected.txq.queue.contents++encodeFrames crc32 (connected.channels.frames 0
        ⟨.handleEvent (tcpSlotToken 0 0) true false,clientIo flood⟩) :=
    hforwards.2 0 hid
  have hlen := congrArg List.length hcontents
  rw [List.length_append,TxQueue.contents_length,encodeFrames_length crc32 (fun f hf =>
    (connected.channels.frames_channelFrame 0 _ f hf).fits),flood_size] at hlen
  have hused := (loop (loggedLink crc32) connected (clientReads flood)).txq.queue.used_lt
  rw [hlen] at hused
  exact absurd ((Nat.le_add_left _ _).trans_lt hused) (by decide)

end Forwards

end Daemon

end Serialmux.EventLoop

import Serialmux.EventLoop.Hysteresis

namespace Serialmux.Channel

open Protocol

/-- A call that a channel may see while there is no link. -/
def ChannelOp.offline : ChannelOp → Bool
  | .tick _ => true
  | .handleEvent _ _ _ => true
  | _ => false

namespace McuChannel

/-- Nothing is sent, nothing waits and nothing is paused. -/
structure Down (c : McuChannel) : Prop where
  linkUp : c.linkUp=false
  txbuf : c.txbuf=[]
  bpPaused : c.bpPaused=false

theorem transition_down {c : McuChannel} (h : c.Down) (newState : McuState) :
    (c.transition newState).1.Down ∧ (c.transition newState).2=[] := by
  have hsent : ∀fs,c.whenUp fs=[] := fun fs => by rw [whenUp,h.linkUp]; rfl
  unfold transition
  split_ifs
  · exact ⟨h,rfl⟩
  · cases newState with
    | init => exact ⟨⟨h.linkUp,h.txbuf,h.bpPaused⟩,rfl⟩
    | resetting => exact ⟨⟨h.linkUp,rfl,h.bpPaused⟩,hsent _⟩
    | active => exact ⟨⟨h.linkUp,h.txbuf,h.bpPaused⟩,hsent _⟩

theorem updateInterest_down {c : McuChannel} (h : c.Down) : c.updateInterest.Down := by
  unfold updateInterest
  split
  · exact h
  · exact ⟨h.linkUp,h.txbuf,h.bpPaused⟩

theorem awaitSync_down {c : McuChannel} (h : c.Down) (data : List UInt8) :
    (c.awaitSync data).1.Down ∧ (c.awaitSync data).2=[] := by
  unfold awaitSync
  split
  · exact ⟨h,rfl⟩
  · obtain ⟨hc,hf⟩ := transition_down h .active
    refine ⟨hc,?_⟩
    simp only [hf,whenUp,hc.linkUp]
    rfl

theorem uartRead_down {c : McuChannel} (h : c.Down) (io : Io) :
    (c.uartRead io).1.Down ∧ (c.uartRead io).2.frames=[] := by
  unfold uartRead
  cases c.fd with
  | none => exact ⟨h,rfl⟩
  | some fd =>
    cases io.read with
    | wouldBlock => exact ⟨h,rfl⟩
    | error e =>
      have hclosed : c.closeUart.Down := ⟨h.linkUp,h.txbuf,h.bpPaused⟩
      obtain ⟨hc,hf⟩ := transition_down hclosed .resetting
      exact ⟨⟨hc.linkUp,hc.txbuf,hc.bpPaused⟩,hf⟩
    | data bs hn =>
      cases bs with
      | nil => exact ⟨h,rfl⟩
      | cons b bs =>
        have heard : Down {c with fd := some fd, lastRx := some io.now} := ⟨h.linkUp,h.txbuf,h.bpPaused⟩
        have hsync := awaitSync_down heard (b::bs)
        dsimp only
        split
        · exact hsync
        · exact hsync
        · refine ⟨heard,?_⟩
          simp only [whenUp,h.linkUp]
          rfl

theorem uartDrain_down {c : McuChannel} (h : c.Down) (io : Io) :
    (c.uartDrain io).1.Down ∧ (c.uartDrain io).2.frames=[] := by
  unfold uartDrain
  split
  · exact ⟨h,rfl⟩
  · rw [if_pos h.txbuf]
    exact ⟨h,rfl⟩

theorem Down.apply {c : McuChannel} (h : c.Down) {call : Call} (ho : call.op.offline=true) :
    (c.apply call).1.Down ∧ (c.apply call).2.frames=[] := by
  obtain ⟨op,io⟩ := call
  cases op with
  | tick now =>
    simp only [McuChannel.apply,tick,openUart]
    split
    · split
      · exact ⟨h,rfl⟩
      · split_ifs
        · split
          · next fd _ =>
            have hopen : Down {c with fd := some fd, watch := .fresh, reopenAt := none} :=
              ⟨h.linkUp,h.txbuf,h.bpPaused⟩
            exact ⟨updateInterest_down hopen,rfl⟩
          · exact ⟨⟨h.linkUp,h.txbuf,h.bpPaused⟩,rfl⟩
        · exact ⟨h,rfl⟩
    · split
      · split_ifs
        · exact transition_down h .resetting
        · exact ⟨h,rfl⟩
      · exact ⟨h,rfl⟩
  | handleEvent token readable writable =>
    have hread := uartRead_down h io
    cases readable with
    | false =>
      cases writable with
      | false => exact ⟨h,rfl⟩
      | true => exact uartDrain_down h io
    | true =>
      cases writable with
      | false => exact ⟨hread.1,by simpa [McuChannel.apply,handleEvent] using hread.2⟩
      | true =>
        obtain ⟨hc,hf⟩ := uartDrain_down hread.1 io
        exact ⟨hc,by simp [McuChannel.apply,handleEvent,hread.2,hf]⟩
  | onFrame => cases ho
  | onLinkConnect => cases ho
  | onLinkDisconnect => cases ho
  | pauseSourceReads => cases ho
  | resumeSourceReads => cases ho

end McuChannel

namespace PtyChannel

structure Down (c : PtyChannel) : Prop where
  masterFd : c.masterFd=none
  slaveFd : c.slaveFd=none
  txbuf : c.txbuf=[]

theorem Down.apply {c : PtyChannel} (h : c.Down) {call : Call} (ho : call.op.offline=true) :
    (c.apply call).1.Down ∧ (c.apply call).2.frames=[] := by
  obtain ⟨op,io⟩ := call
  cases op with
  | tick => exact ⟨h,rfl⟩
  | handleEvent =>
    simp only [PtyChannel.apply,handleEvent,h.masterFd]
    exact ⟨h,rfl⟩
  | onFrame => cases ho
  | onLinkConnect => cases ho
  | onLinkDisconnect => cases ho
  | pauseSourceReads => cases ho
  | resumeSourceReads => cases ho

end PtyChannel

theorem update_empty {conns : Slot → Option TcpConn} (h : ∀k,conns k=none) (j k : Slot) :
    Function.update conns j none k=none := by
  rw [Function.update_apply]
  split_ifs
  · rfl
  · exact h k

namespace TcpSourceChannel

structure Down (s : TcpSourceChannel) : Prop where
  linkUp : s.linkUp=false
  conns : ∀k,s.conns k=none

/-- Without a link every client is turned away. -/
theorem accept_offline {s : TcpSourceChannel} (h : s.linkUp=false) (as : List Accepted) :
    s.accept as=(s,.quiet) := by
  induction as with
  | nil => rfl
  | cons a as ih =>
    have hone : s.acceptOne a=(s,.quiet) := by simp [acceptOne,h]
    simp [accept,hone,ih]

theorem Down.apply {s : TcpSourceChannel} (h : s.Down) {call : Call} (ho : call.op.offline=true) :
    (s.apply call).1.Down ∧ (s.apply call).2.frames=[] := by
  obtain ⟨op,io⟩ := call
  cases op with
  | tick => exact ⟨h,rfl⟩
  | handleEvent token readable writable =>
    simp only [TcpSourceChannel.apply,handleEvent]
    split_ifs
    · rw [accept_offline h.linkUp]
      exact ⟨h,rfl⟩
    · exact ⟨h,rfl⟩
    · have hempty := (s.slotEvent_local (slotOfToken token) readable writable io).empty
      simp only [tcpEvent,atSlot,h.conns,hempty]
      exact ⟨⟨h.linkUp,update_empty h.conns _⟩,rfl⟩
  | onFrame => cases ho
  | onLinkConnect => cases ho
  | onLinkDisconnect => cases ho
  | pauseSourceReads => cases ho
  | resumeSourceReads => cases ho

end TcpSourceChannel

namespace TcpDestChannel

structure Down (d : TcpDestChannel) : Prop where
  conns : ∀k,d.conns k=none

theorem Down.apply {d : TcpDestChannel} (h : d.Down) {call : Call} (ho : call.op.offline=true) :
    (d.apply call).1.Down ∧ (d.apply call).2.frames=[] := by
  obtain ⟨op,io⟩ := call
  cases op with
  | tick => exact ⟨h,rfl⟩
  | handleEvent token readable writable =>
    have hempty := (d.slotEvent_local (slotOfToken token) readable writable io).empty
    simp only [TcpDestChannel.apply,tcpEvent,atSlot,h.conns,hempty]
    exact ⟨⟨update_empty h.conns _⟩,rfl⟩
  | onFrame => cases ho
  | onLinkConnect => cases ho
  | onLinkDisconnect => cases ho
  | pauseSourceReads => cases ho
  | resumeSourceReads => cases ho

end TcpDestChannel

namespace DynChannel

/-- A channel of a daemon without a link. -/
def Down : DynChannel → Prop
  | mcu c => c.Down
  | pty c => c.Down
  | tcpSource c => c.Down
  | tcpDest c => c.Down

theorem Down.apply {c : DynChannel} (h : c.Down) {call : Call} (ho : call.op.offline=true) :
    (c.apply call).1.Down ∧ (c.apply call).2.frames=[] := by
  cases c with
  | mcu c => exact McuChannel.Down.apply h ho
  | pty c => exact PtyChannel.Down.apply h ho
  | tcpSource c => exact TcpSourceChannel.Down.apply h ho
  | tcpDest c => exact TcpDestChannel.Down.apply h ho

theorem fresh_down (io : Io) (c : DynChannel) : (c.fresh io).Down := by
  cases c with
  | mcu c =>
    simp only [fresh,Down,McuChannel.new,McuChannel.openUart]
    split
    · exact McuChannel.updateInterest_down ⟨rfl,rfl,rfl⟩
    · exact ⟨rfl,rfl,rfl⟩
  | pty c => exact PtyChannel.Down.mk rfl rfl rfl
  | tcpSource c => exact TcpSourceChannel.Down.mk rfl (fun _ => rfl)
  | tcpDest c => exact TcpDestChannel.Down.mk (fun _ => rfl)

/-- The notice of a lost link takes a channel down, if it is not paused. -/
theorem disconnect_down {c : DynChannel} (hp : c.bpPaused=false) (io : Io) :
    (c.apply ⟨.onLinkDisconnect,io⟩).1.Down := by
  cases c with
  | mcu c => exact McuChannel.updateInterest_down ⟨rfl,rfl,hp⟩
  | pty c => exact PtyChannel.Down.mk rfl rfl rfl
  | tcpSource c => exact TcpSourceChannel.Down.mk rfl (fun _ => rfl)
  | tcpDest c => exact TcpDestChannel.Down.mk (fun _ => rfl)

end DynChannel

end Serialmux.Channel

namespace Serialmux.EventLoop

open Framework Protocol Channel

namespace Daemon

/-- A daemon whose link is gone, with all that was bound to it. -/
structure Down (d : Daemon TxQueue) : Prop where
  linkFd : d.linkFd=none
  linkUp : d.linkUp=false
  linkBp : d.linkBp=false
  txq : d.txq.isEmpty=true
  channels : ∀id c,d.channels.get id=some c → c.Down

namespace Down

variable {crc : List UInt8 → UInt32} {d : Daemon TxQueue}

theorem used (h : Down d) : d.txq.used=0 := by
  rw [← TxQueue.contents_length,d.txq.isEmpty_iff.mp h.txq]
  rfl

/-- A channel without a link has nothing to send. -/
theorem call {id : UInt8} {c : Call} (ho : c.op.offline=true) (h : Down d) :
    Down (callChannel (txLink crc) d id c) := by
  have hframes : d.channels.frames id c=[] := by
    unfold ChannelMap.frames
    cases hc : d.channels.get id with
    | none => rfl
    | some c₀ => exact ((h.channels id c₀ hc).apply ho).2
  refine ⟨h.linkFd,h.linkUp,h.linkBp,?_,?_⟩
  · rw [callChannel,hframes]
    exact h.txq
  · intro j c' hget
    by_cases hj : j=id
    · subst hj
      rw [callChannel,ChannelMap.set_get_self] at hget
      obtain ⟨c₀,hc₀,rfl⟩ := Option.map_eq_some_iff.mp hget
      exact ((h.channels j c₀ hc₀).apply ho).1
    · rw [callChannel,ChannelMap.set_get_other _ _ hj] at hget
      exact h.channels j c' hget

theorem each {call : UInt8 → Call} (ho : ∀id,(call id).op.offline=true) (h : Down d) :
    Down (eachChannel (txLink crc) d call) :=
  eachChannel_induct (txLink crc) call (fun _ id h => h.call (ho id)) h

theorem interest (b : Bool) (h : Down d) : Down (d.setLinkWriteInterest b) := by
  obtain ⟨b',hb⟩ := setLinkWriteInterest_eq d b
  rw [hb]
  exact ⟨h.linkFd,h.linkUp,h.linkBp,h.txq,h.channels⟩

theorem channelEvent (now : Instant) (token : Token) (readable writable : Bool) (io : Io)
    (h : Down d) : Down (channelEvent (txLink crc) d now token readable writable io) := by
  unfold Daemon.channelEvent
  split
  · exact h
  · next id _ =>
    have hcall : Down (callChannel (txLink crc) d id ⟨.handleEvent token readable writable,io⟩) :=
      h.call rfl
    have hlow : Daemon.checkBpHigh (txLink crc)
        (callChannel (txLink crc) d id ⟨.handleEvent token readable writable,io⟩)=
          callChannel (txLink crc) d id ⟨.handleEvent token readable writable,io⟩ := by
      rw [Daemon.checkBpHigh,if_neg]
      intro ⟨_,hhigh⟩
      rw [show (txLink crc).used _=0 from hcall.used] at hhigh
      exact absurd hhigh (by decide)
    rw [hlow,Daemon.touch]
    exact interest _ ⟨hcall.linkFd,hcall.linkUp,hcall.linkBp,hcall.txq,hcall.channels⟩

variable (crc) in
/-- Whoever is resumed keeps its link as it is. -/
theorem resumeAll_core (d : Daemon TxQueue) :
    ∃m,resumeAll (txLink crc) d={d with channels := m, linkBp := false} := by
  unfold resumeAll
  split_ifs with hbp
  · obtain ⟨m,hm,-⟩ := eachChannel_silent (txLink crc) {d with linkBp := false}
      (d.channels.frames_silent (DynChannel.resume_frames · Io.idle))
    exact ⟨m,hm⟩
  · have hoff : d.linkBp=false := by simpa using hbp
    exact ⟨d.channels,by rw [← hoff]⟩

/-- A link that goes down takes everything with it. -/
theorem closeLink (hd : d.disconnected=false)
    (hflags : ∀id c,d.channels.get id=some c → c.bpPaused=d.linkBp) (now : Instant) :
    Down (closeLink (txLink crc) d now) := by
  rw [Daemon.closeLink,if_neg (by simp [hd])]
  have hresumed : Hysteresis (resumeAll (txLink crc) {d with
      disconnected := true, linkUp := false, linkFd := none, txq := (txLink crc).reset d.txq}) :=
    .resumeAll hflags
  obtain ⟨m,hm⟩ := resumeAll_core crc {d with
    disconnected := true, linkUp := false, linkFd := none, txq := (txLink crc).reset d.txq}
  rw [hm] at hresumed ⊢
  obtain ⟨m',hm',hget⟩ := eachChannel_silent (txLink crc) {d with
    disconnected := true, linkUp := false, linkFd := none, txq := (txLink crc).reset d.txq
    channels := m, linkBp := false}
    (m.frames_silent (DynChannel.disconnect_frames · Io.idle))
  rw [hm']
  refine ⟨rfl,rfl,rfl,(TxQueue.isEmpty_iff _).mpr (TxQueue.reset_contents _),?_⟩
  intro id c hc
  have hc' : m'.get id=some c := hc
  rw [hget] at hc'
  obtain ⟨c₀,hc₀,rfl⟩ := Option.map_eq_some_iff.mp hc'
  exact DynChannel.disconnect_down (hresumed.flags id c₀ hc₀) Io.idle

variable (crc) in
theorem new (m : ChannelMap) (ios : UInt8 → Io) (now : Instant) :
    Down (new (txLink crc) (m.fresh ios) now) := by
  refine ⟨rfl,rfl,rfl,(TxQueue.isEmpty_iff _).mpr TxQueue.new_contents,?_⟩
  intro id c hc
  obtain ⟨c₀,-,rfl⟩ := Option.map_eq_some_iff.mp hc
  exact DynChannel.fresh_down _ c₀

end Down

/-- Flags and queue agree, and whatever has no link is down. -/
structure Coherent (d : Daemon TxQueue) : Prop where
  hysteresis : Hysteresis d
  down : d.disconnected=true → Down d

namespace Coherent

variable {crc : List UInt8 → UInt32} {d : Daemon TxQueue}

theorem connected (h : Coherent d) (hfd : d.linkFd≠none) : d.disconnected=false := by
  cases hd : d.disconnected with
  | false => rfl
  | true => exact absurd (h.down hd).linkFd hfd

theorem openLink (now : Instant) (dev : Option RawFd) (h : Coherent d) (hd : d.disconnected=true) :
    Coherent (openLink (txLink crc) d now dev) := by
  have hdown := h.down hd
  refine ⟨h.hysteresis.openLink now dev hdown.linkBp,?_⟩
  cases dev with
  | none => exact fun _ => ⟨hdown.linkFd,hdown.linkUp,hdown.linkBp,hdown.txq,hdown.channels⟩
  | some fd => exact nofun

theorem closeLink (now : Instant) (h : Coherent d) : Coherent (closeLink (txLink crc) d now) := by
  refine ⟨h.hysteresis.closeLink now,fun _ => ?_⟩
  cases hd : d.disconnected with
  | false => exact .closeLink hd h.hysteresis.flags now
  | true =>
    rw [Daemon.closeLink,if_pos hd]
    exact h.down hd

/-- An operation that leaves the link open. -/
theorem of_link {d' : Daemon TxQueue} (hh : Hysteresis d') (hlink : d'.link=d.link)
    (hd : d.disconnected=false) : Coherent d' := by
  simp only [link,Prod.mk.injEq] at hlink
  exact ⟨hh,fun h => absurd ((hlink.2.1.trans hd).symm.trans h) Bool.false_ne_true⟩

theorem tickKeepalive (now later : Instant) (h : Coherent d) :
    Coherent (tickKeepalive (txLink crc) d now later) := by
  have hh : Hysteresis (Daemon.tickKeepalive (txLink crc) d now later) :=
    h.hysteresis.tickKeepalive now later
  unfold Daemon.tickKeepalive at hh ⊢
  split_ifs at hh ⊢ with hd
  · exact h
  · exact h.closeLink later
  · exact of_link hh (enqueueFrame_link _ d later _) (by simpa using hd)
  · exact h

theorem ticks (now : Instant) (ios : UInt8 → Io) (h : Coherent d) :
    Coherent (eachChannel (txLink crc) d (fun id => ⟨.tick now,ios id⟩)) := by
  refine ⟨h.hysteresis.each (fun _ _ => rfl),?_⟩
  have hlink : (eachChannel (txLink crc) d (fun id => ⟨.tick now,ios id⟩)).link=d.link :=
    (link_kept (txLink crc) d.link).each (fun _ => trivial) rfl
  simp only [link,Prod.mk.injEq] at hlink
  intro hd
  exact (h.down (hlink.2.1.symm.trans hd)).each (fun _ => rfl)

theorem loopHead (now later : Instant) (dev : Option RawFd) (ios : UInt8 → Io) (h : Coherent d) :
    Coherent (loopHead (txLink crc) d now later dev ios) := by
  have hopen : Coherent (reopenIfDue (txLink crc) d now later dev) := by
    unfold reopenIfDue
    split_ifs with hdue
    · exact h.openLink later dev hdue.1
    · exact h
  have hkept : Coherent (Daemon.tickKeepalive (txLink crc) _ now later) :=
    hopen.tickKeepalive now later
  have hticks : Coherent (eachChannel (txLink crc) _ (fun id => ⟨.tick now,ios id⟩)) :=
    hkept.ticks now ios
  unfold Daemon.loopHead armIfQueued
  split_ifs with hq
  · exact hticks
  · -- Only a daemon with a link has anything queued here.
    refine ⟨.interest true ⟨hticks.hysteresis.flags,hticks.hysteresis.level⟩,?_⟩
    intro hd
    obtain ⟨b,hb⟩ := setLinkWriteInterest_eq _ true
    rw [hb] at hd
    exact absurd (hticks.down hd).txq hq

theorem linkWrite (now : Instant) (w : WriteResult) (h : Coherent d) :
    Coherent (linkWrite (txLink crc) d now w) := by
  have hh : Hysteresis (Daemon.linkWrite (txLink crc) d now w) := h.hysteresis.linkWrite now w
  unfold Daemon.linkWrite at hh ⊢
  dsimp only at hh ⊢
  split_ifs at hh ⊢ with hfd hr
  · exact h
  · refine ⟨hh,fun _ => ?_⟩
    exact Down.closeLink (d := {d with txq := ((txLink crc).drain d.txq w).1}) (h.connected hfd)
      h.hysteresis.flags now
  · have k := link_kept (txLink crc) d.link
    exact of_link hh (k.disarmIfEmpty (k.resumeIfLow rfl)) (h.connected hfd)

theorem loop (h : Coherent d) (op : LoopOp WriteResult) : Coherent (loop (txLink crc) d op) := by
  have hh : Hysteresis (Daemon.loop (txLink crc) d op) :=
    h.hysteresis.loop (fun hd => (h.down hd).linkBp)
  cases op with
  | receive now io f =>
    simp only [Daemon.loop,receive] at hh ⊢
    split_ifs at hh ⊢ with hfd
    · exact h
    · exact of_link hh (dispatchFrame_link (txLink crc) _ now io f) (h.connected hfd)
  | turn op =>
    cases op with
    | start now dev =>
      simp only [Daemon.loop,turn]
      split_ifs with hd
      · exact h.openLink now dev hd
      · exact h
    | head now later dev ios => exact h.loopHead now later dev ios
    | event now token readable writable io =>
      refine ⟨hh,?_⟩
      have hlink : (channelEvent (txLink crc) d now token readable writable io).link=d.link :=
        (link_kept (txLink crc) d.link).channelEvent now (fun _ => trivial) rfl
      simp only [link,Prod.mk.injEq] at hlink
      intro hd
      exact (h.down (hlink.2.1.symm.trans hd)).channelEvent now token readable writable io
    | send now w => exact h.linkWrite now w
    | readError now =>
      simp only [Daemon.loop,turn]
      split_ifs
      · exact h
      · exact h.closeLink now
    | restart now ios => exact ⟨hh,fun _ => .new crc d.channels ios now⟩

variable (crc) in
theorem run (m : ChannelMap) (ios : UInt8 → Io) (now : Instant) (ops : List (RunOp WriteResult)) :
    Coherent (after (step (txLink crc) crc) (Daemon.new (txLink crc) (m.fresh ios) now) ops) := by
  apply after_of_step
  · intro d op h
    cases op with
    | loop op => exact h.loop op
    | link now readable writable r ios w =>
      apply linkEvent_induct (txLink crc) crc _ (fun _ now w h => h.linkWrite now w)
        (fun _ now h => h.closeLink now) _ h
      · intro d now io f h
        exact h.loop (.receive now io f)
      · intro d p t h
        refine ⟨⟨h.hysteresis.flags,h.hysteresis.level⟩,?_⟩
        intro hd
        obtain ⟨hfd,hup,hbp,hq,hch⟩ := h.down hd
        exact ⟨hfd,hup,hbp,hq,hch⟩
  · exact ⟨.new crc m ios now,fun _ => .new crc m ios now⟩

end Coherent

section Runs

variable (crc : List UInt8 → UInt32) (m : ChannelMap) (ios : UInt8 → Io) (now : Instant)
  (ops : List (RunOp WriteResult))

/-- Backpressure cannot stick: after any turns of the process the pause flags of all channels are the
daemon's own, and a pause means that the queue has yet to drain. -/
theorem backpressure_agrees :
    Hysteresis (after (step (txLink crc) crc) (new (txLink crc) (m.fresh ios) now) ops) :=
  (Coherent.run crc m ios now ops).hysteresis

/-- The teardown of a link is complete and stays so until the next open, and meanwhile no client
gets in. -/
theorem teardown_complete
    (hd : (after (step (txLink crc) crc) (new (txLink crc) (m.fresh ios) now) ops).disconnected=true) :
    let d := after (step (txLink crc) crc) (new (txLink crc) (m.fresh ios) now) ops
    Down d ∧ ∀id s,d.channels.get id=some (.tcpSource s) → ∀as,s.accept as=(s,.quiet) := by
  have h := (Coherent.run crc m ios now ops).down hd
  refine ⟨h,?_⟩
  intro id s hs
  have hs' : s.Down := h.channels id _ hs
  exact TcpSourceChannel.accept_offline hs'.linkUp

/-- A link that is opened and lost again, with a client knocking afterwards. -/
def lostOps : List (RunOp WriteResult) :=
  [.loop (.turn (.start 0 (some 3))),.loop (.receive 1 .idle (controlFrame fHello)),
    .link 2 true false (.error .other) (fun _ => .idle) .again,
    .loop (.turn (.event 3 (primaryToken 1) true false {Io.idle with accepts := [⟨7,true⟩]}))]

theorem teardown_complete_lost :
    Down (after (step (txLink crc32) crc32)
      (new (txLink crc32) ((ChannelMap.single (.tcpSource (.new 1))).fresh (fun _ => .idle)) 0)
      lostOps) :=
  (teardown_complete crc32 _ _ 0 lostOps rfl).1

end Runs

end Daemon

end Serialmux.EventLoop

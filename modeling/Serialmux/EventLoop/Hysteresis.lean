import Serialmux.Channel.Pause
import Serialmux.EventLoop.Run

namespace Serialmux.EventLoop

open Framework Protocol Channel

section Level

variable (crc : List UInt8 → UInt32)

theorem enqueue_used_le (q : TxQueue) (f : Frame) : q.used≤((txLink crc).enqueue q f).used := by
  cases ho : q.overflows (f.build crc) with
  | true => exact (congrArg TxQueue.used (q.enqueue_overflow _ ho)).ge
  | false =>
    have hused := q.enqueue_used _ ho
    simp only [txLink,hused]
    exact Nat.le_add_right _ _

theorem sendAll_used_le (q : TxQueue) (fs : List Frame) :
    q.used≤(Daemon.sendAll (txLink crc) q fs).used := by
  induction fs generalizing q with
  | nil => exact le_rfl
  | cons f fs ih => exact (enqueue_used_le crc q f).trans (ih _)

end Level

namespace Daemon

/-- The channels are paused exactly while the daemon holds them back, which it does only above the
low-water mark. -/
structure Hysteresis (d : Daemon TxQueue) : Prop where
  flags : ∀id c,d.channels.get id=some c → c.bpPaused=d.linkBp
  level : d.linkBp=true → linkLowWater<d.txq.used

namespace Hysteresis

variable {crc : List UInt8 → UInt32} {d : Daemon TxQueue}

/-- A channel may do what it likes, as long as its pause is left to the daemon. -/
theorem call {c : Call} (hp : ∀p,c.op.pauses p=p) (id : UInt8) (h : Hysteresis d) :
    Hysteresis (callChannel (txLink crc) d id c) := by
  refine ⟨?_,fun hbp => (h.level hbp).trans_le (sendAll_used_le crc _ _)⟩
  intro j c' hget
  by_cases hj : j=id
  · subst hj
    rw [callChannel,ChannelMap.set_get_self] at hget
    obtain ⟨c₀,hc₀,rfl⟩ := Option.map_eq_some_iff.mp hget
    rw [DynChannel.apply_bpPaused,hp]
    exact h.flags j c₀ hc₀
  · rw [callChannel,ChannelMap.set_get_other _ _ hj] at hget
    exact h.flags j c' hget

theorem each {call : UInt8 → Call} (hp : ∀id p,(call id).op.pauses p=p) (h : Hysteresis d) :
    Hysteresis (eachChannel (txLink crc) d call) :=
  eachChannel_induct (txLink crc) call (fun _ id h => h.call (hp id) id) h

/-- Pausing or resuming all channels brings their flags in line, whatever they were. -/
theorem setAll {op : ChannelOp} {p : Bool} (hp : ∀q,op.pauses q=p)
    (hlevel : p=true → linkLowWater<d.txq.used) :
    Hysteresis (eachChannel (txLink crc) {d with linkBp := p} (fun _ => ⟨op,Io.idle⟩)) := by
  obtain ⟨m,hm,-,hget⟩ := eachChannel_eq (txLink crc) {d with linkBp := p} (fun _ => ⟨op,Io.idle⟩)
  rw [hm]
  refine ⟨?_,fun hbp => (hlevel hbp).trans_le (sendAll_used_le crc _ _)⟩
  intro id c hc
  rw [hget] at hc
  obtain ⟨c₀,-,rfl⟩ := Option.map_eq_some_iff.mp hc
  rw [DynChannel.apply_bpPaused,hp]

theorem interest (b : Bool) (h : Hysteresis d) : Hysteresis (d.setLinkWriteInterest b) := by
  obtain ⟨b',hb⟩ := setLinkWriteInterest_eq d b
  rw [hb]
  exact ⟨h.flags,h.level⟩

theorem touch (now : Instant) (h : Hysteresis d) : Hysteresis (touch (txLink crc) d now) :=
  interest _ ⟨h.flags,h.level⟩

theorem checkBpHigh (h : Hysteresis d) : Hysteresis (checkBpHigh (txLink crc) d) := by
  unfold Daemon.checkBpHigh
  split_ifs with hbp
  · exact setAll (fun _ => rfl)
      (fun _ => (by decide : linkLowWater<linkHighWater).trans_le hbp.2)
  · exact h

theorem enqueueFrame (now : Instant) (f : Frame) (h : Hysteresis d) :
    Hysteresis (enqueueFrame (txLink crc) d now f) := by
  unfold Daemon.enqueueFrame
  split_ifs
  · exact h
  · exact interest true ⟨h.flags,fun hbp => (h.level hbp).trans_le (enqueue_used_le crc _ _)⟩

theorem connectChannels (now : Instant) (h : Hysteresis d) :
    Hysteresis (connectChannels (txLink crc) d now) :=
  touch now (each (fun _ _ => rfl) h)

/-- Resuming all channels, for whatever reason, is as good as having found them running. -/
theorem resumeAll (hflags : ∀id c,d.channels.get id=some c → c.bpPaused=d.linkBp) :
    Hysteresis (resumeAll (txLink crc) d) := by
  unfold Daemon.resumeAll
  split_ifs with hbp
  · exact setAll (fun _ => rfl) nofun
  · exact ⟨hflags,fun hup => absurd hup hbp⟩

theorem closeLink (now : Instant) (h : Hysteresis d) :
    Hysteresis (closeLink (txLink crc) d now) := by
  unfold Daemon.closeLink
  split_ifs
  · exact h
  · have hresumed : Hysteresis (Daemon.resumeAll (txLink crc) {d with
        disconnected := true, linkUp := false, linkFd := none
        txq := (txLink crc).reset d.txq}) := resumeAll h.flags
    have hround : Hysteresis (eachChannel (txLink crc) _ (fun _ => ⟨.onLinkDisconnect,Io.idle⟩)) :=
      hresumed.each (fun _ _ => rfl)
    exact ⟨hround.flags,hround.level⟩

/-- A link is opened with no pause in force. -/
theorem openLink (now : Instant) (dev : Option RawFd) (hbp : d.linkBp=false) (h : Hysteresis d) :
    Hysteresis (openLink (txLink crc) d now dev) := by
  cases dev with
  | none => exact ⟨h.flags,h.level⟩
  | some fd => exact ⟨fun id c hc => (h.flags id c hc).trans hbp,nofun⟩

/-- Whatever a write leaves in the queue, a pause survives it only above the mark. -/
theorem resumeIfLow (hflags : ∀id c,d.channels.get id=some c → c.bpPaused=d.linkBp) :
    Hysteresis (resumeIfLow (txLink crc) d) := by
  unfold Daemon.resumeIfLow
  split_ifs with hbp
  · exact setAll (fun _ => rfl) nofun
  · refine ⟨hflags,?_⟩
    intro hup
    exact lt_of_not_ge (fun hlow => hbp ⟨hup,hlow⟩)

theorem linkWrite (now : Instant) (w : WriteResult) (h : Hysteresis d) :
    Hysteresis (linkWrite (txLink crc) d now w) := by
  unfold Daemon.linkWrite
  dsimp only
  split_ifs with hfd hr
  · exact h
  · have hsame : ((txLink crc).drain d.txq w).1=d.txq := by
      simp only [txLink,TxQueue.drainToFd] at hr ⊢
      split_ifs at hr ⊢
      cases w with
      | wrote n => exact nomatch hr
      | again => rfl
      | error => rfl
    rw [hsame]
    exact h.closeLink now
  · have hresumed : Hysteresis (Daemon.resumeIfLow (txLink crc)
        {d with txq := ((txLink crc).drain d.txq w).1}) := resumeIfLow h.flags
    unfold disarmIfEmpty
    split_ifs
    · exact hresumed.interest false
    · exact hresumed

theorem tickKeepalive (now later : Instant) (h : Hysteresis d) :
    Hysteresis (tickKeepalive (txLink crc) d now later) := by
  unfold Daemon.tickKeepalive
  split_ifs
  · exact h
  · exact h.closeLink later
  · exact h.enqueueFrame later _
  · exact h

theorem loopHead (now later : Instant) (dev : Option RawFd) (ios : UInt8 → Io)
    (hbp : d.disconnected=true → d.linkBp=false) (h : Hysteresis d) :
    Hysteresis (loopHead (txLink crc) d now later dev ios) := by
  have hopen : Hysteresis (reopenIfDue (txLink crc) d now later dev) := by
    unfold reopenIfDue
    split_ifs with hdue
    · exact h.openLink later dev (hbp hdue.1)
    · exact h
  have hkept : Hysteresis (Daemon.tickKeepalive (txLink crc) _ now later) :=
    hopen.tickKeepalive now later
  have hticks : Hysteresis (eachChannel (txLink crc) _ (fun id => ⟨.tick now,ios id⟩)) :=
    hkept.each (fun _ _ => rfl)
  unfold Daemon.loopHead armIfQueued
  split_ifs
  · exact hticks
  · exact interest true ⟨hticks.flags,hticks.level⟩

theorem receive (now : Instant) (io : Io) (f : Frame) (h : Hysteresis d) :
    Hysteresis (receive (txLink crc) d now io f) := by
  unfold Daemon.receive
  split_ifs
  · exact h
  have hrx : Hysteresis {d with lastRx := some now} := ⟨h.flags,h.level⟩
  apply dispatchFrame_induct
  · intro _
    exact hrx.enqueueFrame now _
  · intro _
    exact hrx
  · intro _
    have hack : Hysteresis (Daemon.enqueueFrame (txLink crc) _ now (controlFrame fAck)) :=
      hrx.enqueueFrame now _
    exact connectChannels now ⟨hack.flags,hack.level⟩
  · intro _ _
    exact hrx
  · intro _ _
    exact connectChannels now ⟨hrx.flags,hrx.level⟩
  · intro _
    apply touch
    apply call (fun _ => rfl)
    split_ifs
    · exact hrx.checkBpHigh
    · exact hrx

theorem channelEvent (now : Instant) (token : Token) (readable writable : Bool) (io : Io)
    (h : Hysteresis d) : Hysteresis (channelEvent (txLink crc) d now token readable writable io) := by
  unfold Daemon.channelEvent
  split
  · exact h
  · exact touch now (checkBpHigh (h.call (fun _ => rfl) _))

variable (crc) in
theorem new (m : ChannelMap) (ios : UInt8 → Io) (now : Instant) :
    Hysteresis (new (txLink crc) (m.fresh ios) now) := by
  refine ⟨?_,nofun⟩
  intro id c hc
  obtain ⟨c₀,-,rfl⟩ := Option.map_eq_some_iff.mp hc
  exact DynChannel.fresh_bpPaused _ c₀

theorem loop {op : LoopOp WriteResult} (hbp : d.disconnected=true → d.linkBp=false)
    (h : Hysteresis d) : Hysteresis (loop (txLink crc) d op) := by
  cases op with
  | receive now io f => exact h.receive now io f
  | turn op =>
    cases op with
    | start now dev =>
      simp only [Daemon.loop,turn]
      split_ifs with hd
      · exact h.openLink now dev (hbp hd)
      · exact h
    | head now later dev ios => exact h.loopHead now later dev ios hbp
    | event now token readable writable io => exact h.channelEvent now token readable writable io
    | send now w => exact h.linkWrite now w
    | readError now =>
      simp only [Daemon.loop,turn]
      split_ifs
      · exact h
      · exact h.closeLink now
    | restart now ios => exact new crc d.channels ios now

end Hysteresis

end Daemon

end Serialmux.EventLoop

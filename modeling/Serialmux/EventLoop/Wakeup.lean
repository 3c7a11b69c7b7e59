import Serialmux.EventLoop.Hysteresis

namespace Serialmux.EventLoop

open Framework Protocol Channel

section Queue

variable (crc : List UInt8 → UInt32)

theorem TxQueue.isEmpty_used (q : TxQueue) : q.isEmpty=true ↔ q.used=0 := by
  rw [TxQueue.isEmpty_iff,← List.length_eq_zero_iff,TxQueue.contents_length]

/-- A frame of the daemon itself leaves something to send, even where the queue refuses it. -/
theorem enqueue_control_busy (q : TxQueue) (ftype : UInt8) :
    ((txLink crc).enqueue q (Daemon.controlFrame ftype)).isEmpty=false := by
  have hlen : ((Daemon.controlFrame ftype).build crc).length=hdrSize+crcSize := by
    have h := buildFrame_length crc ftype 0 [] (Nat.zero_le _)
    simpa [Frame.build,Daemon.controlFrame] using h
  have hsmall : 0<hdrSize+crcSize ∧ hdrSize+crcSize<linkTxbufSize := by decide
  have hused : 0<((txLink crc).enqueue q (Daemon.controlFrame ftype)).used := by
    cases ho : q.overflows ((Daemon.controlFrame ftype).build crc) with
    | true =>
      have hfull : linkTxbufSize-1-q.used<((Daemon.controlFrame ftype).build crc).length := by
        simpa [TxQueue.overflows] using ho
      have hsame : (txLink crc).enqueue q (Daemon.controlFrame ftype)=q := q.enqueue_overflow _ ho
      rw [hsame]
      omega
    | false =>
      have hnext := q.enqueue_used _ ho
      simp only [txLink,hnext]
      omega
  rw [← Bool.not_eq_true,TxQueue.isEmpty_used]
  omega

end Queue

namespace Daemon

/-- The link fd waits for writability exactly while there is something to write. -/
def Armed (d : Daemon TxQueue) : Prop := d.linkFd≠none → d.wantWrite=!d.txq.isEmpty

namespace Armed

variable {crc : List UInt8 → UInt32} {d : Daemon TxQueue}

theorem of_closed (h : d.linkFd=none) : Armed d := fun hfd => absurd h hfd

/-- What neither the queue nor the link fd sees. -/
theorem same {d' : Daemon TxQueue} (h : Armed d) (hq : d'.txq=d.txq) (hfd : d'.linkFd=d.linkFd)
    (hw : d'.wantWrite=d.wantWrite) : Armed d' := by
  unfold Armed
  rw [hq,hfd,hw]
  exact h

/-- The write interest that fits the queue. -/
theorem interest {b : Bool} (h : b=!d.txq.isEmpty) : Armed (d.setLinkWriteInterest b) := by
  unfold setLinkWriteInterest
  split_ifs with hfd
  · exact of_closed hfd
  · exact fun _ => h

/-- Whatever was queued before, an operation that ends like this leaves the right interest. -/
theorem touch (d : Daemon TxQueue) (now : Instant) : Armed (touch (txLink crc) d now) := interest rfl

theorem enqueueFrame (now : Instant) (ftype : UInt8) (h : Armed d) :
    Armed (enqueueFrame (txLink crc) d now (controlFrame ftype)) := by
  unfold Daemon.enqueueFrame
  split_ifs
  · exact h
  · apply interest
    exact (congrArg not (enqueue_control_busy crc d.txq ftype)).symm

theorem closeLink (now : Instant) (h : Armed d) : Armed (closeLink (txLink crc) d now) := by
  cases hd : d.disconnected with
  | true =>
    rw [Daemon.closeLink,if_pos hd]
    exact h
  | false => exact of_closed (closeLink_get (txLink crc) hd now).2.2.1

theorem openLink (now : Instant) (dev : Option RawFd) (h : Armed d) :
    Armed (openLink (txLink crc) d now dev) := by
  cases dev with
  | none => exact h.same rfl rfl rfl
  | some fd =>
    have hbusy := enqueue_control_busy crc ((txLink crc).reset d.txq) fHello
    intro _
    simp only [Daemon.openLink,hbusy,Bool.not_false]

/-- A write that does not fail: the interest goes with the last byte. -/
theorem linkWrite (now : Instant) (w : WriteResult) (h : Armed d) :
    Armed (linkWrite (txLink crc) d now w) := by
  unfold Daemon.linkWrite
  dsimp only
  split_ifs with hfd hr
  · exact h
  · have hsame : ((txLink crc).drain d.txq w).1=d.txq := by
      simp only [txLink,TxQueue.drainToFd] at hr ⊢
      split_ifs at hr ⊢
      cases w with
      | wrote n => simp at hr
      | again => rfl
      | error => rfl
    rw [hsame]
    exact h.closeLink now
  · have hresume : ∃m bp,resumeIfLow (txLink crc) {d with txq := ((txLink crc).drain d.txq w).1}=
        {d with txq := ((txLink crc).drain d.txq w).1, channels := m, linkBp := bp} := by
      unfold resumeIfLow
      split_ifs
      · obtain ⟨m,hm,-⟩ := eachChannel_silent (txLink crc)
          {d with txq := ((txLink crc).drain d.txq w).1, linkBp := false}
          (d.channels.frames_silent (DynChannel.resume_frames · Io.idle))
        exact ⟨m,false,hm⟩
      · exact ⟨d.channels,d.linkBp,rfl⟩
    obtain ⟨m,bp,hm⟩ := hresume
    rw [hm]
    unfold disarmIfEmpty
    split_ifs with hempty
    · apply interest
      exact (congrArg not hempty).symm
    · -- What is left after the write was there before it.
      intro hopen
      have hbusy : d.txq.isEmpty=false := by
        by_contra hq
        have hidle : d.txq.isEmpty=true := by simpa using hq
        have hdrained : ((txLink crc).drain d.txq w).1=d.txq := by
          simp only [txLink,TxQueue.drainToFd,hidle,if_true]
        apply hempty
        simp only [hdrained]
        exact hidle
      have hleft : ((txLink crc).drain d.txq w).1.isEmpty=false := by simpa [txLink] using hempty
      have harmed := h hopen
      rw [hbusy] at harmed
      exact harmed.trans (congrArg not hleft).symm

theorem tickKeepalive (now later : Instant) (h : Armed d) :
    Armed (tickKeepalive (txLink crc) d now later) := by
  unfold Daemon.tickKeepalive
  split_ifs
  · exact h
  · exact h.closeLink later
  · exact h.enqueueFrame later fPing
  · exact h

/-- The ticks may queue frames; the loop head then arms the link itself. -/
theorem loopHead (now later : Instant) (dev : Option RawFd) (ios : UInt8 → Io) (h : Armed d) :
    Armed (loopHead (txLink crc) d now later dev ios) := by
  have hopen : Armed (reopenIfDue (txLink crc) d now later dev) := by
    unfold reopenIfDue
    split_ifs
    · exact h.openLink later dev
    · exact h
  have hkept : Armed (Daemon.tickKeepalive (txLink crc)
      (reopenIfDue (txLink crc) d now later dev) now later) := hopen.tickKeepalive now later
  unfold Daemon.loopHead
  generalize Daemon.tickKeepalive (txLink crc) (reopenIfDue (txLink crc) d now later dev) now later=d₂
    at hkept ⊢
  obtain ⟨m,hm,-,-⟩ := eachChannel_eq (txLink crc) d₂ (fun id => ⟨.tick now,ios id⟩)
  have hle := sendAll_used_le crc d₂.txq
    (d₂.channels.keys.flatMap (fun id => d₂.channels.frames id ⟨.tick now,ios id⟩))
  rw [hm]
  generalize sendAll (txLink crc) d₂.txq
    (d₂.channels.keys.flatMap (fun id => d₂.channels.frames id ⟨.tick now,ios id⟩))=q at hle ⊢
  unfold armIfQueued
  split_ifs with hempty
  · intro hfd
    have hidle : q.isEmpty=true := hempty
    have hbefore : d₂.txq.isEmpty=true := by
      rw [TxQueue.isEmpty_used] at hidle ⊢
      omega
    have harmed := hkept hfd
    rw [hbefore] at harmed
    exact harmed.trans (congrArg not hidle).symm
  · apply interest
    have hbusy : ¬q.isEmpty=true := hempty
    simpa using hbusy

theorem receive (now : Instant) (io : Io) (f : Frame) (h : Armed d) :
    Armed (receive (txLink crc) d now io f) := by
  unfold Daemon.receive
  split_ifs
  · exact h
  have hrx : Armed {d with lastRx := some now} := h.same rfl rfl rfl
  apply dispatchFrame_induct
  · intro _
    exact hrx.enqueueFrame now fPong
  · intro _
    exact hrx
  · intro _
    exact touch _ now
  · intro _ _
    exact hrx
  · intro _ _
    exact touch _ now
  · intro _
    exact touch _ now

theorem channelEvent (now : Instant) (token : Token) (readable writable : Bool) (io : Io)
    (h : Armed d) : Armed (channelEvent (txLink crc) d now token readable writable io) := by
  unfold Daemon.channelEvent
  split
  · exact h
  · exact touch _ now

theorem loop (op : LoopOp WriteResult) (h : Armed d) : Armed (loop (txLink crc) d op) := by
  cases op with
  | receive now io f => exact h.receive now io f
  | turn op =>
    cases op with
    | start now dev =>
      simp only [Daemon.loop,turn]
      split_ifs
      · exact h.openLink now dev
      · exact h
    | head now later dev ios => exact h.loopHead now later dev ios
    | event now token readable writable io => exact h.channelEvent now token readable writable io
    | send now w => exact h.linkWrite now w
    | readError now =>
      simp only [Daemon.loop,turn]
      split_ifs
      · exact h
      · exact h.closeLink now
    | restart now ios => exact of_closed rfl

theorem step (op : RunOp WriteResult) (h : Armed d) : Armed (step (txLink crc) crc d op).1 := by
  cases op with
  | loop op => exact h.loop op
  | link now readable writable r ios w =>
    exact linkEvent_induct (txLink crc) crc (fun d now io f h => h.receive now io f)
      (fun d now w h => h.linkWrite now w) (fun d now h => h.closeLink now)
      (fun d p t h => h.same rfl rfl rfl) h now readable writable r ios w

end Armed

/-- In every state that a run of the process leads to, whatever the devices do and whatever the queue
refuses, mio watches the link for writability exactly while the queue holds a byte. So no byte waits
for a wake-up that never comes, and no wake-up comes for nothing. -/
theorem link_watch_exact (crc : List UInt8 → UInt32) (m : ChannelMap) (ios : UInt8 → Io)
    (start : Instant) (ops : List (RunOp WriteResult)) {fd : RawFd}
    (hfd : (after (step (txLink crc) crc) (new (txLink crc) (m.fresh ios) start) ops).linkFd=some fd) :
    (after (step (txLink crc) crc) (new (txLink crc) (m.fresh ios) start) ops).wantWrite=true ↔
      (after (step (txLink crc) crc) (new (txLink crc) (m.fresh ios) start) ops).txq.contents≠[] := by
  have harmed : Armed (after (step (txLink crc) crc) (new (txLink crc) (m.fresh ios) start) ops) :=
    after_of_step _ (fun d op h => h.step op) (Armed.of_closed rfl) ops
  generalize after (step (txLink crc) crc) (new (txLink crc) (m.fresh ios) start) ops=d at hfd harmed ⊢
  rw [harmed (by simp [hfd]),Ne,← TxQueue.isEmpty_iff]
  cases d.txq.isEmpty <;> simp

/-- A link that has just been opened has its HELLO to write. -/
theorem link_watch_exact_open :
    (after (step (txLink (fun _ => 0)) (fun _ => 0))
      (new (txLink (fun _ => 0)) ((ChannelMap.single (.pty (.new 0))).fresh (fun _ => Io.idle)) 0)
      [.loop (.turn (.start 0 (some 3)))]).txq.contents≠[] :=
  (link_watch_exact (fun _ => 0) (.single (.pty (.new 0))) (fun _ => Io.idle) 0
    [.loop (.turn (.start 0 (some 3)))] rfl).mp rfl

end Daemon

end Serialmux.EventLoop

import Serialmux.EventLoop.Backpressure

namespace Serialmux.EventLoop

open Framework Protocol Channel

variable {Q Q' W : Type}

/-- A view of one queue through which it is another one. -/
structure LinkQueue.Views (lq : LinkQueue Q W) (lq' : LinkQueue Q' W) (view : Q → Q') : Prop where
  new : view lq.new=lq'.new
  reset : ∀q,view (lq.reset q)=lq'.reset (view q)
  enqueue : ∀q f,view (lq.enqueue q f)=lq'.enqueue (view q) f
  used : ∀q,lq'.used (view q)=lq.used q
  isEmpty : ∀q,lq'.isEmpty (view q)=lq.isEmpty q
  drain : ∀q w,lq'.drain (view q) w=(view (lq.drain q w).1,(lq.drain q w).2)

namespace Daemon

/-- The daemon that has the view of its queue for a queue. -/
@[simps txq linkFd linkUp linkBp disconnected reopenAt lastRx lastTx]
def viewed (view : Q → Q') (d : Daemon Q) : Daemon Q' :=
  ⟨d.channels,view d.txq,d.parser,d.linkFd,d.linkUp,d.linkBp,d.disconnected,d.reopenAt,
    d.reopenDelay,d.lastRx,d.lastTx,d.wantWrite⟩

section Views

variable {lq : LinkQueue Q W} {lq' : LinkQueue Q' W} {view : Q → Q'} (h : lq.Views lq' view)
  (d : Daemon Q)
include h

theorem sendAll_viewed (q : Q) (fs : List Frame) :
    view (sendAll lq q fs)=sendAll lq' (view q) fs := by
  induction fs generalizing q with
  | nil => rfl
  | cons f fs ih =>
    rw [sendAll,List.foldl_cons]
    refine (ih _).trans ?_
    rw [h.enqueue]
    rfl

theorem callChannel_viewed (id : UInt8) (call : Call) :
    (callChannel lq d id call).viewed view=callChannel lq' (d.viewed view) id call := by
  simp only [callChannel,viewed,sendAll_viewed h]

theorem eachChannel_viewed (call : UInt8 → Call) :
    (eachChannel lq d call).viewed view=eachChannel lq' (d.viewed view) call :=
  (List.foldl_hom (viewed view) (fun d id => (callChannel_viewed h d id (call id)).symm)).symm

omit h in
theorem interest_viewed (b : Bool) :
    (d.setLinkWriteInterest b).viewed view=(d.viewed view).setLinkWriteInterest b := by
  simp only [setLinkWriteInterest,viewed_linkFd,apply_ite (viewed view)]
  rfl

theorem touch_viewed (now : Instant) :
    (touch lq d now).viewed view=touch lq' (d.viewed view) now := by
  simp only [touch,interest_viewed,viewed_txq,h.isEmpty]
  rfl

theorem checkBpHigh_viewed :
    (checkBpHigh lq d).viewed view=checkBpHigh lq' (d.viewed view) := by
  simp only [checkBpHigh,viewed_linkBp,viewed_txq,h.used,apply_ite (viewed view),
    eachChannel_viewed h]
  rfl

theorem resumeIfLow_viewed :
    (resumeIfLow lq d).viewed view=resumeIfLow lq' (d.viewed view) := by
  simp only [resumeIfLow,viewed_linkBp,viewed_txq,h.used,apply_ite (viewed view),
    eachChannel_viewed h]
  rfl

theorem resumeAll_viewed : (resumeAll lq d).viewed view=resumeAll lq' (d.viewed view) := by
  simp only [resumeAll,viewed_linkBp,apply_ite (viewed view),eachChannel_viewed h]
  rfl

theorem disarmIfEmpty_viewed :
    (disarmIfEmpty lq d).viewed view=disarmIfEmpty lq' (d.viewed view) := by
  simp only [disarmIfEmpty,viewed_txq,h.isEmpty,apply_ite (viewed view),interest_viewed]

theorem armIfQueued_viewed (later : Instant) :
    (armIfQueued lq d later).viewed view=armIfQueued lq' (d.viewed view) later := by
  simp only [armIfQueued,viewed_txq,h.isEmpty,apply_ite (viewed view),interest_viewed]
  rfl

theorem enqueueFrame_viewed (now : Instant) (f : Frame) :
    (enqueueFrame lq d now f).viewed view=enqueueFrame lq' (d.viewed view) now f := by
  simp only [enqueueFrame,viewed_disconnected,viewed_linkFd,viewed_txq,← h.enqueue,
    apply_ite (viewed view),interest_viewed]
  rfl

theorem connectChannels_viewed (now : Instant) :
    (connectChannels lq d now).viewed view=connectChannels lq' (d.viewed view) now := by
  simp only [connectChannels,touch_viewed h,eachChannel_viewed h]

theorem onLinkUp_viewed (now : Instant) :
    (onLinkUp lq d now).viewed view=onLinkUp lq' (d.viewed view) now := by
  simp only [onLinkUp,viewed_linkUp,apply_ite (viewed view),connectChannels_viewed h]
  rfl

theorem openLink_viewed (now : Instant) (dev : Option RawFd) :
    (openLink lq d now dev).viewed view=openLink lq' (d.viewed view) now dev := by
  cases dev with
  | none => rfl
  | some fd =>
    simp only [openLink,viewed_txq,← h.reset,← h.enqueue]
    rfl

theorem closeLink_viewed (now : Instant) :
    (closeLink lq d now).viewed view=closeLink lq' (d.viewed view) now := by
  have hschedule : ∀d : Daemon Q,(d.scheduleReopen now).viewed view=
      (d.viewed view).scheduleReopen now := fun _ => rfl
  simp only [closeLink,viewed_disconnected,viewed_txq,← h.reset,apply_ite (viewed view),hschedule,
    eachChannel_viewed h,resumeAll_viewed h]
  rfl

theorem routeFrame_viewed (now : Instant) (io : Io) (f : Frame) :
    (routeFrame lq d now io f).viewed view=routeFrame lq' (d.viewed view) now io f := by
  simp only [routeFrame,touch_viewed h,callChannel_viewed h,apply_ite (viewed view),
    checkBpHigh_viewed h]

theorem dispatchFrame_viewed (now : Instant) (io : Io) (f : Frame) :
    (dispatchFrame lq d now io f).viewed view=dispatchFrame lq' (d.viewed view) now io f := by
  have hup : (enqueueFrame lq d now (controlFrame fAck)).linkUp=
      (enqueueFrame lq' (d.viewed view) now (controlFrame fAck)).linkUp := by
    rw [← enqueueFrame_viewed h,viewed_linkUp]
  simp only [dispatchFrame,apply_ite (viewed view),enqueueFrame_viewed h,connectChannels_viewed h,
    onLinkUp_viewed h,routeFrame_viewed h,hup]

theorem receive_viewed (now : Instant) (io : Io) (f : Frame) :
    (receive lq d now io f).viewed view=receive lq' (d.viewed view) now io f := by
  simp only [receive,viewed_linkFd,apply_ite (viewed view),dispatchFrame_viewed h]
  rfl

theorem linkWrite_viewed (now : Instant) (w : W) :
    (linkWrite lq d now w).viewed view=linkWrite lq' (d.viewed view) now w := by
  simp only [linkWrite,viewed_linkFd,viewed_txq,h.drain,apply_ite (viewed view),closeLink_viewed h,
    disarmIfEmpty_viewed h,resumeIfLow_viewed h]
  rfl

theorem tickKeepalive_viewed (now later : Instant) :
    (tickKeepalive lq d now later).viewed view=tickKeepalive lq' (d.viewed view) now later := by
  simp only [tickKeepalive,viewed_disconnected,viewed_lastRx,viewed_linkUp,viewed_lastTx,viewed_txq,
    h.isEmpty,apply_ite (viewed view),closeLink_viewed h,enqueueFrame_viewed h]

theorem reopenIfDue_viewed (now later : Instant) (dev : Option RawFd) :
    (reopenIfDue lq d now later dev).viewed view=
      reopenIfDue lq' (d.viewed view) now later dev := by
  simp only [reopenIfDue,viewed_disconnected,viewed_reopenAt,apply_ite (viewed view),
    openLink_viewed h]

theorem channelEvent_viewed (now : Instant) (token : Token) (readable writable : Bool) (io : Io) :
    (channelEvent lq d now token readable writable io).viewed view=
      channelEvent lq' (d.viewed view) now token readable writable io := by
  unfold channelEvent
  split
  · rfl
  · simp only [touch_viewed h,checkBpHigh_viewed h,callChannel_viewed h]

/-- A turn commutes with the view, whatever the queues are. -/
theorem loop_viewed (op : LoopOp W) : (loop lq d op).viewed view=loop lq' (d.viewed view) op := by
  cases op with
  | receive now io f => exact receive_viewed h d now io f
  | turn op =>
    cases op with
    | start now dev =>
      simp only [loop,turn,viewed_disconnected,apply_ite (viewed view),openLink_viewed h]
    | head now later dev ios =>
      simp only [loop,turn,loopHead,armIfQueued_viewed h,eachChannel_viewed h,
        tickKeepalive_viewed h,reopenIfDue_viewed h]
    | event now token readable writable io =>
      exact channelEvent_viewed h d now token readable writable io
    | send now w => exact linkWrite_viewed h d now w
    | readError now =>
      simp only [loop,turn,viewed_linkFd,apply_ite (viewed view),closeLink_viewed h]
    | restart now ios =>
      simp only [loop,turn,new,viewed,h.new]

end Views

/-- Without its log, the logging queue is the ring. -/
theorem logged_views (crc : List UInt8 → UInt32) :
    (loggedLink crc).Views (txLink crc) Logged.queue where
  new := rfl
  reset _ := rfl
  enqueue _ _ := rfl
  used _ := rfl
  isEmpty _ := rfl
  drain _ _ := rfl

end Daemon

end Serialmux.EventLoop

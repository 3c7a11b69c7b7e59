import Serialmux.EventLoop.Calls

namespace Serialmux.EventLoop

open Protocol Channel

namespace Daemon

variable {Q W : Type} (lq : LinkQueue Q W)

/-- The rule for one received frame; both ways of a HELLO come to the same. -/
theorem dispatchFrame_induct {R : Daemon Q → Prop} {d : Daemon Q} {now : Instant} {io : Io}
    {f : Frame} (hping : f.ftype=fPing → R (enqueueFrame lq d now (controlFrame fPong)))
    (hpong : f.ftype=fPong → R d)
    (hhello : f.ftype=fHello → R (connectChannels lq
      {enqueueFrame lq d now (controlFrame fAck) with linkUp := true} now))
    (hack : f.ftype=fAck → d.linkUp=true → R d)
    (hup : f.ftype=fAck → d.linkUp=false → R (connectChannels lq {d with linkUp := true} now))
    (hroute : isControl f.ftype=false → R (routeFrame lq d now io f)) :
    R (dispatchFrame lq d now io f) := by
  unfold dispatchFrame onLinkUp
  dsimp only
  split_ifs with h₁ h₂ h₃ h₄ h₅ h₆
  · exact hping h₁
  · exact hpong h₂
  · have hsame : {enqueueFrame lq d now (controlFrame fAck) with linkUp := true}=
        enqueueFrame lq d now (controlFrame fAck) := by
      rw [← h₄]
    rw [← hsame]
    exact hhello h₃
  · exact hhello h₃
  · exact hack h₅ h₆
  · exact hup h₅ (by simpa using h₆)
  · exact hroute (by simp [isControl,h₁,h₂,h₃,h₅])

/-- A property of the channels, the queue and the state of the link that survives every call in
`ok`. Timers, the parser and backpressure do not enter it. -/
structure Kept (ok : UInt8 → Call → Prop) (P : Daemon Q → Prop) : Prop where
  core : ∀{d d' : Daemon Q},P d → d'.channels=d.channels → d'.txq=d.txq → d'.linkUp=d.linkUp →
    d'.disconnected=d.disconnected → d'.linkFd=d.linkFd → d'.lastRx=d.lastRx → P d'
  call : ∀{d : Daemon Q} {id : UInt8} {c : Call},ok id c → P d → P (callChannel lq d id c)
  pause : ∀id,ok id ⟨.pauseSourceReads,Io.idle⟩
  resume : ∀id,ok id ⟨.resumeSourceReads,Io.idle⟩

namespace Kept

variable {lq} {ok : UInt8 → Call → Prop} {P : Daemon Q → Prop} (k : Kept lq ok P) {d : Daemon Q}
include k

theorem each {call : UInt8 → Call} (hok : ∀id,ok id (call id)) (h : P d) :
    P (eachChannel lq d call) :=
  eachChannel_induct lq call (fun _ id h => k.call (hok id) h) h

theorem interest (b : Bool) (h : P d) : P (d.setLinkWriteInterest b) := by
  unfold setLinkWriteInterest
  split_ifs
  · exact h
  · exact k.core h rfl rfl rfl rfl rfl rfl

theorem touch (now : Instant) (h : P d) : P (touch lq d now) :=
  k.interest _ (k.core h rfl rfl rfl rfl rfl rfl)

theorem checkBpHigh (h : P d) : P (checkBpHigh lq d) := by
  unfold Daemon.checkBpHigh
  split_ifs
  · exact k.each k.pause (k.core h rfl rfl rfl rfl rfl rfl)
  · exact h

theorem routeFrame (now : Instant) {io : Io} {f : Frame}
    (hok : ok f.channel ⟨.onFrame f.ftype f.payload,io⟩) (h : P d) :
    P (routeFrame lq d now io f) := by
  apply k.touch
  apply k.call hok
  split_ifs
  · exact k.checkBpHigh h
  · exact h

theorem channelEvent (now : Instant) {token : Token} {readable writable : Bool} {io : Io}
    (hok : ∀id,ok id ⟨.handleEvent token readable writable,io⟩) (h : P d) :
    P (channelEvent lq d now token readable writable io) := by
  unfold Daemon.channelEvent
  split
  · exact h
  · exact k.touch now (k.checkBpHigh (k.call (hok _) h))

theorem resumeIfLow (h : P d) : P (resumeIfLow lq d) := by
  unfold Daemon.resumeIfLow
  split_ifs
  · exact k.each k.resume (k.core h rfl rfl rfl rfl rfl rfl)
  · exact h

theorem disarmIfEmpty (h : P d) : P (disarmIfEmpty lq d) := by
  unfold Daemon.disarmIfEmpty
  split_ifs
  · exact k.interest false h
  · exact h

/-- A write, given what is true once the queue has been drained. -/
theorem linkWrite {now : Instant} {w : W} (h : d.linkFd=none → P d)
    (hdrain : P {d with txq := (lq.drain d.txq w).1})
    (hclose : P (closeLink lq {d with txq := (lq.drain d.txq w).1} now)) :
    P (linkWrite lq d now w) := by
  unfold Daemon.linkWrite
  split_ifs with hfd
  · exact h hfd
  · exact hclose
  · exact k.disarmIfEmpty (k.resumeIfLow hdrain)

omit k in
theorem tickKeepalive {now later : Instant} (h : P d)
    (hclose : ∀d,P d → P (closeLink lq d later))
    (hping : ∀d,P d → P (enqueueFrame lq d later (controlFrame fPing))) :
    P (tickKeepalive lq d now later) := by
  unfold Daemon.tickKeepalive
  split_ifs
  · exact h
  · exact hclose d h
  · exact hping d h
  · exact h

/-- The loop head, given what opening, closing and a PING do. -/
theorem loopHead {now later : Instant} {dev : Option RawFd} {ios : UInt8 → Io}
    (htick : ∀id,ok id ⟨.tick now,ios id⟩) (h : P d)
    (hopen : d.disconnected=true → P (openLink lq d later dev))
    (hclose : ∀d,P d → P (closeLink lq d later))
    (hping : ∀d,P d → P (enqueueFrame lq d later (controlFrame fPing))) :
    P (loopHead lq d now later dev ios) := by
  have hdue : P (reopenIfDue lq d now later dev) := by
    unfold reopenIfDue
    split_ifs with hd
    · exact hopen hd.1
    · exact h
  have htimers : P (eachChannel lq
      (Daemon.tickKeepalive lq (reopenIfDue lq d now later dev) now later)
      (fun id => ⟨.tick now,ios id⟩)) :=
    k.each htick (Kept.tickKeepalive hdue hclose hping)
  unfold Daemon.loopHead armIfQueued
  split_ifs
  · exact htimers
  · exact k.interest true (k.core htimers rfl rfl rfl rfl rfl rfl)

end Kept

/-- The link fd and what is known about it. -/
def link (d : Daemon Q) : Option RawFd × Bool × Option Instant := (d.linkFd,d.disconnected,d.lastRx)

theorem link_kept (l : Option RawFd × Bool × Option Instant) :
    Kept lq (fun _ _ => True) (fun d => d.link=l) where
  core := by
    intro d d' h _ _ _ hd hfd hrx
    rw [← h,link,link,hd,hfd,hrx]
  call _ h := h
  pause _ := trivial
  resume _ := trivial

theorem enqueueFrame_link (d : Daemon Q) (now : Instant) (f : Frame) :
    (enqueueFrame lq d now f).link=d.link := by
  unfold enqueueFrame setLinkWriteInterest
  split_ifs <;> rfl

/-- No received frame opens or closes the link. -/
theorem dispatchFrame_link (d : Daemon Q) (now : Instant) (io : Io) (f : Frame) :
    (dispatchFrame lq d now io f).link=d.link := by
  have k := link_kept lq d.link
  have hconnect : ∀d' : Daemon Q,d'.link=d.link → (connectChannels lq d' now).link=d.link :=
    fun d' h => k.touch now (k.each (fun _ => trivial) h)
  apply dispatchFrame_induct lq (R := fun d' => d'.link=d.link)
  · intro _
    exact enqueueFrame_link lq d now _
  · intro _
    rfl
  · intro _
    exact hconnect _ (enqueueFrame_link lq d now _)
  · intro _ _
    rfl
  · intro _ _
    exact hconnect _ rfl
  · intro _
    exact k.routeFrame now trivial rfl

end Daemon

end Serialmux.EventLoop

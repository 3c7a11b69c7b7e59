import Serialmux.Channel.McuSilence
import Serialmux.EventLoop.Hysteresis

namespace Serialmux.EventLoop

open Framework Protocol Channel

/-- A turn that lets no channel see an event. -/
def RunOp.isQuiet {W : Type} : RunOp W → Bool
  | .loop (.turn (.event _ _ _ _ _)) => false
  | .loop (.turn (.restart _ _)) => false
  | _ => true

/-- The two other turns: an event, and the end of the process. -/
theorem RunOp.of_not_quiet {W : Type} {op : RunOp W} (h : op.isQuiet=false) :
    (∃now token readable writable io,
      op=.loop (.turn (.event now token readable writable io))) ∨
      ∃now ios,op=.loop (.turn (.restart now ios)) := by
  cases op with
  | link => exact nomatch h
  | loop op =>
    cases op with
    | receive => exact nomatch h
    | turn op =>
      cases op with
      | event now token readable writable io => exact .inl ⟨now,token,readable,writable,io,rfl⟩
      | restart now ios => exact .inr ⟨now,ios,rfl⟩
      | start => exact nomatch h
      | head => exact nomatch h
      | send => exact nomatch h
      | readError => exact nomatch h

namespace Daemon

section Channels

variable {Q W : Type} (lq : LinkQueue Q W) {P : ChannelMap → Prop}
  (hcall : ∀m id c,c.op.isEvent=false → P m → P (m.set id c))

include hcall

theorem channels_kept : Kept lq (fun _ c => c.op.isEvent=false) (fun d => P d.channels) where
  core h hm _ _ _ _ _ := hm ▸ h
  call hok h := hcall _ _ _ hok h
  pause _ := rfl
  resume _ := rfl

variable {d : Daemon Q}

theorem closeLink_channels (now : Instant) (h : P d.channels) :
    P (closeLink lq d now).channels := by
  have k := channels_kept lq hcall
  unfold closeLink
  split_ifs
  · exact h
  · have hresumed : P (resumeAll lq {d with
        disconnected := true, linkUp := false, linkFd := none, txq := lq.reset d.txq}).channels := by
      unfold resumeAll
      split_ifs
      · exact k.each (d := {d with
          disconnected := true, linkUp := false, linkFd := none, txq := lq.reset d.txq
          linkBp := false}) k.resume h
      · exact h
    have hround : P (eachChannel lq _ (fun _ => ⟨.onLinkDisconnect,Io.idle⟩)).channels :=
      k.each (fun _ => rfl) hresumed
    exact hround

omit hcall in
theorem openLink_channels (now : Instant) (dev : Option RawFd) :
    (openLink lq d now dev).channels=d.channels := by
  cases dev <;> rfl

omit hcall in
theorem enqueueFrame_channels (now : Instant) (f : Frame) :
    (enqueueFrame lq d now f).channels=d.channels := by
  unfold enqueueFrame setLinkWriteInterest
  split_ifs <;> rfl

theorem linkWrite_channels (now : Instant) (w : W) (h : P d.channels) :
    P (linkWrite lq d now w).channels :=
  (channels_kept lq hcall).linkWrite (fun _ => h) h (closeLink_channels lq hcall now h)

theorem receive_channels (now : Instant) (io : Io) (f : Frame) (h : P d.channels) :
    P (receive lq d now io f).channels := by
  have k := channels_kept lq hcall
  have hconnect : ∀d : Daemon Q,P d.channels → P (connectChannels lq d now).channels :=
    fun d h => k.touch now (k.each (fun _ => rfl) h)
  unfold receive
  split_ifs
  · exact h
  apply dispatchFrame_induct lq (R := fun d => P d.channels)
  · intro _
    rw [enqueueFrame_channels]
    exact h
  · intro _
    exact h
  · intro _
    apply hconnect
    rw [enqueueFrame_channels]
    exact h
  · intro _ _
    exact h
  · intro _ _
    exact hconnect _ h
  · intro _
    exact k.routeFrame (d := {d with lastRx := some now}) now rfl h

theorem loopHead_channels (now later : Instant) (dev : Option RawFd) (ios : UInt8 → Io)
    (h : P d.channels) : P (loopHead lq d now later dev ios).channels := by
  apply (channels_kept lq hcall).loopHead (fun _ => rfl) h
  · intro _
    rwa [openLink_channels]
  · intro d h
    exact closeLink_channels lq hcall later h
  · intro d h
    rwa [enqueueFrame_channels]

/-- The rule for properties of the channels: a turn without an event keeps what each of its calls
keeps. -/
theorem step_channels (crc : List UInt8 → UInt32) {op : RunOp W} (ho : op.isQuiet=true)
    (h : P d.channels) : P (step lq crc d op).1.channels := by
  cases op with
  | link now readable writable r ios w =>
    exact linkEvent_induct lq crc (P := fun d => P d.channels)
      (fun _ now io f h => receive_channels lq hcall now io f h)
      (fun _ now w h => linkWrite_channels lq hcall now w h)
      (fun _ now h => closeLink_channels lq hcall now h) (fun _ _ _ h => h) h now readable writable
      r ios w
  | loop op =>
    cases op with
    | receive now io f => exact receive_channels lq hcall now io f h
    | turn op =>
      cases op with
      | start now dev =>
        simp only [step,loop,turn]
        split_ifs
        · rwa [openLink_channels]
        · exact h
      | head now later dev ios => exact loopHead_channels lq hcall now later dev ios h
      | send now w => exact linkWrite_channels lq hcall now w h
      | readError now =>
        simp only [step,loop,turn]
        split_ifs
        · exact h
        · exact closeLink_channels lq hcall now h
      | event => cases ho
      | restart => cases ho

end Channels

end Daemon

/-- What happens to a daemon and its UARTs: bytes arrive, or the daemon takes a turn. -/
inductive UartOp where
  | arrive (now : Instant) (id : UInt8) (n : Nat)
  | turn (op : RunOp WriteResult)

/-- The clock of a turn; an event is handled when its fd is read. -/
def RunOp.time {W : Type} : RunOp W → Instant
  | .loop (.turn (.start now _)) => now
  | .loop (.turn (.head now _ _ _)) => now
  | .loop (.turn (.event _ _ _ _ io)) => io.now
  | .loop (.turn (.send now _)) => now
  | .loop (.turn (.readError now)) => now
  | .loop (.turn (.restart now _)) => now
  | .loop (.receive now _ _) => now
  | .link now _ _ _ _ _ => now

def UartOp.time : UartOp → Instant
  | .arrive now _ _ => now
  | .turn op => op.time

/-- A daemon with what its UARTs hold: the number of bytes that wait to be read, and all moments so
far at which there were any. -/
structure Listening where
  daemon : Daemon TxQueue
  clock : Instant
  unread : UInt8 → Nat
  moments : UInt8 → Set Instant

namespace Listening

variable (crc : List UInt8 → UInt32)

def uartOpen (d : Daemon TxQueue) (id : UInt8) : Bool :=
  match d.channels.get id with
  | some (.mcu c) => c.fd.isSome
  | _ => false

/-- The number of bytes a turn reads from the fd of channel `id`. -/
def taken (d : Daemon TxQueue) (id : UInt8) : RunOp WriteResult → Nat
  | .loop (.turn (.event _ token readable writable io)) =>
    if channelIdForToken token=some id then
      match d.channels.get id with
      | some c => (c.apply ⟨.handleEvent token readable writable,io⟩).2.read.length
      | none => 0
    else 0
  | _ => 0

/-- Time goes on to `t`. What waited until then was there all the time, what waits now is there from
now on. -/
def advance (s : Listening) (t : Instant) (d : Daemon TxQueue) (unread : UInt8 → Nat) : Listening where
  daemon := d
  clock := t
  unread := unread
  moments id :=
    {m | m∈s.moments id ∨ s.clock ≤ m ∧ m≤t ∧ 0 < s.unread id ∨ m=t ∧ 0<unread id}

/-- Bytes wait only at an open UART. -/
def step (s : Listening) : UartOp → Listening × Unit
  | .arrive now id n =>
    (s.advance now s.daemon (fun j =>
      if j=id ∧ uartOpen s.daemon id=true then s.unread j+(n+1) else s.unread j),())
  | .turn op =>
    (s.advance op.time (Daemon.step (txLink crc) crc s.daemon op).1 (fun id =>
      if uartOpen (Daemon.step (txLink crc) crc s.daemon op).1 id then
        s.unread id-taken s.daemon id op
      else 0),())

/-- The process and its UARTs at the start. -/
def start (m : ChannelMap) (ios : UInt8 → Io) (now : Instant) : Listening :=
  ⟨Daemon.new (txLink crc) (m.fresh ios) now,now,fun _ => 0,fun _ => ∅⟩

/-- A tick of this turn moves channel `id` from Active to Resetting. -/
def Declares (s : Listening) (op : UartOp) (id : UInt8) : Prop :=
  ∃c c',s.daemon.channels.get id=some (.mcu c) ∧ c.state=.active ∧
    (step crc s op).1.daemon.channels.get id=some (.mcu c') ∧ c'.state=.resetting

/-- Whoever is declared reset was silent: no byte was there to be read at any moment of the
interval that ends with the tick. -/
def Silent (s : Listening) (op : UartOp) : Prop :=
  match op with
  | .turn (.loop (.turn (.head now _ _ _))) =>
    ∀id,s.Declares crc op id → ∀m∈(step crc s op).1.moments id,m+resetSilence<now
  | _ => True

/-- The head of the loop finds an overdue MCU with bytes to be read. -/
def Overlooked (s : Listening) (op : UartOp) : Prop :=
  match op with
  | .turn (.loop (.turn (.head now _ _ _))) =>
    ∃id c,s.daemon.channels.get id=some (.mcu c) ∧ c.Overdue now ∧ 0 < s.unread id
  | _ => False

/-- It finds one whose reads are paused. -/
def Starved (s : Listening) (op : UartOp) : Prop :=
  match op with
  | .turn (.loop (.turn (.head now _ _ _))) =>
    ∃id c,s.daemon.channels.get id=some (.mcu c) ∧ c.Overdue now ∧ 0 < s.unread id ∧ c.bpPaused=true
  | _ => False

/-- The clock does not go back. -/
def Timely (s : Listening) (op : UartOp) : Prop := s.clock≤op.time

/-- At the head of the loop nothing is left to be read where mio polls for input: `poll()` has
reported it and the events have been handled. -/
def Attentive (s : Listening) (op : UartOp) : Prop :=
  match op with
  | .turn (.loop (.turn (.head _ _ _ _))) =>
    ∀id c,s.daemon.channels.get id=some (.mcu c) → c.watch.reads=true → s.unread id=0
  | _ => True

/-- An MCU that runs and has nothing to be read was last heard when its last byte was read. -/
structure Inv (s : Listening) : Prop where
  past : ∀id,∀m∈s.moments id,m ≤ s.clock
  heard : ∀id c,s.daemon.channels.get id=some (.mcu c) → c.state=.active → s.unread id=0 →
    ∃last,c.lastRx=some last ∧ ∀m∈s.moments id,m≤last
  sound : UartsSound s.daemon.channels

variable {crc}

/-- An MCU that runs after a turn was read in it, or ran before and was not. -/
theorem turn_heard (d : Daemon TxQueue) (op : RunOp WriteResult) {id : UInt8} {c' : McuChannel}
    (hc : (Daemon.step (txLink crc) crc d op).1.channels.get id=some (.mcu c'))
    (ha : c'.state=.active) :
    c'.lastRx=some op.time ∨
      ∃c,d.channels.get id=some (.mcu c) ∧ c.state=.active ∧ c'.lastRx=c.lastRx ∧
        taken d id op=0 := by
  cases ho : op.isQuiet with
  | true =>
    have hquiet := Daemon.step_channels (txLink crc) (P := Unheard d.channels)
      (fun _ id call ho h => h.call id call ho) crc ho (Unheard.refl _)
    obtain ⟨c,hget,hactive,hrx⟩ := hquiet id c' hc ha
    refine .inr ⟨c,hget,hactive,hrx,?_⟩
    unfold taken
    split
    · exact nomatch ho
    · rfl
  | false =>
    obtain ⟨now,token,readable,writable,io,rfl⟩|⟨now,ios,rfl⟩ := RunOp.of_not_quiet ho
    · simp only [Daemon.step,Daemon.loop,Daemon.turn,Daemon.channelEvent] at hc
      cases htok : channelIdForToken token with
      | none =>
        rw [htok] at hc
        exact .inr ⟨c',hc,ha,rfl,by simp [taken,htok]⟩
      | some j =>
        rw [htok] at hc
        -- What follows the event pauses channels at most.
        have k := Daemon.channels_kept (txLink crc)
          (P := Unheard (d.channels.set j ⟨.handleEvent token readable writable,io⟩))
          (fun _ id call ho h => h.call id call ho)
        have hafter := k.touch (d := Daemon.checkBpHigh (txLink crc)
          (Daemon.callChannel (txLink crc) d j ⟨.handleEvent token readable writable,io⟩)) now
          (k.checkBpHigh (Unheard.refl _))
        obtain ⟨c₁,hget₁,ha₁,hrx₁⟩ := hafter id c' hc ha
        rcases ChannelMap.set_get_mcu hget₁ with ⟨rfl,c,hget,rfl⟩|⟨hne,hget⟩
        · have hheard := c.apply_heard ⟨.handleEvent token readable writable,io⟩
          by_cases hread : (c.apply ⟨.handleEvent token readable writable,io⟩).2.read=[]
          · obtain ⟨hactive,hrx⟩ := hheard.quiet hread ha₁
            refine .inr ⟨c,hget,hactive,hrx₁.trans hrx,?_⟩
            simp [taken,htok,hget,DynChannel.apply,hread]
          · exact .inl (hrx₁.trans (hheard.read hread))
        · refine .inr ⟨c₁,hget,ha₁,hrx₁,?_⟩
          simp [taken,htok,Ne.symm hne]
    · exact absurd ha (fresh_stopped hc)

theorem turn_sound {d : Daemon TxQueue} (h : UartsSound d.channels) (op : RunOp WriteResult) :
    UartsSound (Daemon.step (txLink crc) crc d op).1.channels := by
  have hcall : ∀m id (c : Call),c.op.isEvent=false → UartsSound m → UartsSound (m.set id c) :=
    fun _ id call _ h => h.call id call
  cases ho : op.isQuiet with
  | true => exact Daemon.step_channels (txLink crc) hcall crc ho h
  | false =>
    obtain ⟨now,token,readable,writable,io,rfl⟩|⟨now,ios,rfl⟩ := RunOp.of_not_quiet ho
    · simp only [Daemon.step,Daemon.loop,Daemon.turn,Daemon.channelEvent]
      split
      · exact h
      · have k := Daemon.channels_kept (txLink crc) hcall
        exact k.touch now (k.checkBpHigh (h.call _ _))
    · exact fresh_uartsSound d.channels ios

variable {s : Listening}

theorem uartOpen_of_fd {d : Daemon TxQueue} {id : UInt8} {c : McuChannel} {fd : RawFd}
    (hc : d.channels.get id=some (.mcu c)) (hfd : c.fd=some fd) : uartOpen d id=true := by
  simp only [uartOpen,hc,hfd]
  rfl

theorem Inv.open_of_active (h : UartsSound s.daemon.channels) {id : UInt8} {c : McuChannel}
    (hc : s.daemon.channels.get id=some (.mcu c)) (ha : c.state=.active) :
    uartOpen s.daemon id=true := by
  cases hfd : c.fd with
  | some fd => exact uartOpen_of_fd hc hfd
  | none => exact absurd ha ((h id c hc).closed hfd).1

/-- Where nothing waits before and after, no moment is added. -/
theorem step_moments {op : UartOp} {id : UInt8} (h : s.unread id=0)
    (h' : (step crc s op).1.unread id=0) : (step crc s op).1.moments id=s.moments id := by
  have hadvance : ∀{t d unread},unread id=0 → (s.advance t d unread).moments id=s.moments id := by
    intro t d unread hu
    ext m
    simp [advance,h,hu]
  cases op <;> exact hadvance h'

theorem advance_past {t : Instant} {d : Daemon TxQueue} {unread : UInt8 → Nat} (ht : s.clock≤t)
    (h : ∀id,∀m∈s.moments id,m ≤ s.clock) (id : UInt8) :
    ∀m∈(s.advance t d unread).moments id,m≤t := by
  rintro m (hm|⟨-,hm,-⟩|⟨rfl,-⟩)
  · exact (h id m hm).trans ht
  · exact hm
  · exact le_rfl

theorem arrive_daemon (now : Instant) (id : UInt8) (n : Nat) :
    (step crc s (.arrive now id n)).1.daemon=s.daemon := rfl

theorem arrive_unread (now : Instant) {id : UInt8} (n : Nat) (h : uartOpen s.daemon id=true) :
    0<(step crc s (.arrive now id n)).1.unread id := by
  simp only [step,advance,h,and_self,if_true]
  exact Nat.succ_pos _

theorem Inv.step (h : Inv s) {op : UartOp} (ht : s.Timely op) : Inv (step crc s op).1 := by
  cases op with
  | arrive now id n =>
    refine ⟨advance_past ht h.past,?_,h.sound⟩
    intro j c hc ha hu
    have hopen := Inv.open_of_active h.sound hc ha
    have hj : j≠id := by
      rintro rfl
      simp [Listening.step,advance,hopen] at hu
    have hu₀ : s.unread j=0 := by simpa [Listening.step,advance,hj] using hu
    obtain ⟨last,hrx,hm⟩ := h.heard j c hc ha hu₀
    refine ⟨last,hrx,?_⟩
    rw [step_moments hu₀ hu]
    exact hm
  | turn op =>
    have hsound : UartsSound (Listening.step crc s (.turn op)).1.daemon.channels :=
      turn_sound h.sound op
    refine ⟨advance_past ht h.past,?_,hsound⟩
    intro id c' hc ha hu
    rcases turn_heard s.daemon op hc ha with hrx|⟨c,hget,hactive,hrx,htaken⟩
    · exact ⟨op.time,hrx,advance_past ht h.past id⟩
    · have hopen := Inv.open_of_active hsound hc ha
      have hu₀ : s.unread id=0 := by
        have hsame : (Listening.step crc s (.turn op)).1.unread id=s.unread id := by
          simp only [Listening.step,advance] at hopen ⊢
          rw [if_pos hopen,htaken,Nat.sub_zero]
        exact hsame.symm.trans hu
      obtain ⟨last,hlast,hm⟩ := h.heard id c hget hactive hu₀
      refine ⟨last,hrx.trans hlast,?_⟩
      rw [step_moments hu₀ hu]
      exact hm

variable (crc) in
/-- The head of the loop ticks every UART, and changes nothing before that a tick would see. -/
theorem head_ticks (d : Daemon TxQueue) (now later : Instant) (dev : Option RawFd)
    (ios : UInt8 → Io) {id : UInt8} {c : McuChannel} (hc : d.channels.get id=some (.mcu c)) :
    ∃c₁,McuChannel.Alike c c₁ ∧
      (Daemon.loopHead (txLink crc) d now later dev ios).channels.get id=
        some (.mcu (c₁.tick now (ios id)).1) := by
  have hopen : (Daemon.reopenIfDue (txLink crc) d now later dev).channels.get id=some (.mcu c) := by
    unfold Daemon.reopenIfDue
    split_ifs
    · rwa [Daemon.openLink_channels]
    · exact hc
  generalize hd₁ : Daemon.reopenIfDue (txLink crc) d now later dev=d₁ at hopen
  have hkeep : ∃c₁,McuChannel.Alike c c₁ ∧
      (Daemon.tickKeepalive (txLink crc) d₁ now later).channels.get id=some (.mcu c₁) := by
    unfold Daemon.tickKeepalive
    split_ifs with hdis
    · exact ⟨c,⟨rfl,rfl,rfl⟩,hopen⟩
    · obtain ⟨-,-,-,hget⟩ := Daemon.closeLink_get (txLink crc) (by simpa using hdis) later
      obtain ⟨c',hc',hcase⟩ := hget id _ hopen
      rcases hcase with rfl|rfl
      · exact ⟨_,McuChannel.updateInterest_alike {c with linkUp := false, txbuf := []},hc'⟩
      · have hresume := c.resumeSourceReads_alike
        obtain ⟨hs,hl,hf⟩ := McuChannel.updateInterest_alike
          {c.resumeSourceReads with linkUp := false, txbuf := []}
        exact ⟨_,⟨hs.trans hresume.1,hl.trans hresume.2.1,hf.trans hresume.2.2⟩,hc'⟩
    · exact ⟨c,⟨rfl,rfl,rfl⟩,by rwa [Daemon.enqueueFrame_channels]⟩
    · exact ⟨c,⟨rfl,rfl,rfl⟩,hopen⟩
  obtain ⟨c₁,halike,hget₁⟩ := hkeep
  refine ⟨c₁,halike,?_⟩
  obtain ⟨m,hm,-,hget⟩ := Daemon.eachChannel_eq (txLink crc)
    (Daemon.tickKeepalive (txLink crc) d₁ now later) (fun id => ⟨.tick now,ios id⟩)
  have hticked : m.get id=some (.mcu (c₁.tick now (ios id)).1) := by
    rw [hget,hget₁]
    rfl
  rw [Daemon.loopHead,hd₁,hm]
  unfold Daemon.armIfQueued Daemon.setLinkWriteInterest
  split_ifs <;> exact hticked

/-- The head of the loop declares a reset exactly of the MCUs that are overdue. -/
theorem declares_iff (h : UartsSound s.daemon.channels) {now later : Instant} {dev : Option RawFd}
    {ios : UInt8 → Io} {id : UInt8} :
    s.Declares crc (.turn (.loop (.turn (.head now later dev ios)))) id ↔
      ∃c,s.daemon.channels.get id=some (.mcu c) ∧ c.Overdue now := by
  have hhead : ∀{c : McuChannel},s.daemon.channels.get id=some (.mcu c) → c.state=.active →
      ∃c',(step crc s (.turn (.loop (.turn (.head now later dev ios))))).1.daemon.channels.get id=
        some (.mcu c') ∧ (c'.state=.resetting ↔ c.Overdue now) := by
    intro c hc ha
    obtain ⟨c₁,⟨hs,hl,hf⟩,hget⟩ := head_ticks crc s.daemon now later dev ios hc
    have hfd : c.fd≠none := fun hfd => ((h id c hc).closed hfd).1 ha
    refine ⟨_,hget,?_⟩
    rw [McuChannel.tick_resets (hs.trans ha) (hf ▸ hfd),McuChannel.Overdue,McuChannel.Overdue,hs,hl]
  constructor
  · rintro ⟨c,c',hc,ha,hc',hr⟩
    obtain ⟨c'',hget,hiff⟩ := hhead hc ha
    have hsame : c'=c'' := DynChannel.mcu.inj (Option.some.inj (hc'.symm.trans hget))
    exact ⟨c,hc,hiff.mp (hsame ▸ hr)⟩
  · rintro ⟨c,hc,hover⟩
    obtain ⟨c',hget,hiff⟩ := hhead hc hover.1
    exact ⟨c,c',hc,hover.1,hget,hiff.mpr hover⟩

/-- At one turn: a declared reset is about a silent MCU exactly if no overdue MCU has bytes to be
read. -/
theorem Inv.silent_iff (h : Inv s) {op : UartOp} (ht : s.Timely op) :
    s.Silent crc op ↔ ¬s.Overlooked op := by
  unfold Silent Overlooked
  split
  · next now later dev ios =>
    constructor
    · intro hsilent ⟨id,c,hc,hover,hunread⟩
      have hnow : now∈(Listening.step crc s
          (.turn (.loop (.turn (.head now later dev ios))))).1.moments id :=
        .inr (.inl ⟨ht,le_rfl,hunread⟩)
      have hlate := hsilent id ((declares_iff h.sound).mpr ⟨c,hc,hover⟩) now hnow
      exact absurd hlate (Nat.not_lt.mpr (Nat.le_add_right _ _))
    · intro hnone id hdecl m hm
      obtain ⟨c,hc,hover⟩ := (declares_iff h.sound).mp hdecl
      have hu : s.unread id=0 := by
        by_contra hpos
        exact hnone ⟨id,c,hc,hover,Nat.pos_of_ne_zero hpos⟩
      have hu' : (Listening.step crc s (.turn (.loop (.turn (.head now later dev ios))))).1.unread id=0 := by
        simp only [Listening.step,advance,hu,Nat.zero_sub,ite_self]
      rw [step_moments hu hu'] at hm
      obtain ⟨last,hlast,hpast⟩ := h.heard id c hc hover.1 hu
      obtain ⟨ha,last',hlast',hlate⟩ := hover
      have hsame : last=last' := Option.some.inj (hlast.symm.trans hlast')
      subst hsame
      calc m+resetSilence ≤ last+resetSilence := Nat.add_le_add_right (hpast m hm) _
        _ < now := Nat.lt_sub_iff_add_lt'.mp hlate
  · simp

/-- Where mio polls, nothing is overlooked; an overdue MCU with bytes to be read is paused. -/
theorem Inv.starved_iff (h : Inv s) {op : UartOp} (ha : s.Attentive op) :
    s.Overlooked op ↔ s.Starved op := by
  unfold Overlooked Starved
  unfold Attentive at ha
  split
  · constructor
    · intro ⟨id,c,hc,hover,hunread⟩
      refine ⟨id,c,hc,hover,hunread,?_⟩
      have hsound := h.sound id c hc
      cases hp : c.bpPaused with
      | true => rfl
      | false =>
        have hfd : c.fd≠none := fun hfd => (hsound.closed hfd).1 hover.1
        have hreads : c.watch.reads=true := by
          rw [hsound.polled,hp]
          simpa [Option.isSome_iff_ne_none] using hfd
        exact absurd (ha id c hc hreads) (Nat.pos_iff_ne_zero.mp hunread)
    · intro ⟨id,c,hc,hover,hunread,_⟩
      exact ⟨id,c,hc,hover,hunread⟩
  · rfl

variable (crc) in
theorem start_inv (m : ChannelMap) (ios : UInt8 → Io) (now : Instant) : Inv (start crc m ios now) :=
  ⟨fun _ => nofun,fun _ _ hc ha => absurd ha (fresh_stopped hc),fresh_uartsSound m ios⟩

/-- When a reset means silence. In every run whose clock does not go back, all MCUs that are
declared reset were silent exactly if no head of the loop finds an overdue MCU with bytes to be
read; and where mio leaves nothing unread that it polls for, exactly if none of them is found
paused. -/
theorem reset_means_silence (m : ChannelMap) (ios : UInt8 → Io) (now : Instant) {ops : List UartOp}
    (ht : Always (step crc) Timely (start crc m ios now) ops) :
    (Always (step crc) (Silent crc) (start crc m ios now) ops ↔
      Always (step crc) (fun s op => ¬s.Overlooked op) (start crc m ios now) ops) ∧
    (Always (step crc) Attentive (start crc m ios now) ops →
      (Always (step crc) (Silent crc) (start crc m ios now) ops ↔
        Always (step crc) (fun s op => ¬s.Starved op) (start crc m ios now) ops)) := by
  refine ⟨?_,?_⟩
  · refine always_iff (step crc) ?_ (start_inv crc m ios now) ht
    intro s op h ht
    exact ⟨h.silent_iff ht,fun _ => h.step ht⟩
  · intro ha
    refine always_iff (step crc) ?_ (start_inv crc m ios now) ((always_and (step crc)).mpr ⟨ht,ha⟩)
    intro s op h hta
    refine ⟨?_,fun _ => h.step hta.1⟩
    rw [h.silent_iff hta.1,h.starved_iff hta.2]

section Chatter

/-- The kernel has `bs` to be read. -/
def readIo (bs : List UInt8) (h : bs.length≤4096) : Io := {Io.idle with read := .data bs h}

def readEvent (bs : List UInt8) (h : bs.length≤4096) : RunOp WriteResult :=
  .loop (.turn (.event 0 (primaryToken 1) true false (readIo bs h)))

/-- A daemon with one UART, whose link is up and whose MCU has said its first byte. -/
def greetOps : List UartOp :=
  [.turn (.loop (.turn (.start 0 (some 4)))),
    .turn (.loop (.receive 0 .idle (Daemon.controlFrame fAck))),
    .arrive 0 1 0,
    .turn (readEvent [klipperSync] (by decide))]

def rig : Listening :=
  start crc32 (.single (.mcu (.new 1 .idle))) (fun _ => {Io.idle with openSerialFd := some 3}) 0

def headAt (t : Instant) : UartOp := .turn (.loop (.turn (.head t t none (fun _ => .idle))))

/-- Six seconds after its only byte, the MCU is rightly declared reset. -/
theorem reset_means_silence_greeted :
    Always (step crc32) (Silent crc32) rig (greetOps++[headAt (secs 6)]) := by
  have ht : Always (step crc32) Timely rig (greetOps++[headAt (secs 6)]) := by
    refine ⟨?_,?_,?_,?_,?_,trivial⟩ <;> exact Nat.zero_le _
  refine (reset_means_silence _ _ 0 ht).1.mpr ⟨nofun,nofun,nofun,nofun,?_,trivial⟩
  intro ⟨id,c,_,_,hunread⟩
  by_cases hid : id=1
  · subst hid
    exact absurd hunread (by decide)
  · simp [step,advance,start,hid] at hunread

/-- The MCU runs and is heard, and `n` bytes wait for the link. -/
structure Chatting (n : Nat) (d : Daemon TxQueue) : Prop where
  hysteresis : Daemon.Hysteresis d
  used : d.txq.used=n
  runs : ∃c,d.channels.get 1=some (.mcu c) ∧ c.state=.active ∧ c.fd=some 3 ∧ c.linkUp=true ∧
    c.lastRx=some 0

section Talk

variable {b : UInt8} {bs : List UInt8} (hlen : (b::bs).length=4096)

/-- A read of an MCU that runs. -/
theorem apply_read {c : McuChannel} (ha : c.state=.active) (hfd : c.fd=some 3)
    (hup : c.linkUp=true) (hid : c.chId=1) :
    (DynChannel.mcu c).apply ⟨.handleEvent (primaryToken 1) true false,readIo (b::bs) hlen.le⟩=
      (.mcu {c with lastRx := some 0},⟨[⟨fData,1,b::bs⟩],b::bs,[]⟩) := by
  obtain ⟨chId,state,fd,watch,txbuf,lastRx,reopenAt,bpPaused,linkUp⟩ := c
  cases ha
  cases hfd
  cases hup
  cases hid
  simp only [DynChannel.apply,McuChannel.apply,McuChannel.handleEvent,if_true,Bool.false_eq_true,
    if_false,Effect.next_quiet]
  rfl

/-- One more full read is queued, and the pause begins with the read that reaches the high-water
mark. -/
theorem Chatting.talk {n : Nat} {d : Daemon TxQueue} (h : Chatting n d)
    (hn : n+4106<linkTxbufSize) :
    Chatting (n+4106) (Daemon.step (txLink crc32) crc32 d (readEvent (b::bs) hlen.le)).1 ∧
      (linkHighWater≤n+4106 →
        (Daemon.step (txLink crc32) crc32 d (readEvent (b::bs) hlen.le)).1.linkBp=true) := by
  obtain ⟨c,hget,ha,hfd,hup,hrx⟩ := h.runs
  have hid : c.chId=1 := d.channels.ids 1 _ hget
  have hread := apply_read hlen ha hfd hup hid
  have hsize : (Frame.build crc32 ⟨fData,1,b::bs⟩).length=4106 := by
    have hbuild := buildFrame_length crc32 fData 1 (b::bs) (by rw [hlen]; decide)
    rwa [hlen] at hbuild
  have hfits : d.txq.overflows (Frame.build crc32 ⟨fData,1,b::bs⟩)=false := by
    simp only [TxQueue.overflows,hsize,h.used,decide_eq_false_iff_not]
    omega
  have hused := d.txq.enqueue_used _ hfits
  rw [hsize,h.used] at hused
  have hframes : d.channels.frames 1 ⟨.handleEvent (primaryToken 1) true false,
      readIo (b::bs) hlen.le⟩=[⟨fData,1,b::bs⟩] := by
    simp only [ChannelMap.frames,hget,hread]
  have hself : (d.channels.set 1 ⟨.handleEvent (primaryToken 1) true false,
      readIo (b::bs) hlen.le⟩).get 1=some (.mcu {c with lastRx := some 0}) := by
    rw [ChannelMap.set_get_self,hget,Option.map_some,hread]
  generalize hd : Daemon.callChannel (txLink crc32) d 1
    ⟨.handleEvent (primaryToken 1) true false,readIo (b::bs) hlen.le⟩=d₁
  have hq₁ : d₁.txq.used=n+4106 := by
    rw [← hd,Daemon.callChannel,hframes]
    exact hused
  have hget₁ : d₁.channels.get 1=some (.mcu {c with lastRx := some 0}) := by
    rw [← hd]
    exact hself
  obtain ⟨m,bp,hcheck,hbp,hm⟩ := Daemon.checkBpHigh_eq (txLink crc32) d₁
  obtain ⟨w,hw⟩ := Daemon.setLinkWriteInterest_eq
    {d₁ with channels := m, linkBp := bp, lastTx := some 0} (!(txLink crc32).isEmpty d₁.txq)
  have hstep : (Daemon.step (txLink crc32) crc32 d (readEvent (b::bs) hlen.le)).1=
      {d₁ with channels := m, linkBp := bp, lastTx := some 0, wantWrite := w} := by
    have htok : channelIdForToken (primaryToken 1)=some 1 := by decide
    simp only [Daemon.step,readEvent,Daemon.loop,Daemon.turn,Daemon.channelEvent,htok,hd,hcheck,
      Daemon.touch]
    exact hw
  have hflags : Daemon.Hysteresis
      (Daemon.step (txLink crc32) crc32 d (readEvent (b::bs) hlen.le)).1 :=
    h.hysteresis.channelEvent 0 (primaryToken 1) true false _
  rw [hstep] at hflags ⊢
  refine ⟨⟨hflags,hq₁,?_⟩,?_⟩
  · rcases hm 1 with hsame|hpaused
    · exact ⟨_,hsame.trans hget₁,ha,hfd,hup,rfl⟩
    · rw [hget₁] at hpaused
      obtain ⟨hs,hl,hf⟩ := McuChannel.pauseSourceReads_alike {c with lastRx := some 0}
      have hlink : (McuChannel.pauseSourceReads {c with lastRx := some 0}).linkUp=true := by
        unfold McuChannel.pauseSourceReads
        split_ifs <;> simp [hup]
      exact ⟨_,hpaused,hs.trans ha,hf.trans hfd,hlink,hl⟩
  · intro hhigh
    apply hbp
    rw [show (txLink crc32).used d₁.txq=n+4106 from hq₁]
    exact hhigh

/-- As much as one read takes arrives and is read, `k` times. -/
def chatterOps (k : Nat) : List UartOp :=
  (List.replicate k [.arrive 0 1 4095,.turn (readEvent (b::bs) hlen.le)]).flatten

theorem Chatting.run {n : Nat} {s : Listening} (h : Chatting n s.daemon) (k : Nat)
    (hn : n+4106*k<linkTxbufSize) :
    Chatting (n+4106*k) (after (step crc32) s (chatterOps hlen k)).daemon ∧
      (k≠0 → linkHighWater≤n+4106*k →
        (after (step crc32) s (chatterOps hlen k)).daemon.linkBp=true) := by
  induction k with
  | zero => exact ⟨h,fun hk => absurd rfl hk⟩
  | succ k ih =>
    have hnext : n+4106*k+4106=n+4106*(k+1) := by omega
    rw [← hnext] at hn ⊢
    obtain ⟨hk,-⟩ := ih ((Nat.le_add_right _ _).trans_lt hn)
    have htalk := hk.talk hlen hn
    have hsucc : chatterOps hlen (k+1)=
        chatterOps hlen k++[.arrive 0 1 4095,.turn (readEvent (b::bs) hlen.le)] := by
      simp [chatterOps,List.replicate_succ']
    rw [hsucc,after_append]
    exact ⟨htalk.1,fun _ => htalk.2⟩

theorem chatterOps_mem {k : Nat} {op : UartOp} (h : op∈chatterOps hlen k) :
    op=.arrive 0 1 4095 ∨ op=.turn (readEvent (b::bs) hlen.le) := by
  obtain ⟨l,hl,hop⟩ := List.mem_flatten.mp h
  rw [List.eq_of_mem_replicate hl] at hop
  simpa using hop

/-- An MCU that has been heard until the link was held back says another byte a second later. Five
seconds on it is overdue, with that byte still to be read. -/
def pausedOps : List UartOp :=
  greetOps++(chatterOps hlen 128++[.arrive (secs 1) 1 0,headAt (secs 6)])

/-- While nothing but the first two kinds of turns happens at time 0, the clock stands still and mio
is not asked for anything. -/
theorem timely_zero {s : Listening} (hs : s.clock=0) {ops : List UartOp}
    (h : ∀op∈ops,op.time=0) :
    Always (step crc32) Timely s ops ∧ (after (step crc32) s ops).clock=0 := by
  induction ops generalizing s with
  | nil => exact ⟨trivial,hs⟩
  | cons op ops ih =>
    obtain ⟨hop,hops⟩ := List.forall_mem_cons.mp h
    have hclock : (step crc32 s op).1.clock=0 := by
      cases op <;> exact hop
    obtain ⟨htimely,hend⟩ := ih hclock hops
    exact ⟨⟨(hs.trans hop.symm).le,htimely⟩,hend⟩

/-- Bytes for one UART are no bytes for another. -/
theorem unread_other {s : Listening} {id : UInt8} (hid : id≠1) (hs : s.unread id=0)
    {ops : List UartOp} (h : ∀op∈ops,∀now j n,op=.arrive now j n → j=1) :
    (after (step crc32) s ops).unread id=0 := by
  refine after_of_always (step crc32) (P := fun s => s.unread id=0) ?_ hs
    (always_of_forall (step crc32) h)
  intro s op hs hop
  cases op with
  | arrive now j n =>
    have hj : id≠j := fun he => hid (he.trans (hop now j n rfl))
    simp [step,advance,hj,hs]
  | turn op => simp [step,advance,hs]

theorem greeted_chatting : Chatting 41 (after (step crc32) rig greetOps).daemon := by
  have hnew : Daemon.Hysteresis rig.daemon := .new crc32 _ _ 0
  have hstart : Daemon.Hysteresis (Daemon.loop (txLink crc32) _ (.turn (.start 0 (some 4)))) :=
    hnew.loop (fun _ => rfl)
  have hup : Daemon.Hysteresis (Daemon.receive (txLink crc32) _ 0 .idle
      (Daemon.controlFrame fAck)) := hstart.receive 0 .idle _
  have hheard : Daemon.Hysteresis (Daemon.channelEvent (txLink crc32) _ 0 (primaryToken 1) true
      false (readIo [klipperSync] (by decide))) := hup.channelEvent 0 _ true false _
  exact ⟨hheard,rfl,_,rfl,rfl,rfl,rfl,rfl⟩

/-- The daemon after 128 full reads. -/
def chatted : Listening :=
  after (step crc32) (after (step crc32) rig greetOps) (chatterOps hlen 128)

theorem chatted_pauses :
    Chatting 525609 (chatted hlen).daemon ∧ (chatted hlen).daemon.linkBp=true ∧
      ∀id,id≠1 → (chatted hlen).unread id=0 := by
  obtain ⟨hchatting,hpaused⟩ := greeted_chatting.run hlen 128 (by decide)
  refine ⟨hchatting,hpaused (by decide) (by decide),?_⟩
  intro id hid
  apply unread_other hid
  · apply unread_other hid rfl
    rintro op hop now j n rfl
    simp only [greetOps,List.mem_cons,UartOp.arrive.injEq,reduceCtorEq,List.not_mem_nil,
      false_or,or_false] at hop
    exact hop.2.1
  · rintro op hop now j n rfl
    rcases chatterOps_mem hlen hop with he|he
    · exact (UartOp.arrive.inj he).2.1
    · exact nomatch he

theorem pausedOps_timely : Always (step crc32) Timely rig (pausedOps hlen) := by
  have hgreet : ∀op∈greetOps,op.time=0 := by
    simp [greetOps,UartOp.time,RunOp.time,readEvent,readIo,Io.idle]
  have hchat : ∀op∈chatterOps hlen 128,op.time=0 := by
    intro op hop
    rcases chatterOps_mem hlen hop with rfl|rfl <;> rfl
  obtain ⟨htimely₁,hclock₁⟩ := timely_zero (s := rig) rfl hgreet
  obtain ⟨htimely₂,hclock₂⟩ := timely_zero hclock₁ hchat
  refine (always_append (step crc32)).mpr ⟨htimely₁,(always_append (step crc32)).mpr
    ⟨htimely₂,?_,?_,trivial⟩⟩
  · exact hclock₂.trans_le (Nat.zero_le _)
  · exact (by decide : secs 1 ≤ secs 6)

/-- The daemon at the head of the loop that ends the run. -/
def pausedState : Listening := (step crc32 (chatted hlen) (.arrive (secs 1) 1 0)).1

theorem pausedState_daemon : (pausedState hlen).daemon=(chatted hlen).daemon := by
  rw [pausedState,arrive_daemon]

theorem pausedState_inv : Inv (pausedState hlen) ∧ (pausedState hlen).Timely (headAt (secs 6)) := by
  obtain ⟨htimely₁,htimely⟩ := (always_append (step crc32)).mp (pausedOps_timely hlen)
  obtain ⟨htimely₂,htimely₃,htimely₄,-⟩ := (always_append (step crc32)).mp htimely
  have hstep : ∀s op,Inv s → s.Timely op → Inv (step crc32 s op).1 := fun _ _ h ht => h.step ht
  have hinv₁ := after_of_always (step crc32) hstep (start_inv crc32 _ _ 0) htimely₁
  have hinv₂ := after_of_always (step crc32) hstep hinv₁ htimely₂
  exact ⟨hinv₂.step htimely₃,htimely₄⟩

theorem pausedOps_attentive : Always (step crc32) Attentive rig (pausedOps hlen) := by
  have hchat : Always (step crc32) Attentive (after (step crc32) rig greetOps)
      (chatterOps hlen 128) := by
    refine always_of_always (step crc32) (P := fun _ => True) ?_ trivial
      (always_of_forall (step crc32) (fun _ => chatterOps_mem hlen))
    rintro s op - (rfl|rfl) <;> exact ⟨trivial,trivial⟩
  have hhead : (pausedState hlen).Attentive (headAt (secs 6)) := by
    obtain ⟨hchatting,hbp,hother⟩ := chatted_pauses hlen
    intro id c hc hreads
    by_cases hid : id=1
    · have hsound := (pausedState_inv hlen).1.sound id c hc
      rw [pausedState_daemon] at hc
      have hpaused : c.bpPaused=true := (hchatting.hysteresis.flags id (.mcu c) hc).trans hbp
      rw [hsound.polled,hpaused] at hreads
      simp at hreads
    · simpa [pausedState,step,advance,hid] using hother id hid
  exact (always_append (step crc32)).mpr ⟨⟨trivial,trivial,trivial,trivial,trivial⟩,
    (always_append (step crc32)).mpr ⟨hchat,trivial,hhead,trivial⟩⟩

theorem pausedState_overlooked : (pausedState hlen).Overlooked (headAt (secs 6)) := by
  obtain ⟨hchatting,-,-⟩ := chatted_pauses hlen
  obtain ⟨c,hget,ha,hfd,-,hrx⟩ := hchatting.runs
  have hlate : resetSilence < secs 6-0 := by decide
  have hover : c.Overdue (secs 6) := ⟨ha,0,hrx,hlate⟩
  have hopen : uartOpen (chatted hlen).daemon 1=true := uartOpen_of_fd hget hfd
  have hunread : 0<(pausedState hlen).unread 1 := by
    rw [pausedState]
    exact arrive_unread (secs 1) 0 hopen
  rw [← pausedState_daemon] at hget
  exact ⟨1,c,hget,hover,hunread⟩

end Talk

/-- Even where mio leaves nothing unread that it polls for, an MCU can be declared reset while it
speaks: the link is congested, and reads have been paused for too long. -/
theorem paused_mcu_reset :
    ¬∀m ios now ops,Always (step crc32) Timely (start crc32 m ios now) ops →
      Always (step crc32) Attentive (start crc32 m ios now) ops →
      Always (step crc32) (Silent crc32) (start crc32 m ios now) ops := by
  intro h
  have hlen : (klipperSync::List.replicate 4095 0).length=4096 := by
    rw [List.length_cons,List.length_replicate]
  have hsilent := h _ _ _ _ (pausedOps_timely hlen) (pausedOps_attentive hlen)
  obtain ⟨-,hsilent⟩ := (always_append (step crc32)).mp hsilent
  obtain ⟨-,-,hlast,-⟩ := (always_append (step crc32)).mp hsilent
  obtain ⟨hinv,htimely⟩ := pausedState_inv hlen
  exact (hinv.silent_iff htimely).mp hlast (pausedState_overlooked hlen)

end Chatter

end Listening

end Serialmux.EventLoop

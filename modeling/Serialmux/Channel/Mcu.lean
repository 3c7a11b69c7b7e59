import Serialmux.Channel.Io

namespace Serialmux.Channel

open Protocol

/-- Waiting for the Klipper sync byte, forwarding, or draining after a reset. -/
inductive McuState where
  | init
  | active
  | resetting
  deriving DecidableEq, Repr

abbrev resetSilence : Nat := secs 5

abbrev reopenDelay : Nat := secs 2

/-- Exporter-side MCU channel: a UART on one side, data frames on the other. `watch.inSel` is the
source's `fd_in_sel`. -/
structure McuChannel where
  chId : UInt8
  state : McuState
  fd : Option RawFd
  watch : Watch
  txbuf : List UInt8
  lastRx : Option Instant
  reopenAt : Option Instant
  bpPaused : Bool
  linkUp : Bool
  deriving DecidableEq

namespace McuChannel

def updateInterest (c : McuChannel) : McuChannel :=
  match c.fd with
  | none => c
  | some _ => {c with watch := c.watch.update (Interest.ofFlags (!c.bpPaused) (!c.txbuf.isEmpty))}

def openUart (c : McuChannel) (io : Io) : McuChannel :=
  match io.openSerialFd with
  | some fd => updateInterest {c with fd := some fd, watch := .fresh}
  | none => {c with reopenAt := some (io.now+reopenDelay)}

def new (chId : UInt8) (io : Io) : McuChannel :=
  openUart ⟨chId,.init,none,.fresh,[],none,none,false,false⟩ io

def closeUart (c : McuChannel) : McuChannel := {c with fd := none, watch := .fresh}

/-- A frame of this channel. -/
def frame (c : McuChannel) (ftype : UInt8) (payload : List UInt8) : Frame :=
  ⟨ftype,c.chId,payload⟩

/-- What a channel sends only while its link is up. -/
def whenUp (c : McuChannel) (fs : List Frame) : List Frame := if c.linkUp then fs else []

def transition (c : McuChannel) (newState : McuState) : McuChannel × List Frame :=
  if newState=c.state then (c,[])
  else
    match newState with
    | .resetting =>
      ({c with state := .resetting, lastRx := none, txbuf := []},c.whenUp [c.frame fFlush []])
    | .active => ({c with state := .active},c.whenUp [c.frame fReady []])
    | .init => ({c with state := .init},[])

/-- A read while Klipper is not seen to run: everything before the first sync byte is bootloader
noise. -/
def awaitSync (c : McuChannel) (data : List UInt8) : McuChannel × List Frame :=
  match data.findIdx? (·==klipperSync) with
  | none => (c,[])
  | some idx =>
    let (c',fs) := c.transition .active
    (c',fs++c'.whenUp [c'.frame fData (data.drop idx)])

def uartRead (c : McuChannel) (io : Io) : McuChannel × Effect :=
  match c.fd with
  | none => (c,.quiet)
  | some _ =>
    match io.read with
    | .wouldBlock => (c,.quiet)
    | .data [] _ => (c,.quiet)
    | .data (b::bs) _ =>
      let c := {c with lastRx := some io.now}
      match c.state with
      | .init => ((c.awaitSync (b::bs)).1,⟨(c.awaitSync (b::bs)).2,b::bs,[]⟩)
      | .resetting => ((c.awaitSync (b::bs)).1,⟨(c.awaitSync (b::bs)).2,b::bs,[]⟩)
      | .active => (c,⟨c.whenUp [c.frame fData (b::bs)],b::bs,[]⟩)
    | .error _ =>
      let (c',fs) := c.closeUart.transition .resetting
      ({c' with reopenAt := some (io.now+secs 1)},.sends fs)

/-- A pending buffer after one non-blocking write: what is left and what was taken. An error clears
the buffer. -/
def flushBuf (txbuf : List UInt8) : WriteResult → List UInt8 × List UInt8
  | .wrote n => (txbuf.drop n,txbuf.take n)
  | .again => (txbuf,[])
  | .error => ([],[])

def uartDrain (c : McuChannel) (io : Io) : McuChannel × Effect :=
  match c.fd with
  | none => (c,.quiet)
  | some _ =>
    if c.txbuf=[] then (c,.quiet)
    else
      (updateInterest {c with txbuf := (flushBuf c.txbuf io.write).1},
        ⟨[],[],(flushBuf c.txbuf io.write).2⟩)

def onFrame (c : McuChannel) (ftype : UInt8) (payload : List UInt8) (io : Io) :
    McuChannel × Effect :=
  if ftype=fData then
    if c.fd=none ∨ c.state≠.active then (c,.quiet)
    else uartDrain {c with txbuf := c.txbuf++payload} io
  else (c,.quiet)

def onLinkConnect (c : McuChannel) : McuChannel × Effect :=
  ({c with linkUp := true},
    .sends [c.frame (if c.state=.active then fReady else fFlush) []])

def onLinkDisconnect (c : McuChannel) : McuChannel × Effect :=
  (updateInterest {c with linkUp := false, txbuf := []},.quiet)

def tick (c : McuChannel) (now : Instant) (io : Io) : McuChannel × Effect :=
  match c.fd with
  | none =>
    match c.reopenAt with
    | none => (c,.quiet)
    | some t => if t≤now then (openUart {c with reopenAt := none} io,.quiet) else (c,.quiet)
  | some _ =>
    match c.state,c.lastRx with
    | .active,some last =>
      if resetSilence<now-last then ((c.transition .resetting).1,.sends (c.transition .resetting).2)
      else (c,.quiet)
    | _,_ => (c,.quiet)

def nextDeadline (c : McuChannel) : Option Instant :=
  if c.fd=none then c.reopenAt
  else if c.state=.active then c.lastRx.map (·+resetSilence)
  else none

def handleEvent (c : McuChannel) (readable writable : Bool) (io : Io) : McuChannel × Effect :=
  let (c₁,e₁) := if readable then c.uartRead io else (c,.quiet)
  let (c₂,e₂) := if writable then c₁.uartDrain io else (c₁,.quiet)
  (c₂,e₁.next e₂)

def pauseSourceReads (c : McuChannel) : McuChannel :=
  if c.bpPaused then c else updateInterest {c with bpPaused := true}

def resumeSourceReads (c : McuChannel) : McuChannel :=
  if c.bpPaused then updateInterest {c with bpPaused := false} else c

def apply (c : McuChannel) (call : Call) : McuChannel × Effect :=
  match call.op with
  | .onFrame ftype payload => c.onFrame ftype payload call.io
  | .onLinkConnect => c.onLinkConnect
  | .onLinkDisconnect => c.onLinkDisconnect
  | .tick now => c.tick now call.io
  | .handleEvent _ readable writable => c.handleEvent readable writable call.io
  | .pauseSourceReads => (c.pauseSourceReads,.quiet)
  | .resumeSourceReads => (c.resumeSourceReads,.quiet)

@[simp] theorem updateInterest_chId (c : McuChannel) : c.updateInterest.chId=c.chId := by
  unfold updateInterest
  split <;> rfl

@[simp] theorem updateInterest_state (c : McuChannel) : c.updateInterest.state=c.state := by
  unfold updateInterest
  split <;> rfl

@[simp] theorem updateInterest_linkUp (c : McuChannel) : c.updateInterest.linkUp=c.linkUp := by
  unfold updateInterest
  split <;> rfl

/-- The parts of a channel that decide what it sends. -/
def Same (c c' : McuChannel) : Prop := c'.chId=c.chId ∧ c'.state=c.state ∧ c'.linkUp=c.linkUp

theorem openUart_same (c : McuChannel) (io : Io) : Same c (c.openUart io) := by
  unfold openUart
  split <;> simp [Same]

theorem uartDrain_same (c : McuChannel) (io : Io) :
    Same c (c.uartDrain io).1 ∧ (c.uartDrain io).2.frames=[] ∧ (c.uartDrain io).2.read=[] := by
  unfold uartDrain
  split
  · simp [Same]
  · split_ifs <;> simp [Same]

/-- Everything a call can do to the protocol of the channel: its state, its view of the link, the
frames it sends and the bytes it reads. -/
inductive Moves (c : McuChannel) (op : ChannelOp) (c' : McuChannel) (e : Effect) : Prop
  | connect (ho : op=.onLinkConnect) (hs : c'.state=c.state) (hl : c'.linkUp=true)
      (he : e=.sends [c.frame (if c.state=.active then fReady else fFlush) []])
  | disconnect (ho : op=.onLinkDisconnect) (hs : c'.state=c.state) (hl : c'.linkUp=false)
      (he : e=.quiet)
  | stay (ho : op≠.onLinkConnect ∧ op≠.onLinkDisconnect) (hs : c'.state=c.state)
      (hl : c'.linkUp=c.linkUp) (hf : e.frames=[]) (hr : c.state=.active → e.read=[])
  | forward (ho : op≠.onLinkConnect ∧ op≠.onLinkDisconnect) (hs : c.state=.active)
      (hs' : c'.state=.active) (hl : c'.linkUp=c.linkUp) (hn : e.read.length≤4096)
      (hf : e.frames=c.whenUp [c.frame fData e.read])
  | wake (ho : op≠.onLinkConnect ∧ op≠.onLinkDisconnect) (hs : c.state≠.active)
      (hs' : c'.state=.active) (hl : c'.linkUp=c.linkUp) (hn : e.read.length≤4096)
      (hf : e.frames=c.whenUp
        [c.frame fReady [],c.frame fData (e.read.dropWhile (·!=klipperSync))])
  | reset (ho : op≠.onLinkConnect ∧ op≠.onLinkDisconnect) (hs : c.state≠.resetting)
      (hs' : c'.state=.resetting) (hl : c'.linkUp=c.linkUp) (hr : e.read=[])
      (hf : e.frames=c.whenUp [c.frame fFlush []])

theorem transition_chId (c : McuChannel) (newState : McuState) :
    (c.transition newState).1.chId=c.chId := by
  unfold transition
  split_ifs
  · rfl
  · cases newState <;> rfl

theorem transition_resetting {c : McuChannel} (h : c.state≠.resetting) :
    c.transition .resetting=
      ({c with state := .resetting, lastRx := none, txbuf := []},c.whenUp [c.frame fFlush []]) := by
  rw [transition,if_neg (Ne.symm h)]

theorem transition_active {c : McuChannel} (h : c.state≠.active) :
    c.transition .active=({c with state := .active},c.whenUp [c.frame fReady []]) := by
  rw [transition,if_neg (Ne.symm h)]

/-- Dropping up to the first sync byte, by index or by looking. -/
theorem drop_findIdx_sync {data : List UInt8} {idx : Nat}
    (h : data.findIdx? (·==klipperSync)=some idx) :
    data.drop idx=data.dropWhile (·!=klipperSync) := by
  rw [List.findIdx?_eq_some_iff_findIdx_eq] at h
  rw [List.dropWhile_eq_drop_findIdx_not,← h.2]
  simp only [bne,Bool.not_not]

theorem awaitSync_chId (c : McuChannel) (data : List UInt8) :
    (c.awaitSync data).1.chId=c.chId := by
  unfold awaitSync
  split
  · rfl
  · exact transition_chId c .active

section Calls

variable {op : ChannelOp} (ho : op≠.onLinkConnect ∧ op≠.onLinkDisconnect)
include ho

private theorem awaitSync_moves (c : McuChannel) (hs : c.state≠.active) (data : List UInt8)
    (hn : data.length≤4096) :
    Moves c op (c.awaitSync data).1 ⟨(c.awaitSync data).2,data,[]⟩ := by
  unfold awaitSync
  split
  · exact .stay ho rfl rfl rfl (fun h => absurd h hs)
  · next idx h =>
    rw [transition_active hs]
    refine .wake ho hs rfl rfl hn ?_
    simp only [drop_findIdx_sync h,whenUp,frame]
    cases c.linkUp <;> rfl

private theorem uartRead_moves (c : McuChannel) (io : Io) :
    Moves c op (c.uartRead io).1 (c.uartRead io).2 ∧ (c.uartRead io).1.chId=c.chId := by
  obtain ⟨chId,state,fd,watch,txbuf,lastRx,reopenAt,bpPaused,linkUp⟩ := c
  unfold uartRead
  cases fd with
  | none => exact ⟨.stay ho rfl rfl rfl (fun _ => rfl),rfl⟩
  | some fd =>
    cases io.read with
    | wouldBlock => exact ⟨.stay ho rfl rfl rfl (fun _ => rfl),rfl⟩
    | error e =>
      by_cases hs : state=.resetting
      · subst hs
        exact ⟨.stay ho rfl rfl rfl (fun _ => rfl),rfl⟩
      · have ht := transition_resetting
          (c := closeUart ⟨chId,state,some fd,watch,txbuf,lastRx,reopenAt,bpPaused,linkUp⟩) hs
        simp only [ht]
        exact ⟨.reset ho hs rfl rfl rfl rfl,rfl⟩
    | data bs hn =>
      cases bs with
      | nil => exact ⟨.stay ho rfl rfl rfl (fun _ => rfl),rfl⟩
      | cons b bs =>
        -- Only the time of the last byte changes before the state is looked at.
        have hsame : ∀{c' e},Moves ⟨chId,state,some fd,watch,txbuf,some io.now,reopenAt,bpPaused,
            linkUp⟩ op c' e →
            Moves ⟨chId,state,some fd,watch,txbuf,lastRx,reopenAt,bpPaused,linkUp⟩ op c' e := by
          intro c' e h
          cases h with
          | connect h => exact absurd h ho.1
          | disconnect h => exact absurd h ho.2
          | stay _ hs hl hf hr => exact .stay ho hs hl hf hr
          | forward _ hs hs' hl hn hf => exact .forward ho hs hs' hl hn hf
          | wake _ hs hs' hl hn hf => exact .wake ho hs hs' hl hn hf
          | reset _ hs hs' hl hr hf => exact .reset ho hs hs' hl hr hf
        cases state with
        | active => exact ⟨.forward ho rfl rfl rfl hn rfl,rfl⟩
        | init =>
          have hs : (McuChannel.mk chId .init (some fd) watch txbuf (some io.now) reopenAt bpPaused
              linkUp).state≠.active := nofun
          exact ⟨hsame (awaitSync_moves ho _ hs _ hn),awaitSync_chId _ _⟩
        | resetting =>
          have hs : (McuChannel.mk chId .resetting (some fd) watch txbuf (some io.now) reopenAt bpPaused
              linkUp).state≠.active := nofun
          exact ⟨hsame (awaitSync_moves ho _ hs _ hn),awaitSync_chId _ _⟩

private theorem tick_moves (c : McuChannel) (now : Instant) (io : Io) :
    Moves c op (c.tick now io).1 (c.tick now io).2 ∧ (c.tick now io).1.chId=c.chId := by
  have hstay : Moves c op c .quiet := .stay ho rfl rfl rfl (fun _ => rfl)
  obtain ⟨chId,state,fd,watch,txbuf,lastRx,reopenAt,bpPaused,linkUp⟩ := c
  unfold tick
  cases fd with
  | none =>
    cases reopenAt with
    | none => exact ⟨hstay,rfl⟩
    | some t =>
      dsimp only
      split_ifs
      · obtain ⟨hi,hs,hl⟩ :=
          openUart_same ⟨chId,state,none,watch,txbuf,lastRx,none,bpPaused,linkUp⟩ io
        exact ⟨.stay ho hs hl rfl (fun _ => rfl),hi⟩
      · exact ⟨hstay,rfl⟩
  | some fd =>
    cases state with
    | init => exact ⟨hstay,rfl⟩
    | resetting => exact ⟨hstay,rfl⟩
    | active =>
      cases lastRx with
      | none => exact ⟨hstay,rfl⟩
      | some last =>
        dsimp only
        split_ifs
        · exact ⟨.reset ho nofun rfl rfl rfl rfl,rfl⟩
        · exact ⟨hstay,rfl⟩

private theorem handleEvent_moves (c : McuChannel) (readable writable : Bool) (io : Io) :
    Moves c op (c.handleEvent readable writable io).1 (c.handleEvent readable writable io).2 ∧
      (c.handleEvent readable writable io).1.chId=c.chId := by
  have hread : ∀{c₁ e₁},Moves c op c₁ e₁ ∧ c₁.chId=c.chId →
      Moves c op (c₁.uartDrain io).1 (e₁.next (c₁.uartDrain io).2) ∧
        (c₁.uartDrain io).1.chId=c.chId := by
    intro c₁ e₁ ⟨h,hi⟩
    obtain ⟨⟨hi₂,hs₂,hl₂⟩,hf₂,hr₂⟩ := uartDrain_same c₁ io
    refine ⟨?_,hi₂.trans hi⟩
    have hf : (e₁.next (c₁.uartDrain io).2).frames=e₁.frames := by simp [hf₂]
    have hr : (e₁.next (c₁.uartDrain io).2).read=e₁.read := by simp [hr₂]
    cases h with
    | connect h => exact absurd h ho.1
    | disconnect h => exact absurd h ho.2
    | stay _ hs hl hf' hr' =>
      exact .stay ho (hs₂.trans hs) (hl₂.trans hl) (hf.trans hf') (fun h => hr.trans (hr' h))
    | forward _ hs hs' hl hn hf' =>
      exact .forward ho hs (hs₂.trans hs') (hl₂.trans hl) (hr ▸ hn) (by rw [hf,hr,hf'])
    | wake _ hs hs' hl hn hf' =>
      exact .wake ho hs (hs₂.trans hs') (hl₂.trans hl) (hr ▸ hn) (by rw [hf,hr,hf'])
    | reset _ hs hs' hl hr' hf' =>
      exact .reset ho hs (hs₂.trans hs') (hl₂.trans hl) (hr.trans hr') (hf.trans hf')
  have hstay : Moves c op c .quiet := .stay ho rfl rfl rfl (fun _ => rfl)
  unfold handleEvent
  cases readable with
  | false =>
    cases writable with
    | false => exact ⟨hstay,rfl⟩
    | true => exact hread ⟨hstay,rfl⟩
  | true =>
    cases writable with
    | false => simpa only [if_true,Bool.false_eq_true,if_false,Effect.next_quiet] using uartRead_moves ho c io
    | true => exact hread (uartRead_moves ho c io)

end Calls

theorem apply_moves (c : McuChannel) (call : Call) :
    Moves c call.op (c.apply call).1 (c.apply call).2 ∧ (c.apply call).1.chId=c.chId := by
  obtain ⟨op,io⟩ := call
  cases op with
  | onFrame ftype payload =>
    have ho : ChannelOp.onFrame ftype payload≠.onLinkConnect ∧
        ChannelOp.onFrame ftype payload≠.onLinkDisconnect := by simp
    simp only [apply,onFrame]
    split_ifs
    · exact ⟨.stay ho rfl rfl rfl (fun _ => rfl),rfl⟩
    · obtain ⟨⟨hi,hs,hl⟩,hf,hr⟩ := uartDrain_same {c with txbuf := c.txbuf++payload} io
      exact ⟨.stay ho hs hl hf (fun _ => hr),hi⟩
    · exact ⟨.stay ho rfl rfl rfl (fun _ => rfl),rfl⟩
  | onLinkConnect => exact ⟨.connect rfl rfl rfl rfl,rfl⟩
  | onLinkDisconnect =>
    refine ⟨.disconnect rfl ?_ ?_ rfl,?_⟩ <;> simp [apply,onLinkDisconnect]
  | tick now => exact tick_moves (by simp) c now io
  | handleEvent token readable writable => exact handleEvent_moves (by simp) c readable writable io
  | pauseSourceReads =>
    refine ⟨.stay (by simp) ?_ ?_ rfl (fun _ => rfl),?_⟩ <;> simp only [apply,pauseSourceReads] <;>
      split_ifs <;> simp
  | resumeSourceReads =>
    refine ⟨.stay (by simp) ?_ ?_ rfl (fun _ => rfl),?_⟩ <;> simp only [apply,resumeSourceReads] <;>
      split_ifs <;> simp

end McuChannel

end Serialmux.Channel

import Serialmux.Channel.Mcu

namespace Serialmux.Channel

open Protocol

/-- Host-side MCU channel: a PTY pair for Klipper, open between READY and FLUSH. `watch.inSel` is the
source's `master_in_sel`. -/
structure PtyChannel where
  chId : UInt8
  masterFd : Option RawFd
  slaveFd : Option RawFd
  watch : Watch
  txbuf : List UInt8
  bpPaused : Bool
  deriving DecidableEq

namespace PtyChannel

def new (chId : UInt8) : PtyChannel := ⟨chId,none,none,.fresh,[],false⟩

def updateInterest (c : PtyChannel) : PtyChannel :=
  match c.masterFd with
  | none => c
  | some _ => {c with watch := c.watch.update (Interest.ofFlags (!c.bpPaused) (!c.txbuf.isEmpty))}

/-- A failure of `openpty`, of `ttyname` or of the symlink leaves the channel closed. -/
def openPty (c : PtyChannel) (io : Io) : PtyChannel :=
  match c.masterFd with
  | some _ => c
  | none =>
    match io.openPty with
    | none => c
    | some (master,slave) =>
      updateInterest {c with masterFd := some master, slaveFd := some slave, watch := .fresh}

def closePty (c : PtyChannel) : PtyChannel :=
  {c with masterFd := none, slaveFd := none, watch := .fresh, txbuf := []}

def ptyDrain (c : PtyChannel) (io : Io) : PtyChannel × Effect :=
  match c.masterFd with
  | none => (c,.quiet)
  | some _ =>
    if c.txbuf=[] then (c,.quiet)
    else
      (updateInterest {c with txbuf := (McuChannel.flushBuf c.txbuf io.write).1},
        ⟨[],[],(McuChannel.flushBuf c.txbuf io.write).2⟩)

def onFrame (c : PtyChannel) (ftype : UInt8) (payload : List UInt8) (io : Io) :
    PtyChannel × Effect :=
  if ftype=fFlush then (c.closePty,.quiet)
  else if ftype=fReady then (c.openPty io,.quiet)
  else if ftype=fData then
    match c.masterFd with
    | none => (c,.quiet)
    | some _ => ptyDrain {c with txbuf := c.txbuf++payload} io
  else (c,.quiet)

/-- One read of the master. EIO says that every slave is closed; other errors are ignored. -/
def ptyRead (c : PtyChannel) (io : Io) : PtyChannel × Effect :=
  match io.read with
  | .data [] _ => (c,.quiet)
  | .data (b::bs) _ => (c,⟨[⟨fData,c.chId,b::bs⟩],b::bs,[]⟩)
  | .error .eio => (c.closePty,.quiet)
  | .error .other => (c,.quiet)
  | .wouldBlock => (c,.quiet)

/-- A readable event without a master returns before its writable part, which a closed channel
passes unchanged. -/
def handleEvent (c : PtyChannel) (readable writable : Bool) (io : Io) : PtyChannel × Effect :=
  match c.masterFd with
  | none => (c,.quiet)
  | some _ =>
    let (c₁,e₁) := if readable then c.ptyRead io else (c,.quiet)
    let (c₂,e₂) := if writable then c₁.ptyDrain io else (c₁,.quiet)
    (c₂,e₁.next e₂)

def pauseSourceReads (c : PtyChannel) : PtyChannel :=
  if c.bpPaused then c else updateInterest {c with bpPaused := true}

def resumeSourceReads (c : PtyChannel) : PtyChannel :=
  if c.bpPaused then updateInterest {c with bpPaused := false} else c

/-- The PTY stays closed at link-up until the exporter sends READY; it has no timers. -/
def apply (c : PtyChannel) (call : Call) : PtyChannel × Effect :=
  match call.op with
  | .onFrame ftype payload => c.onFrame ftype payload call.io
  | .onLinkConnect => (c.closePty,.quiet)
  | .onLinkDisconnect => (c.closePty,.quiet)
  | .tick _ => (c,.quiet)
  | .handleEvent _ readable writable => c.handleEvent readable writable call.io
  | .pauseSourceReads => (c.pauseSourceReads,.quiet)
  | .resumeSourceReads => (c.resumeSourceReads,.quiet)

def isOpen (c : PtyChannel) : Bool := c.masterFd.isSome

@[simp] theorem updateInterest_chId (c : PtyChannel) : c.updateInterest.chId=c.chId := by
  unfold updateInterest
  split <;> rfl

@[simp] theorem updateInterest_masterFd (c : PtyChannel) :
    c.updateInterest.masterFd=c.masterFd := by
  unfold updateInterest
  split <;> rfl

@[simp] theorem closePty_isOpen (c : PtyChannel) : c.closePty.isOpen=false := rfl

theorem openPty_isOpen (c : PtyChannel) (io : Io) :
    (c.openPty io).isOpen=(c.isOpen||io.openPty.isSome) := by
  unfold openPty isOpen
  cases hm : c.masterFd with
  | some fd => simp [hm]
  | none =>
    cases ho : io.openPty with
    | none => simp [hm]
    | some p => simp

theorem ptyDrain_kept (c : PtyChannel) (io : Io) :
    (c.ptyDrain io).1.isOpen=c.isOpen ∧ (c.ptyDrain io).1.chId=c.chId ∧
      (c.ptyDrain io).2.frames=[] ∧ (c.ptyDrain io).2.read=[] := by
  unfold ptyDrain isOpen
  split
  · simp
  · split_ifs <;> simp

/-- READY opens a PTY and FLUSH closes it. -/
theorem onFrame_isOpen (c : PtyChannel) (ftype : UInt8) (payload : List UInt8) (io : Io) :
    (c.onFrame ftype payload io).1.isOpen=
      if ftype=fFlush then false
      else if ftype=fReady then c.isOpen||io.openPty.isSome
      else c.isOpen := by
  unfold onFrame
  split_ifs
  · rfl
  · exact openPty_isOpen c io
  · split
    · rfl
    · exact (ptyDrain_kept {c with txbuf := c.txbuf++payload} io).1
  · rfl

/-- Events close a PTY only by EIO. -/
theorem handleEvent_isOpen (c : PtyChannel) (readable writable : Bool) {io : Io}
    (h : io.read≠.error .eio) : (c.handleEvent readable writable io).1.isOpen=c.isOpen := by
  have hread : (c.ptyRead io).1=c := by
    unfold ptyRead
    split
    · rfl
    · rfl
    · next he => exact absurd he h
    · rfl
    · rfl
  unfold handleEvent
  split
  · rfl
  · cases readable <;> cases writable <;> simp [hread,ptyDrain_kept]

@[simp] theorem updateInterest_isOpen (c : PtyChannel) : c.updateInterest.isOpen=c.isOpen := by
  simp [isOpen]

theorem pauseSourceReads_isOpen (c : PtyChannel) : c.pauseSourceReads.isOpen=c.isOpen := by
  unfold pauseSourceReads
  split_ifs
  · rfl
  · exact updateInterest_isOpen {c with bpPaused := true}

theorem resumeSourceReads_isOpen (c : PtyChannel) : c.resumeSourceReads.isOpen=c.isOpen := by
  unfold resumeSourceReads
  split_ifs
  · exact updateInterest_isOpen {c with bpPaused := false}
  · rfl

theorem apply_chId (c : PtyChannel) (call : Call) : (c.apply call).1.chId=c.chId := by
  obtain ⟨op,io⟩ := call
  cases op with
  | onFrame ftype payload =>
    simp only [apply,onFrame]
    split_ifs
    · rfl
    · unfold openPty
      split
      · rfl
      · split <;> simp
    · split
      · rfl
      · exact (ptyDrain_kept {c with txbuf := c.txbuf++payload} io).2.1
    · rfl
  | onLinkConnect => rfl
  | onLinkDisconnect => rfl
  | tick => rfl
  | handleEvent token readable writable =>
    have hread : (c.ptyRead io).1.chId=c.chId := by
      unfold ptyRead
      split <;> rfl
    simp only [apply,handleEvent]
    split
    · rfl
    · cases readable <;> cases writable <;> simp [hread,ptyDrain_kept]
  | pauseSourceReads => simp only [apply,pauseSourceReads]; split_ifs <;> simp
  | resumeSourceReads => simp only [apply,resumeSourceReads]; split_ifs <;> simp

/-- What a call does to the PTY, the frames it sends and the bytes behind them. -/
theorem apply_frames (c : PtyChannel) (call : Call) :
    (c.apply call).2=⟨[],[],(c.apply call).2.wrote⟩ ∨
      (c.apply call).2.read.length≤4096 ∧
        (c.apply call).2.frames=[⟨fData,c.chId,(c.apply call).2.read⟩] := by
  obtain ⟨op,io⟩ := call
  cases op with
  | onFrame ftype payload =>
    left
    simp only [apply,onFrame]
    split_ifs
    · rfl
    · rfl
    · split
      · rfl
      · obtain ⟨-,-,hf,hr⟩ := ptyDrain_kept {c with txbuf := c.txbuf++payload} io
        exact Effect.ext hf hr rfl
    · rfl
  | handleEvent token readable writable =>
    have hdrain : ∀{c₁ : PtyChannel} {e₁ : Effect},
        (e₁=.quiet ∨ e₁.read.length≤4096 ∧ e₁.frames=[⟨fData,c.chId,e₁.read⟩]) →
        e₁.next (c₁.ptyDrain io).2=⟨[],[],(e₁.next (c₁.ptyDrain io).2).wrote⟩ ∨
          (e₁.next (c₁.ptyDrain io).2).read.length≤4096 ∧
          (e₁.next (c₁.ptyDrain io).2).frames=
            [⟨fData,c.chId,(e₁.next (c₁.ptyDrain io).2).read⟩] := by
      intro c₁ e₁ h
      obtain ⟨-,-,hf,hr⟩ := ptyDrain_kept c₁ io
      rcases h with rfl|⟨hn,hframes⟩
      · exact .inl (Effect.ext (by simp [hf]) (by simp [hr]) rfl)
      · exact .inr (by simp [hf,hr,hn,hframes])
    have hread : (c.ptyRead io).2=.quiet ∨ (c.ptyRead io).2.read.length≤4096 ∧
        (c.ptyRead io).2.frames=[⟨fData,c.chId,(c.ptyRead io).2.read⟩] := by
      unfold ptyRead
      split
      · exact .inl rfl
      · next b bs hn _ => exact .inr ⟨hn,rfl⟩
      all_goals exact .inl rfl
    simp only [apply,handleEvent]
    split
    · exact .inl rfl
    · cases readable with
      | false =>
        cases writable with
        | false => exact .inl rfl
        | true => exact hdrain (.inl rfl)
      | true =>
        cases writable with
        | false =>
          simp only [if_true,Bool.false_eq_true,if_false,Effect.next_quiet]
          rcases hread with h|h
          · exact .inl (by rw [h]; rfl)
          · exact .inr h
        | true => exact hdrain hread
  | onLinkConnect => exact .inl rfl
  | onLinkDisconnect => exact .inl rfl
  | tick => exact .inl rfl
  | pauseSourceReads => exact .inl rfl
  | resumeSourceReads => exact .inl rfl

end PtyChannel

end Serialmux.Channel

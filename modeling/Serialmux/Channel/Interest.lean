import Serialmux.Framework.Machine
import Serialmux.Channel.Pty

namespace Serialmux.Channel

open Protocol Framework

namespace Interest

def isReadable : Interest → Bool
  | readable => true
  | writable => false
  | both => true

def isWritable : Interest → Bool
  | readable => false
  | writable => true
  | both => true

theorem ofFlags_isReadable (r w : Bool) : (ofFlags r w).any isReadable=r := by
  cases r <;> cases w <;> rfl

theorem ofFlags_isWritable (r w : Bool) : (ofFlags r w).any isWritable=w := by
  cases r <;> cases w <;> rfl

theorem ofFlags_eq_none {r w : Bool} : ofFlags r w=none ↔ r=false ∧ w=false := by
  cases r <;> cases w <;> simp [ofFlags]

end Interest

namespace Watch

/-- Whether mio polls the fd for input. -/
def reads (w : Watch) : Bool := w.registered.any Interest.isReadable

def writes (w : Watch) : Bool := w.registered.any Interest.isWritable

/-- The owner's flag tells what mio holds. -/
def Synced (w : Watch) : Prop := w.inSel=w.registered.isSome

theorem fresh_synced : fresh.Synced := rfl

variable {w : Watch}

/-- With the flag in order, no update is lost. -/
theorem update_registered (h : w.Synced) (i : Option Interest) : (w.update i).registered=i := by
  obtain ⟨inSel,registered⟩ := w
  cases registered with
  | none =>
    cases (h : inSel=false)
    cases i <;> rfl
  | some r =>
    cases (h : inSel=true)
    cases i <;> rfl

theorem update_synced (h : w.Synced) (i : Option Interest) : (w.update i).Synced := by
  have hr := update_registered h i
  unfold Synced at h ⊢
  rw [hr]
  cases i with
  | none => cases hs : w.inSel <;> simp [update,hs]
  | some i => cases hs : w.inSel <;> simp [update,hs]

theorem update_reads (h : w.Synced) (r wr : Bool) : (w.update (Interest.ofFlags r wr)).reads=r := by
  rw [reads,update_registered h,Interest.ofFlags_isReadable]

theorem update_writes (h : w.Synced) (r wr : Bool) : (w.update (Interest.ofFlags r wr)).writes=wr := by
  rw [writes,update_registered h,Interest.ofFlags_isWritable]

end Watch

namespace McuChannel

/-- The representation invariant: bytes wait only for an open UART whose MCU runs and that is
polled for output, a closed UART will be reopened, and a running MCU is watched for silence. -/
structure Sound (c : McuChannel) : Prop where
  pending : c.txbuf≠[] → c.fd≠none ∧ c.state=.active ∧ c.watch.writes=true
  closed : c.fd=none → c.state≠.active ∧ c.reopenAt≠none
  armed : c.state=.active → c.lastRx≠none
  synced : c.watch.Synced
  polled : c.watch.reads=(c.fd.isSome && !c.bpPaused)

namespace Sound

variable {c : McuChannel}

/-- An update of the interest settles what concerns the selector. -/
theorem interest (hp : c.txbuf≠[] → c.fd≠none ∧ c.state=.active)
    (hc : c.fd=none → c.state≠.active ∧ c.reopenAt≠none) (ha : c.state=.active → c.lastRx≠none)
    (hs : c.watch.Synced) (hr : c.fd=none → c.watch.reads=false) : Sound c.updateInterest := by
  obtain ⟨chId,state,fd,watch,txbuf,lastRx,reopenAt,bpPaused,linkUp⟩ := c
  cases fd with
  | none => exact ⟨fun h => absurd rfl (hp h).1,hc,ha,hs,hr rfl⟩
  | some fd =>
    refine ⟨?_,hc,ha,Watch.update_synced hs _,Watch.update_reads hs _ _⟩
    intro (h : txbuf≠[])
    refine ⟨nofun,(hp h).2,(Watch.update_writes hs _ _).trans ?_⟩
    simpa using h

theorem fresh (h : Sound c) : c.fd=none → c.watch.reads=false := by
  intro hfd
  rw [h.polled,hfd]
  rfl

theorem quiet (h : Sound c) (hs : c.state≠.active) : c.txbuf=[] := by
  by_contra hne
  exact hs (h.pending hne).2.1

/-- The UART is opened or will be tried again. -/
theorem openUart (io : Io) (hb : c.txbuf=[]) (ha : c.state≠.active) (hs : c.watch.Synced)
    (hfd : c.fd=none) (hr : c.watch.reads=false) : Sound (c.openUart io) := by
  unfold McuChannel.openUart
  split
  · exact interest (fun h => absurd hb h) nofun (fun h => absurd h ha) Watch.fresh_synced nofun
  · exact ⟨fun h => absurd hb h,fun _ => ⟨ha,nofun⟩,fun h => absurd h ha,hs,by rw [hr,hfd]; rfl⟩

theorem new (chId : UInt8) (io : Io) : Sound (McuChannel.new chId io) :=
  openUart io rfl nofun Watch.fresh_synced rfl rfl

theorem uartDrain (h : Sound c) (io : Io) : Sound (c.uartDrain io).1 := by
  unfold McuChannel.uartDrain
  split
  · exact h
  · next fd hfd =>
    split_ifs with hb
    · exact h
    · have hp := h.pending hb
      exact interest (fun _ => ⟨hp.1,hp.2.1⟩) h.closed h.armed h.synced h.fresh

/-- A read that failed closes the UART, which empties the buffer even if the reset was known. -/
theorem readError (h : Sound c) (t : Instant) :
    Sound {(c.closeUart.transition .resetting).1 with reopenAt := some t} := by
  by_cases hs : c.state=.resetting
  · have hb : c.txbuf=[] := h.quiet (by rw [hs]; nofun)
    have ht : c.closeUart.transition .resetting=(c.closeUart,[]) := if_pos hs.symm
    rw [ht]
    refine ⟨fun hne => absurd hb hne,fun _ => ⟨?_,nofun⟩,?_,Watch.fresh_synced,rfl⟩
    · exact fun ha => nomatch hs.symm.trans ha
    · exact fun ha => nomatch hs.symm.trans ha
  · have ht := transition_resetting (c := c.closeUart) hs
    rw [ht]
    exact ⟨fun hne => absurd rfl hne,fun _ => ⟨nofun,nofun⟩,nofun,Watch.fresh_synced,rfl⟩

theorem heard (h : Sound c) (t : Instant) : Sound {c with lastRx := some t} :=
  ⟨h.pending,h.closed,fun _ => nofun,h.synced,h.polled⟩

theorem awaitSync (h : Sound c) (hfd : c.fd≠none) (hrx : c.lastRx≠none) (data : List UInt8) :
    Sound (c.awaitSync data).1 := by
  unfold McuChannel.awaitSync transition
  split
  · exact h
  · split_ifs
    · exact h
    · exact ⟨fun hne => ⟨hfd,rfl,(h.pending hne).2.2⟩,fun hn => absurd hn hfd,fun _ => hrx,h.synced,
        h.polled⟩

theorem uartRead (h : Sound c) (io : Io) : Sound (c.uartRead io).1 := by
  obtain ⟨chId,state,fd,watch,txbuf,lastRx,reopenAt,bpPaused,linkUp⟩ := c
  unfold McuChannel.uartRead
  cases fd with
  | none => exact h
  | some fd =>
    cases io.read with
    | wouldBlock => exact h
    | error e => exact h.readError _
    | data bs hn =>
      cases bs with
      | nil => exact h
      | cons b bs =>
        cases state with
        | init => exact (h.heard io.now).awaitSync nofun nofun (b::bs)
        | resetting => exact (h.heard io.now).awaitSync nofun nofun (b::bs)
        | active => exact h.heard io.now

theorem tick (h : Sound c) (now : Instant) (io : Io) : Sound (c.tick now io).1 := by
  obtain ⟨chId,state,fd,watch,txbuf,lastRx,reopenAt,bpPaused,linkUp⟩ := c
  unfold McuChannel.tick
  cases fd with
  | none =>
    cases reopenAt with
    | none => exact h
    | some t =>
      have hs := (h.closed rfl).1
      dsimp only
      split_ifs
      · exact openUart io (h.quiet hs) hs h.synced rfl (h.fresh rfl)
      · exact h
  | some fd =>
    cases state with
    | init => exact h
    | resetting => exact h
    | active =>
      cases lastRx with
      | none => exact h
      | some last =>
        dsimp only
        split_ifs
        · exact ⟨fun hne => absurd rfl hne,nofun,nofun,h.synced,h.polled⟩
        · exact h

theorem handleEvent (h : Sound c) (readable writable : Bool) (io : Io) :
    Sound (c.handleEvent readable writable io).1 := by
  cases readable with
  | false =>
    cases writable with
    | false => exact h
    | true => exact h.uartDrain io
  | true =>
    cases writable with
    | false => exact h.uartRead io
    | true => exact (h.uartRead io).uartDrain io

theorem onFrame (h : Sound c) (ftype : UInt8) (payload : List UInt8) (io : Io) :
    Sound (c.onFrame ftype payload io).1 := by
  unfold McuChannel.onFrame
  split_ifs with hf hd
  · exact h
  · obtain ⟨hopen,hactive⟩ := not_or.mp hd
    unfold McuChannel.uartDrain
    split
    · next hn => exact absurd hn hopen
    · split_ifs with hb
      · -- Nothing was pending and nothing came.
        have hnil := List.append_eq_nil_iff.mp hb
        have hsame : c.txbuf++payload=c.txbuf := by rw [hnil.1,hnil.2,List.append_nil]
        rw [hsame]
        exact h
      · exact interest (fun _ => ⟨hopen,not_not.mp hactive⟩) h.closed h.armed h.synced h.fresh
  · exact h

/-- No call breaks the representation. -/
theorem apply (h : Sound c) (call : Call) : Sound (c.apply call).1 := by
  obtain ⟨op,io⟩ := call
  cases op with
  | onFrame ftype payload => exact h.onFrame ftype payload io
  | onLinkConnect => exact ⟨h.pending,h.closed,h.armed,h.synced,h.polled⟩
  | onLinkDisconnect =>
    exact interest (c := {c with linkUp := false, txbuf := []}) (fun hne => absurd rfl hne)
      h.closed h.armed h.synced h.fresh
  | tick now => exact h.tick now io
  | handleEvent token readable writable => exact h.handleEvent readable writable io
  | pauseSourceReads =>
    simp only [McuChannel.apply,pauseSourceReads]
    split_ifs
    · exact h
    · exact interest (fun hne => ⟨(h.pending hne).1,(h.pending hne).2.1⟩) h.closed h.armed h.synced
        h.fresh
  | resumeSourceReads =>
    simp only [McuChannel.apply,resumeSourceReads]
    split_ifs
    · exact interest (fun hne => ⟨(h.pending hne).1,(h.pending hne).2.1⟩) h.closed h.armed h.synced
        h.fresh
    · exact h

end Sound

end McuChannel

namespace PtyChannel

/-- The representation invariant: the pair is open as a whole, and bytes wait only for an open
master that is polled for output. -/
structure Sound (c : PtyChannel) : Prop where
  paired : c.masterFd.isSome=c.slaveFd.isSome
  pending : c.txbuf≠[] → c.masterFd≠none ∧ c.watch.writes=true
  synced : c.watch.Synced
  polled : c.watch.reads=(c.masterFd.isSome && !c.bpPaused)

namespace Sound

variable {c : PtyChannel}

theorem new (chId : UInt8) : Sound (PtyChannel.new chId) :=
  ⟨rfl,fun h => absurd rfl h,Watch.fresh_synced,rfl⟩

theorem interest (hm : c.masterFd.isSome=c.slaveFd.isSome) (hp : c.txbuf≠[] → c.masterFd≠none)
    (hs : c.watch.Synced) (hr : c.masterFd=none → c.watch.reads=false) :
    Sound c.updateInterest := by
  obtain ⟨chId,masterFd,slaveFd,watch,txbuf,bpPaused⟩ := c
  cases masterFd with
  | none => exact ⟨hm,fun h => absurd rfl (hp h),hs,hr rfl⟩
  | some fd =>
    refine ⟨hm,?_,Watch.update_synced hs _,Watch.update_reads hs _ _⟩
    intro (h : txbuf≠[])
    refine ⟨nofun,(Watch.update_writes hs _ _).trans ?_⟩
    simpa using h

theorem fresh (h : Sound c) : c.masterFd=none → c.watch.reads=false := by
  intro hfd
  rw [h.polled,hfd]
  rfl

theorem closePty (c : PtyChannel) : Sound c.closePty :=
  ⟨rfl,fun h => absurd rfl h,Watch.fresh_synced,rfl⟩

theorem openPty (h : Sound c) (io : Io) : Sound (c.openPty io) := by
  unfold PtyChannel.openPty
  split
  · exact h
  · split
    · exact h
    · exact interest rfl nofun Watch.fresh_synced nofun

/-- Bytes from the link, or none, are written as far as the master takes them. -/
theorem ptyDrain (h : Sound c) (payload : List UInt8) (hfd : c.masterFd≠none) (io : Io) :
    Sound (PtyChannel.ptyDrain {c with txbuf := c.txbuf++payload} io).1 := by
  unfold PtyChannel.ptyDrain
  split
  · next hn => exact absurd hn hfd
  · split_ifs with hb
    · have hnil := List.append_eq_nil_iff.mp hb
      have hsame : c.txbuf++payload=c.txbuf := by rw [hnil.1,hnil.2,List.append_nil]
      rw [hsame]
      exact h
    · exact interest h.paired (fun _ => hfd) h.synced h.fresh

theorem flush (h : Sound c) (io : Io) : Sound (c.ptyDrain io).1 := by
  by_cases hfd : c.masterFd=none
  · have hsame : c.ptyDrain io=(c,.quiet) := by
      rw [PtyChannel.ptyDrain,hfd]
    rw [hsame]
    exact h
  · have hsame : {c with txbuf := c.txbuf++[]}=c := by rw [List.append_nil]
    exact hsame ▸ h.ptyDrain [] hfd io

theorem ptyRead (h : Sound c) (io : Io) : Sound (c.ptyRead io).1 := by
  unfold PtyChannel.ptyRead
  split
  · exact h
  · exact h
  · exact closePty c
  · exact h
  · exact h

theorem handleEvent (h : Sound c) (readable writable : Bool) (io : Io) :
    Sound (c.handleEvent readable writable io).1 := by
  unfold PtyChannel.handleEvent
  split
  · exact h
  · cases readable with
    | false =>
      cases writable with
      | false => exact h
      | true => exact h.flush io
    | true =>
      cases writable with
      | false => exact h.ptyRead io
      | true => exact (h.ptyRead io).flush io

theorem onFrame (h : Sound c) (ftype : UInt8) (payload : List UInt8) (io : Io) :
    Sound (c.onFrame ftype payload io).1 := by
  unfold PtyChannel.onFrame
  split_ifs
  · exact closePty c
  · exact h.openPty io
  · split
    · exact h
    · next fd hfd => exact h.ptyDrain payload (by rw [hfd]; nofun) io
  · exact h

theorem apply (h : Sound c) (call : Call) : Sound (c.apply call).1 := by
  obtain ⟨op,io⟩ := call
  cases op with
  | onFrame ftype payload => exact h.onFrame ftype payload io
  | onLinkConnect => exact closePty c
  | onLinkDisconnect => exact closePty c
  | tick => exact h
  | handleEvent token readable writable => exact h.handleEvent readable writable io
  | pauseSourceReads =>
    simp only [PtyChannel.apply,pauseSourceReads]
    split_ifs
    · exact h
    · exact interest h.paired (fun hne => (h.pending hne).1) h.synced h.fresh
  | resumeSourceReads =>
    simp only [PtyChannel.apply,resumeSourceReads]
    split_ifs
    · exact interest h.paired (fun hne => (h.pending hne).1) h.synced h.fresh
    · exact h

end Sound

end PtyChannel

/-- UARTs and PTYs are in order after any sequence of calls, whatever the kernel answers. -/
theorem serial_channels_sound (chId : UInt8) (io : Io) (calls : List Call) :
    (after McuChannel.apply (.new chId io) calls).Sound ∧
      (after PtyChannel.apply (.new chId) calls).Sound :=
  ⟨after_of_step McuChannel.apply (fun _ call h => h.apply call) (.new chId io) calls,
    after_of_step PtyChannel.apply (fun _ call h => h.apply call) (.new chId) calls⟩

end Serialmux.Channel

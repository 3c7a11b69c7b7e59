import Serialmux.Framework.Machine
import Serialmux.Reference.Calls

namespace Serialmux.Reference

open Framework Protocol Channel

/-- What `mono_now_ms` reads at an instant. -/
def millis (t : Instant) : Millis := (t/1000000 : Nat)

/-- The answers of the kernel to a call of the port, as the reference gets them. -/
def Io.ofPort (io : Channel.Io) : Io :=
  {Io.idle with
    clock := millis io.now, read := io.read, write := io.write, openSerialFd := io.openSerialFd}

/-- The handler of the reference for a call of the port. -/
def mcuCall (crc : List UInt8 → UInt32) (id : UInt8) (d : Daemon) (call : Call) : Option Daemon :=
  let io := Io.ofPort call.io
  let own (f : ChannelT → ChannelT) : Option Daemon :=
    (d.channels id).elim (some d) (fun ch => some (d.put id (f ch)))
  match call.op with
  | .onFrame ftype payload => chOnFrame crc d id ftype payload io
  | .onLinkConnect => chOnLinkUp crc io.clock d id
  | .onLinkDisconnect => own chOnLinkDown
  | .tick now => chTick crc d id (millis now) io
  | .handleEvent _ readable writable => chHandleEvent crc d id 2 id.toNat readable writable io
  | .pauseSourceReads => own chPause
  | .resumeSourceReads => own chResume

namespace McuCh

variable (m : McuCh)

/-- A frame from the link is for the UART. -/
def takes (ftype : UInt8) : Prop := ftype=fData ∧ m.fd≠none ∧ m.state=.active

instance (ftype : UInt8) : Decidable (m.takes ftype) := inferInstanceAs (Decidable (_∧_))

/-- What `ch_on_frame` leaves of an MCU. -/
def afterFrame (ftype : UInt8) (payload : List UInt8) (io : Io) : McuCh :=
  if m.takes ftype then
    drained {m with txbuf := m.txbuf++payload.take (serialTxbufSize-m.txbuf.length)} io
  else m

/-- The MCU of the reference by itself, with the frames that it hands to `daemon_send`. -/
def apply (id : UInt8) (call : Call) : McuCh × List Frame :=
  let io := Io.ofPort call.io
  match call.op with
  | .onFrame ftype payload => (m.afterFrame ftype payload io,[])
  | .onLinkConnect => ({m with linkUp := true, lastRxMs := io.clock},linkUpFrames id (.mcu m))
  | .onLinkDisconnect => ({m with linkUp := false, txbuf := []},[])
  | .tick now => (m.ticked (millis now) io,m.tickFrames id (millis now))
  | .handleEvent _ readable writable => (m.afterEvent readable writable io,m.eventFrames id readable io)
  | .pauseSourceReads => (m,[])
  | .resumeSourceReads => (m,[])

end McuCh

/-- The port, with the frames that it enqueues. -/
def portStep (c : McuChannel) (call : Call) : McuChannel × List Frame :=
  ((c.apply call).1,(c.apply call).2.frames)

/-- The reference. -/
def refStep (id : UInt8) (m : McuCh) (call : Call) : McuCh × List Frame := m.apply id call

section Handler

variable {crc : List UInt8 → UInt32} {specs : UInt8 → Option Spec} {d : Daemon} {id : UInt8} {m : McuCh}

theorem mcuOnFrame_settled (m : McuCh) (ftype : UInt8) (payload : List UInt8) (io : Io) :
    Allows (fun m' => m'.settled=(m.afterFrame ftype payload io).settled)
      (mcuOnFrame m ftype payload io) := by
  unfold mcuOnFrame McuCh.afterFrame
  by_cases htakes : m.takes ftype
  · obtain ⟨hdata,hopen,hactive⟩ := id htakes
    have hskip : ¬(ftype≠fData ∨ m.fd=none ∨ m.state≠.active) := by simp [hdata,hopen,hactive]
    rw [if_neg hskip,if_pos htakes]
    intro m' hm'
    obtain ⟨txbuf,hfill,hdrain⟩ := Option.bind_eq_some_iff.mp hm'
    obtain ⟨space,hspace,hcopy⟩ := Option.bind_eq_some_iff.mp hfill
    obtain rfl := sub?_allows _ _ space hspace
    obtain rfl := copyTo_allows _ _ _ _ txbuf hcopy
    have htake : payload.take (min payload.length (serialTxbufSize-m.txbuf.length))=
        payload.take (serialTxbufSize-m.txbuf.length) := by
      rw [Nat.min_comm]
      exact List.take_eq_take_min.symm
    rw [← htake]
    exact mcuUartDrain_settled _ io m' hdrain
  · have hskip : ftype≠fData ∨ m.fd=none ∨ m.state≠.active := by
      by_contra hnot
      simp only [not_or,not_not] at hnot
      exact htakes hnot
    rw [if_pos hskip,if_neg htakes]
    exact .some rfl

theorem mcuCall_hands (hget : d.channels id=some (.mcu m)) (call : Call) :
    Allows (Hands crc id (m.apply id call).2 (·.settled=(ChannelT.mcu (m.apply id call).1).settled) d)
      (mcuCall crc id d call) := by
  obtain ⟨op,io⟩ := call
  have hown {f : ChannelT → ChannelT} {m' : McuCh} (hf : (f (.mcu m)).settled=(ChannelT.mcu m').settled) :
      Allows (Hands crc id [] (·.settled=(ChannelT.mcu m').settled) d)
        ((d.channels id).elim (some d) (fun ch => some (d.put id (f ch)))) := by
    rw [hget]
    exact .some (.put hf)
  cases op with
  | onFrame ftype payload =>
    simp only [mcuCall,McuCh.apply]
    rw [chOnFrame,hget]
    refine (mcuOnFrame_settled m ftype payload _).bind (fun m' hm' => .some (.put ?_))
    exact congrArg ChannelT.mcu hm'
  | onLinkConnect => exact mcuOnLinkUp_hands hget _
  | onLinkDisconnect =>
    exact hown (congrArg ChannelT.mcu (mcuUpdateInterest_settled {m with linkUp := false, txbuf := []}))
  | tick now => exact chTick_hands hget _ _
  | handleEvent token readable writable =>
    simp only [mcuCall,McuCh.apply]
    rw [chHandleEvent_mcu hget,if_pos rfl]
    exact mcuEvent_hands hget readable writable _
  | pauseSourceReads => exact hown (ChannelT.setPaused_settled true _)
  | resumeSourceReads => exact hown (ChannelT.setPaused_settled false _)

theorem Daemon.Sound.mcuCall (h : d.Sound False crc specs) (id : UInt8) (call : Call) :
    Yields (Daemon.Sound False crc specs) (mcuCall crc id d call) := by
  have hown {f : ChannelT → ChannelT} (hk : ∀ch,(f ch).spec=ch.spec)
      (hf : ∀ch,ch.Sound False → (f ch).Sound False) : Yields (Daemon.Sound False crc specs)
        ((d.channels id).elim (some d) (fun ch => some (d.put id (f ch)))) := by
    cases hget : d.channels id with
    | none => exact .some h
    | some ch => exact .some (h.replace hget (hk ch) (hf ch (h.channels id ch hget)))
  obtain ⟨op,io⟩ := call
  cases op with
  | onFrame ftype payload => exact h.chOnFrame id ftype payload _ nofun
  | onLinkConnect => exact h.chOnLinkUp _ id
  | onLinkDisconnect => exact hown ChannelT.linkDown_spec (fun _ hch => hch.linkDown)
  | tick now => exact h.chTick id _ _
  | handleEvent token readable writable => exact h.chHandleEvent id 2 _ readable writable _
  | pauseSourceReads => exact hown (ChannelT.setPaused_spec true) (fun _ hch => hch.setPaused true)
  | resumeSourceReads => exact hown (ChannelT.setPaused_spec false) (fun _ hch => hch.setPaused false)

theorem McuCh.afterRead_settled (m : McuCh) (io : Io) :
    (m.afterRead io).settled=(m.settled.afterRead io).settled := by
  have hsame : m.settled.fd=m.fd ∧ m.settled.state=m.state := ⟨rfl,rfl⟩
  unfold afterRead
  rw [hsame.1,hsame.2]
  cases readFd m.fd io.read with
  | wouldBlock => rfl
  | error e =>
    have hclose : (mcuCloseUart m).settled=(mcuCloseUart m.settled).settled := by
      unfold mcuCloseUart
      rw [hsame.1]
      split_ifs <;> rfl
    have hmoved : ((mcuCloseUart m).moved .resetting).settled=
        ((mcuCloseUart m.settled).moved .resetting).settled := by
      rw [moved_settled,hclose,← moved_settled]
    exact congrArg (fun m : McuCh => {m with reopenAtMs := io.clock+1000}) hmoved
  | data bs hbs =>
    cases bs with
    | nil => rfl
    | cons b bs =>
      dsimp only
      split_ifs
      · rfl
      · unfold awaited
        split
        · rfl
        · exact moved_settled {m with lastRxMs := io.clock} .active

theorem McuCh.afterEvent_settled (m : McuCh) (readable writable : Bool) (io : Io) :
    (m.afterEvent readable writable io).settled=(m.settled.afterEvent readable writable io).settled := by
  have hread : (if readable then m.afterRead io else m).settled=
      (if readable then m.settled.afterRead io else m.settled).settled := by
    split_ifs
    · exact m.afterRead_settled io
    · rfl
  unfold afterEvent
  cases writable with
  | false => exact hread
  | true =>
    dsimp only
    rw [if_pos rfl,if_pos rfl,drained_settled,hread,← drained_settled]

/-- A pause does not change what an MCU sends. -/
theorem McuCh.apply_settled (m : McuCh) (id : UInt8) (call : Call) :
    (m.apply id call).2=(m.settled.apply id call).2 ∧
      (m.apply id call).1.settled=(m.settled.apply id call).1.settled := by
  obtain ⟨op,io⟩ := call
  cases op with
  | onFrame ftype payload =>
    refine ⟨rfl,?_⟩
    change (m.afterFrame ftype payload (.ofPort io)).settled=
      (m.settled.afterFrame ftype payload (.ofPort io)).settled
    unfold afterFrame
    have hsame : m.settled.takes ftype ↔ m.takes ftype := Iff.rfl
    by_cases htakes : m.takes ftype
    · rw [if_pos htakes,if_pos (hsame.mpr htakes),drained_settled,drained_settled]
      rfl
    · rw [if_neg htakes,if_neg (htakes∘hsame.mp)]
      rfl
  | onLinkConnect => exact ⟨rfl,rfl⟩
  | onLinkDisconnect => exact ⟨rfl,rfl⟩
  | tick now => exact ⟨rfl,m.ticked_settled _ _⟩
  | handleEvent token readable writable => exact ⟨rfl,m.afterEvent_settled readable writable _⟩
  | pauseSourceReads => exact ⟨rfl,rfl⟩
  | resumeSourceReads => exact ⟨rfl,rfl⟩

theorem McuCh.apply_of_settled {m' : McuCh} (hs : m'.settled=m.settled) (id : UInt8) (call : Call) :
    (m'.apply id call).2=(m.apply id call).2 ∧
      (m'.apply id call).1.settled=(m.apply id call).1.settled := by
  obtain ⟨hframes,hmcu⟩ := m'.apply_settled id call
  rw [hframes,hmcu,hs]
  obtain ⟨hframes,hmcu⟩ := m.apply_settled id call
  exact ⟨hframes.symm,hmcu.symm⟩

/-- The handlers of the reference, call after call: they do not fault, and do what the MCU does by
itself. -/
theorem mcuCalls_hands (hd : d.Sound False crc specs) {m' : McuCh}
    (hget : d.channels id=some (.mcu m')) (hs : m'.settled=m.settled) (calls : List Call) :
    Yields (Hands crc id (outs (refStep id) m calls).flatten
        (·.settled=(ChannelT.mcu (after (refStep id) m calls)).settled) d)
      (calls.foldlM (mcuCall crc id) d) := by
  induction calls generalizing d m m' with
  | nil => exact .some (.rest hget (congrArg ChannelT.mcu hs))
  | cons call calls ih =>
    rw [List.foldlM_cons]
    refine ((hd.mcuCall id call).and_allows (mcuCall_hands hget call)).bind ?_
    intro d₁ ⟨hd₁,hh⟩
    obtain ⟨hframes,hmcu⟩ := McuCh.apply_of_settled hs id call
    obtain ⟨ch,hget₁,hch⟩ := hh.own
    obtain ⟨m₁,rfl,hm₁⟩ := ChannelT.mcu_of_settled hch
    refine (ih hd₁ hget₁ (hm₁.trans hmcu)).mono (fun d' h => ?_)
    rw [outs_cons,List.flatten_cons]
    rw [hframes] at hh
    exact hh.trans h

end Handler

/-- The time of the last byte: the reference may have a later one. -/
def Heard (c : McuChannel) (m : McuCh) : Prop := ∃rx,c.lastRx=some rx ∧ millis rx ≤ m.lastRxMs

/-- The port and the reference agree but for a UART that is closed. -/
structure Matched (c : McuChannel) (m : McuCh) : Prop where
  state : m.state=c.state
  up : m.linkUp=c.linkUp
  txbuf : m.txbuf=c.txbuf
  fd : m.fd=c.fd
  heard : c.state=.active → Heard c m

/-- The port and the reference are in corresponding states. -/
structure Ported (c : McuChannel) (m : McuCh) : Prop extends Matched c m where
  closed : c.fd=none → c.state≠.active ∧ ∃t,c.reopenAt=some t ∧ m.reopenAtMs=millis t

theorem millis_mono {s t : Instant} (h : s≤t) : millis s ≤ millis t :=
  Int.ofNat_le.mpr (Nat.div_le_div_right h)

theorem millis_add_secs (t : Instant) (n : Nat) : millis (t+secs n)=millis t+(n*1000 : Nat) := by
  have hdiv (k : Nat) : (k+n*1000000000)/1000000=k/1000000+n*1000 := by omega
  exact congrArg Int.ofNat (hdiv t)

/-- A UART that is closed is due for the port as soon as it is for the reference, which counts whole
milliseconds. -/
def Punctual (c : McuChannel) (now : Instant) : Prop :=
  c.fd=none → ∀t∈c.reopenAt,millis t ≤ millis now → t≤now

/-- An MCU that the port takes to be reset after its silence: its link is up, and it has been so for
all of that time. -/
def Awake (c : McuChannel) (m : McuCh) (now : Instant) : Prop :=
  c.fd≠none → c.state=.active → ∀rx∈c.lastRx,resetSilence<now-rx →
    c.linkUp=true ∧ 0 < m.lastRxMs ∧ resetSilenceMs < millis now-m.lastRxMs

/-- The calls that the two are compared on: the clock does not go back, a UART is read while it is
open, and what is pending for it fits into its buffer. -/
def Given (s : McuChannel × McuCh) (call : Call) : Prop :=
  match call.op with
  | .onLinkConnect => ∀rx∈s.1.lastRx,rx≤call.io.now
  | .handleEvent _ readable _ => readable=true → s.1.fd≠none
  | .onFrame ftype payload => s.2.takes ftype → s.2.txbuf.length+payload.length ≤ serialTxbufSize
  | _ => True

/-- The calls on which they agree: all but some ticks. -/
def Agrees (s : McuChannel × McuCh) (call : Call) : Prop :=
  match call.op with
  | .tick now => Punctual s.1 now ∧ Awake s.1 s.2 now
  | _ => True

instance (c : McuChannel) (now : Instant) : Decidable (Punctual c now) :=
  inferInstanceAs (Decidable (_ → ∀t∈c.reopenAt,millis t ≤ millis now → t≤now))

instance (c : McuChannel) (m : McuCh) (now : Instant) : Decidable (Awake c m now) :=
  inferInstanceAs (Decidable (_ → _ → ∀rx∈c.lastRx,resetSilence<now-rx → _∧_∧_))

instance (s : McuChannel × McuCh) : (call : Call) → Decidable (Given s call)
  | ⟨.onFrame _ _,_⟩ => inferInstanceAs (Decidable (_ → _≤_))
  | ⟨.onLinkConnect,io⟩ => inferInstanceAs (Decidable (∀rx∈s.1.lastRx,rx ≤ io.now))
  | ⟨.handleEvent _ _ _,_⟩ => inferInstanceAs (Decidable (_ → ¬_=_))
  | ⟨.onLinkDisconnect,_⟩ => .isTrue trivial
  | ⟨.tick _,_⟩ => .isTrue trivial
  | ⟨.pauseSourceReads,_⟩ => .isTrue trivial
  | ⟨.resumeSourceReads,_⟩ => .isTrue trivial

instance (s : McuChannel × McuCh) : (call : Call) → Decidable (Agrees s call)
  | ⟨.tick _,_⟩ => inferInstanceAs (Decidable (_∧_))
  | ⟨.onFrame _ _,_⟩ => .isTrue trivial
  | ⟨.onLinkConnect,_⟩ => .isTrue trivial
  | ⟨.handleEvent _ _ _,_⟩ => .isTrue trivial
  | ⟨.onLinkDisconnect,_⟩ => .isTrue trivial
  | ⟨.pauseSourceReads,_⟩ => .isTrue trivial
  | ⟨.resumeSourceReads,_⟩ => .isTrue trivial

section Simulation

variable {c : McuChannel} {m : McuCh}

namespace Matched

theorem reset (h : Matched c m) : Matched (c.transition .resetting).1 (m.moved .resetting) := by
  unfold McuChannel.transition McuCh.moved
  rw [h.state]
  split_ifs with hs
  · exact h
  · exact ⟨rfl,h.up,rfl,h.fd,nofun⟩

theorem transition_frames (h : Matched c m) (s : McuState) :
    (c.transition s).2=m.announces c.chId s := by
  unfold McuChannel.transition McuCh.announces McuChannel.whenUp McuCh.whenUp
  rw [h.state,h.up]
  split_ifs with hs
  · rfl
  all_goals cases s <;> rfl

theorem closeUart (h : Matched c m) (hfd : c.fd≠none) : Matched c.closeUart (mcuCloseUart m) := by
  rw [mcuCloseUart,if_neg (h.fd.symm ▸ hfd)]
  exact ⟨h.state,h.up,h.txbuf,rfl,h.heard⟩

end Matched

theorem transition_state (c : McuChannel) (s : McuState) : (c.transition s).1.state=s := by
  unfold McuChannel.transition
  split_ifs with hs
  · exact hs.symm
  · cases s <;> rfl

theorem transition_fd (c : McuChannel) (s : McuState) : (c.transition s).1.fd=c.fd := by
  unfold McuChannel.transition
  split_ifs
  · rfl
  · cases s <;> rfl

namespace Ported

theorem interest (h : Ported c m) : Ported c.updateInterest m := by
  unfold McuChannel.updateInterest
  split
  · exact h
  · exact ⟨⟨h.state,h.up,h.txbuf,h.fd,h.heard⟩,h.closed⟩

theorem of_settled {m' : McuCh} (h : Ported c m) (hs : m'.settled=m.settled) : Ported c m' where
  state := (congrArg McuCh.state hs).trans h.state
  up := (congrArg McuCh.linkUp hs).trans h.up
  txbuf := (congrArg McuCh.txbuf hs).trans h.txbuf
  fd := (congrArg McuCh.fd hs).trans h.fd
  closed hfd := by
    obtain ⟨hstate,t,ht,hms⟩ := h.closed hfd
    exact ⟨hstate,t,ht,(congrArg McuCh.reopenAtMs hs).trans hms⟩
  heard hstate := by
    obtain ⟨rx,hrx,hle⟩ := h.heard hstate
    have hsame := congrArg McuCh.lastRxMs hs
    exact ⟨rx,hrx,Int.le_trans hle (Int.le_of_eq hsame.symm)⟩

/-- The bytes for the UART are the same on both sides. -/
theorem fill (h : Ported c m) (txbuf : List UInt8) :
    Ported {c with txbuf := txbuf} {m with txbuf := txbuf} :=
  ⟨⟨h.state,h.up,rfl,h.fd,h.heard⟩,h.closed⟩

theorem uartDrain (h : Ported c m) (io : Channel.Io) :
    Ported (c.uartDrain io).1 (m.drained (.ofPort io)) := by
  have hidle : (m.txbuf=[] ∨ m.fd=none) ↔ (c.txbuf=[] ∨ c.fd=none) := by rw [h.txbuf,h.fd]
  by_cases hrest : c.txbuf=[] ∨ c.fd=none
  · have hport : (c.uartDrain io).1=c := by
      unfold McuChannel.uartDrain
      cases hfd : c.fd with
      | none => rfl
      | some fd =>
        have hnil := hrest.resolve_right (by simp [hfd])
        dsimp only
        rw [if_pos hnil]
    rw [hport,McuCh.drained,if_pos (hidle.mpr hrest)]
    exact h
  · obtain ⟨hnil,hfd⟩ := not_or.mp hrest
    have hport : (c.uartDrain io).1=
        McuChannel.updateInterest {c with txbuf := (McuChannel.flushBuf c.txbuf io.write).1} := by
      obtain ⟨fd,hfd⟩ := Option.ne_none_iff_exists'.mp hfd
      unfold McuChannel.uartDrain
      rw [hfd]
      dsimp only
      rw [if_neg hnil]
    rw [hport,McuCh.drained,if_neg (hrest∘hidle.mp)]
    refine interest ?_
    cases hwrite : io.write with
    | again =>
      have hio : (Io.ofPort io).write=.again := hwrite
      rw [hio]
      exact ⟨⟨h.state,h.up,h.txbuf,h.fd,h.heard⟩,h.closed⟩
    | error =>
      have hio : (Io.ofPort io).write=.error := hwrite
      rw [hio]
      exact h.fill []
    | wrote n =>
      have hio : (Io.ofPort io).write=.wrote n := hwrite
      have hdrop : m.txbuf.drop (min n m.txbuf.length)=c.txbuf.drop n := by
        rw [h.txbuf]
        by_cases hn : n≤c.txbuf.length
        · rw [Nat.min_eq_left hn]
        · rw [Nat.min_eq_right (by omega),List.drop_length,List.drop_eq_nil_of_le (by omega)]
      rw [hio]
      dsimp only
      rw [hdrop]
      exact h.fill _

theorem read_at (h : Ported c m) (t : Instant) :
    Ported {c with lastRx := some t} {m with lastRxMs := millis t} :=
  ⟨⟨h.state,h.up,h.txbuf,h.fd,fun _ => ⟨t,rfl,Int.le_refl _⟩⟩,h.closed⟩

theorem wake (h : Ported c m) (hfd : c.fd≠none) (hrx : Heard c m) :
    Ported (c.transition .active).1 (m.moved .active) := by
  unfold McuChannel.transition McuCh.moved
  rw [h.state]
  split_ifs with hs
  · exact h
  · exact ⟨⟨rfl,h.up,h.txbuf,h.fd,fun _ => hrx⟩,fun hnone => absurd hnone hfd⟩

theorem awaitSync (h : Ported c m) (hfd : c.fd≠none) (hrx : Heard c m) (bs : List UInt8) :
    (c.awaitSync bs).2=m.awaitFrames c.chId bs ∧ Ported (c.awaitSync bs).1 (m.awaited bs) := by
  unfold McuChannel.awaitSync McuCh.awaitFrames McuCh.awaited
  cases bs.findIdx? (·==klipperSync) with
  | none => exact ⟨rfl,h⟩
  | some i =>
    refine ⟨?_,h.wake hfd hrx⟩
    have hup : (c.transition .active).1.linkUp=m.linkUp := by
      rw [← (h.wake hfd hrx).up]
      unfold McuCh.moved
      split_ifs <;> rfl
    dsimp only
    rw [h.toMatched.transition_frames,McuChannel.whenUp,McuChannel.frame,McuChannel.transition_chId,hup]
    rfl

/-- A read of a UART that is open. -/
theorem uartRead (h : Ported c m) (hfd : c.fd≠none) (io : Channel.Io) :
    (c.uartRead io).2.frames=m.readFrames c.chId (.ofPort io) ∧
      Ported (c.uartRead io).1 (m.afterRead (.ofPort io)) := by
  have hread : readFd m.fd (Io.ofPort io).read=io.read := if_neg (h.fd.symm ▸ hfd)
  unfold McuCh.readFrames McuCh.afterRead McuChannel.uartRead
  rw [hread]
  obtain ⟨chId,state,fd,watch,txbuf,lastRx,reopenAt,bpPaused,linkUp⟩ := c
  cases fd with
  | none => exact absurd rfl hfd
  | some fd =>
    dsimp only
    cases io.read with
    | wouldBlock => exact ⟨rfl,h⟩
    | error e =>
      have hclose := h.toMatched.closeUart hfd
      have hreset := hclose.reset
      have hdue : millis (io.now+secs 1)=(Io.ofPort io).clock+1000 := millis_add_secs io.now 1
      refine ⟨?_,⟨?_,fun _ => ⟨?_,_,rfl,hdue.symm⟩⟩⟩
      · rw [← McuCh.announces_close]
        exact hclose.transition_frames .resetting
      · exact ⟨hreset.state,hreset.up,hreset.txbuf,hreset.fd,hreset.heard⟩
      · exact fun hactive => absurd ((transition_state _ .resetting).symm.trans hactive) (by decide)
    | data bs hbs =>
      cases bs with
      | nil => exact ⟨rfl,h⟩
      | cons b bs =>
        have hat := h.read_at io.now
        dsimp only
        cases state with
        | active =>
          rw [if_pos h.state,if_pos h.state]
          refine ⟨?_,hat⟩
          rw [McuChannel.whenUp,McuCh.whenUp,h.up]
          rfl
        | init =>
          have hs : m.state≠.active := fun hactive => absurd (h.state.symm.trans hactive) (by simp)
          rw [if_neg hs,if_neg hs]
          exact hat.awaitSync (by simp) ⟨io.now,rfl,Int.le_refl _⟩ (b::bs)
        | resetting =>
          have hs : m.state≠.active := fun hactive => absurd (h.state.symm.trans hactive) (by simp)
          rw [if_neg hs,if_neg hs]
          exact hat.awaitSync (by simp) ⟨io.now,rfl,Int.le_refl _⟩ (b::bs)

theorem openUart (h : Ported c m) (hfd : c.fd=none) (io : Channel.Io) :
    Ported (McuChannel.openUart {c with reopenAt := none} io) (mcuOpenUart m (.ofPort io)) := by
  have hstate := (h.closed hfd).1
  have hopen : (Io.ofPort io).openSerialFd=io.openSerialFd := rfl
  unfold McuChannel.openUart mcuOpenUart
  rw [hopen]
  cases io.openSerialFd with
  | none =>
    have hdue : millis (io.now+reopenDelay)=(Io.ofPort io).clock+2000 := millis_add_secs io.now 2
    exact ⟨⟨h.state,h.up,h.txbuf,h.fd,h.heard⟩,fun _ => ⟨hstate,_,rfl,hdue.symm⟩⟩
  | some fd =>
    refine interest (of_settled (m := {m with fd := some fd, watch := .fresh}) ?_
      (mcuUpdateInterest_settled _))
    exact ⟨⟨h.state,h.up,h.txbuf,rfl,h.heard⟩,nofun⟩

/-- The reference does not take an MCU to be reset that the port waits for. -/
theorem silent_iff (h : Ported c m) {now rx : Instant} (hfd : c.fd≠none) (hactive : c.state=.active)
    (hrx : c.lastRx=some rx) (hawake : Awake c m now) :
    m.silent (millis now)=true ↔ resetSilence<now-rx := by
  rw [McuCh.silent_iff]
  constructor
  · intro ⟨_,_,_,hover⟩
    obtain ⟨rx',hrx',hle⟩ := h.heard hactive
    obtain rfl := Option.some.inj (hrx.symm.trans hrx')
    have hwhole : ∀(a b : Nat) (l : Int),((b/1000000 : Nat) : Int)≤l →
        5000<((a/1000000 : Nat) : Int)-l → 5*1000000000<a-b := by omega
    exact hwhole now rx m.lastRxMs hle hover
  · intro hover
    obtain ⟨hup,hpos,hlate⟩ := hawake hfd hactive rx hrx hover
    exact ⟨h.up.trans hup,h.state.trans hactive,hpos,hlate⟩

theorem tick (h : Ported c m) {now : Instant} (io : Channel.Io) (hdue : Punctual c now)
    (hawake : Awake c m now) :
    (c.tick now io).2.frames=m.tickFrames c.chId (millis now) ∧
      Ported (c.tick now io).1 (m.ticked (millis now) (.ofPort io)) := by
  unfold McuCh.tickFrames McuCh.ticked
  by_cases hfd : c.fd=none
  · obtain ⟨hstate,t,ht,hms⟩ := h.closed hfd
    have hquiet : ¬m.silent (millis now)=true :=
      fun hs => hstate (h.state.symm.trans ((m.silent_iff _).mp hs).2.1)
    have hiff : (m.fd=none ∧ m.reopenAtMs ≤ millis now) ↔ t≤now := by
      rw [hms]
      exact ⟨fun hd => hdue hfd t ht hd.2,fun hd => ⟨h.fd.trans hfd,millis_mono hd⟩⟩
    unfold McuChannel.tick
    rw [hfd,ht]
    dsimp only
    by_cases hd : t≤now
    · rw [if_pos hd,if_pos (hiff.mpr hd),if_pos (hiff.mpr hd)]
      have hopen := h.openUart hfd io
      rw [hfd] at hopen
      exact ⟨rfl,hopen⟩
    · rw [if_neg hd,if_neg (hd∘hiff.mp),if_neg (hd∘hiff.mp),if_neg hquiet,if_neg hquiet]
      exact ⟨rfl,h⟩
  have hopen : ¬(m.fd=none ∧ m.reopenAtMs ≤ millis now) := fun hd => hfd (h.fd.symm.trans hd.1)
  rw [if_neg hopen,if_neg hopen]
  obtain ⟨fd,hsome⟩ := Option.ne_none_iff_exists'.mp hfd
  by_cases hactive : c.state=.active
  · obtain ⟨rx,hrx,-⟩ := h.heard hactive
    have htick : c.tick now io=
        if resetSilence<now-rx then ((c.transition .resetting).1,.sends (c.transition .resetting).2)
        else (c,.quiet) := by
      unfold McuChannel.tick
      rw [hsome]
      dsimp only
      rw [hactive,hrx]
    rw [htick]
    by_cases hs : m.silent (millis now)=true
    · rw [if_pos hs,if_pos hs,if_pos ((h.silent_iff hfd hactive hrx hawake).mp hs)]
      refine ⟨h.toMatched.transition_frames .resetting,h.toMatched.reset,fun hnone => absurd ?_ hfd⟩
      exact (transition_fd c .resetting).symm.trans hnone
    · rw [if_neg hs,if_neg hs,if_neg (hs∘(h.silent_iff hfd hactive hrx hawake).mpr)]
      exact ⟨rfl,h⟩
  · have hquiet : ¬m.silent (millis now)=true :=
      fun hs => hactive (h.state.symm.trans ((m.silent_iff _).mp hs).2.1)
    have htick : c.tick now io=(c,.quiet) := by
      unfold McuChannel.tick
      rw [hsome]
      dsimp only
      split
      · next hstate _ => exact absurd hstate hactive
      · rfl
    rw [htick,if_neg hquiet,if_neg hquiet]
    exact ⟨rfl,h⟩

theorem onFrame (h : Ported c m) (ftype : UInt8) (payload : List UInt8) (io : Channel.Io)
    (hfits : m.takes ftype → m.txbuf.length+payload.length ≤ serialTxbufSize) :
    (c.onFrame ftype payload io).2.frames=[] ∧
      Ported (c.onFrame ftype payload io).1 (m.afterFrame ftype payload (.ofPort io)) := by
  unfold McuChannel.onFrame McuCh.afterFrame
  by_cases htakes : m.takes ftype
  · have hall : payload.take (serialTxbufSize-m.txbuf.length)=payload := by
      refine List.take_of_length_le ?_
      have := hfits htakes
      omega
    obtain ⟨hdata,hopen,hactive⟩ := id htakes
    have hgo : ¬(c.fd=none ∨ c.state≠.active) := by
      rw [← h.fd,← h.state]
      simp [hopen,hactive]
    rw [if_pos htakes,if_pos hdata,if_neg hgo,hall,h.txbuf]
    exact ⟨(McuChannel.uartDrain_same _ io).2.1,(h.fill _).uartDrain io⟩
  · rw [if_neg htakes]
    by_cases hdata : ftype=fData
    · have hskip : c.fd=none ∨ c.state≠.active := by
        rw [← h.fd,← h.state]
        by_contra hnot
        simp only [not_or,not_not] at hnot
        exact htakes ⟨hdata,hnot⟩
      rw [if_pos hdata,if_pos hskip]
      exact ⟨rfl,h⟩
    · rw [if_neg hdata]
      exact ⟨rfl,h⟩

theorem handleEvent (h : Ported c m) (readable writable : Bool) (io : Channel.Io)
    (hfd : readable=true → c.fd≠none) :
    (c.handleEvent readable writable io).2.frames=m.eventFrames c.chId readable (.ofPort io) ∧
      Ported (c.handleEvent readable writable io).1 (m.afterEvent readable writable (.ofPort io)) := by
  have hread : (if readable then c.uartRead io else (c,.quiet)).2.frames=
        m.eventFrames c.chId readable (.ofPort io) ∧
      Ported (if readable then c.uartRead io else (c,.quiet)).1
        (if readable then m.afterRead (.ofPort io) else m) := by
    unfold McuCh.eventFrames
    cases readable with
    | false => exact ⟨rfl,h⟩
    | true => exact h.uartRead (hfd rfl) io
  unfold McuChannel.handleEvent McuCh.afterEvent
  obtain ⟨hframes,hported⟩ := hread
  generalize (if readable then c.uartRead io else (c,.quiet))=r at hframes hported ⊢
  dsimp only
  cases writable with
  | false => exact ⟨by rw [Effect.next_frames,hframes]; exact List.append_nil _,hported⟩
  | true =>
    refine ⟨?_,hported.uartDrain io⟩
    rw [Effect.next_frames,hframes]
    exact (congrArg _ (McuChannel.uartDrain_same r.1 io).2.1).trans (List.append_nil _)

theorem apply (h : Ported c m) {call : Call} (hg : Given (c,m) call) (ha : Agrees (c,m) call) :
    (c.apply call).2.frames=(m.apply c.chId call).2 ∧
      Ported (c.apply call).1 (m.apply c.chId call).1 := by
  obtain ⟨op,io⟩ := call
  have hpaused (b : Bool) : Ported {c with bpPaused := b} m :=
    ⟨⟨h.state,h.up,h.txbuf,h.fd,h.heard⟩,h.closed⟩
  cases op with
  | onFrame ftype payload => exact h.onFrame ftype payload io hg
  | onLinkConnect =>
    refine ⟨?_,⟨h.state,rfl,h.txbuf,h.fd,fun hactive => ?_⟩,h.closed⟩
    · simp only [McuChannel.apply,McuChannel.onLinkConnect,McuChannel.frame,Effect.sends_frames,
        McuCh.apply,linkUpFrames,h.state]
    · obtain ⟨rx,hrx,-⟩ := h.heard hactive
      exact ⟨rx,hrx,millis_mono (hg rx hrx)⟩
  | onLinkDisconnect =>
    have hdown : Ported {c with linkUp := false, txbuf := []} {m with linkUp := false, txbuf := []} :=
      ⟨⟨h.state,rfl,rfl,h.fd,h.heard⟩,h.closed⟩
    exact ⟨rfl,hdown.interest⟩
  | tick now => exact h.tick io ha.1 ha.2
  | handleEvent token readable writable => exact h.handleEvent readable writable io hg
  | pauseSourceReads =>
    refine ⟨rfl,?_⟩
    change Ported c.pauseSourceReads m
    unfold McuChannel.pauseSourceReads
    split_ifs
    · exact h
    · exact (hpaused true).interest
  | resumeSourceReads =>
    refine ⟨rfl,?_⟩
    change Ported c.resumeSourceReads m
    unfold McuChannel.resumeSourceReads
    split_ifs
    · exact (hpaused false).interest
    · exact h

/-- New channels correspond. -/
theorem new (id : UInt8) (io : Channel.Io) : Ported (.new id io) (mcuChInit (.ofPort io)) := by
  have hopen : (Io.ofPort io).openSerialFd=io.openSerialFd := rfl
  unfold McuChannel.new McuChannel.openUart mcuChInit mcuOpenUart
  rw [hopen]
  cases io.openSerialFd with
  | none =>
    have hdue : millis (io.now+reopenDelay)=(Io.ofPort io).clock+2000 := millis_add_secs io.now 2
    exact ⟨⟨rfl,rfl,rfl,rfl,nofun⟩,fun _ => ⟨nofun,_,rfl,hdue.symm⟩⟩
  | some fd =>
    refine interest (of_settled (m := ⟨some fd,.fresh,.init,false,false,0,0,[]⟩) ?_
      (mcuUpdateInterest_settled _))
    exact ⟨⟨rfl,rfl,rfl,rfl,nofun⟩,nofun⟩

/-- A tick that finds the MCU silent by the port only. -/
theorem tick_differs (h : Ported c m) {now : Instant} (io : Channel.Io) (hasleep : ¬Awake c m now) :
    (c.tick now io).1.state=.resetting ∧ (m.ticked (millis now) (.ofPort io)).state=.active := by
  simp only [Awake,not_forall] at hasleep
  obtain ⟨hfd,hactive,rx,hrx,hover,hnot⟩ := hasleep
  obtain ⟨fd,hsome⟩ := Option.ne_none_iff_exists'.mp hfd
  have htick : (c.tick now io).1=(c.transition .resetting).1 := by
    unfold McuChannel.tick
    rw [hsome]
    dsimp only
    rw [hactive,hrx]
    dsimp only
    rw [if_pos hover]
  have hquiet : ¬m.silent (millis now)=true := by
    intro hs
    obtain ⟨hup,-,hpos,hlate⟩ := (m.silent_iff _).mp hs
    exact hnot ⟨h.up.symm.trans hup,hpos,hlate⟩
  refine ⟨htick ▸ transition_state c .resetting,?_⟩
  rw [McuCh.ticked,if_neg (fun hd => hfd (h.fd.symm.trans hd.1)),if_neg hquiet]
  exact h.state.trans hactive

end Ported

/-- From corresponding states, the port and the reference send the same frames and go through the same
states, in every run in which no tick finds them apart; a tick that takes the MCU for silent without a
link does tell them apart. The reference is an MCU of a daemon in any state that it reaches, and its
frames are what the handlers put into the ring. -/
theorem port_follows_reference (crc : List UInt8 → UInt32) (specs : UInt8 → Option Spec)
    (ios : UInt8 → Io) (start : Millis) (dev : Option RawFd) (steps : List LoopStep) {d : Daemon}
    (hd : daemonRun crc specs ios start dev steps=some d) (hget : d.channels c.chId=some (.mcu m))
    (h : Ported c m) {calls : List Call}
    (hcalls : Always (together portStep (refStep c.chId)) (fun s call => Given s call ∧ Agrees s call)
      (c,m) calls) (n : Nat) :
    outs portStep c (calls.take n)=outs (refStep c.chId) m (calls.take n) ∧
      (after portStep c (calls.take n)).state=(after (refStep c.chId) m (calls.take n)).state ∧
      Yields (Hands crc c.chId (outs (refStep c.chId) m (calls.take n)).flatten
          (·.settled=(ChannelT.mcu (after (refStep c.chId) m (calls.take n))).settled) d)
        ((calls.take n).foldlM (mcuCall crc c.chId) d) ∧
      ∀now io,¬Awake (after portStep c (calls.take n)) (after (refStep c.chId) m (calls.take n)) now →
        (portStep (after portStep c (calls.take n)) ⟨.tick now,io⟩).1.state=.resetting ∧
        (refStep c.chId (after (refStep c.chId) m (calls.take n)) ⟨.tick now,io⟩).1.state=.active := by
  have hstep (c' : McuChannel) (m' : McuCh) (call : Call) (hr : c'.chId=c.chId ∧ Ported c' m')
      (hcall : Given (c',m') call ∧ Agrees (c',m') call) :
      (portStep c' call).2=(refStep c.chId m' call).2 ∧
        (portStep c' call).1.chId=c.chId ∧ Ported (portStep c' call).1 (refStep c.chId m' call).1 := by
    obtain ⟨hid,hp⟩ := hr
    obtain ⟨hframes,hnext⟩ := hp.apply hcall.1 hcall.2
    rw [hid] at hframes hnext
    exact ⟨hframes,(c'.apply_moves call).2.trans hid,hnext⟩
  obtain ⟨houts,-,hported⟩ := outs_of_lockstep (R := fun c' m' => c'.chId=c.chId ∧ Ported c' m') hstep
    ⟨rfl,h⟩ (hcalls.take _ n)
  have hsound := (Daemon.Sound.run (w := False) crc specs ios start dev steps nofun).get hd
  refine ⟨houts,hported.state.symm,mcuCalls_hands hsound hget rfl (calls.take n),?_⟩
  exact fun now io hasleep => hported.tick_differs io hasleep

section Runs

/-- A kernel that opens the UART. -/
def opensUart : Channel.Io := {Channel.Io.idle with openSerialFd := some 7}

def ioAt (n : Nat) : Channel.Io := {Channel.Io.idle with now := secs n}

/-- The link comes up and the MCU is heard of. -/
def startsUp : List Call :=
  [⟨.onLinkConnect,ioAt 1⟩,
    ⟨.handleEvent 2 true false,{ioAt 2 with read := .data [klipperSync] sync_fits}⟩]

/-- It is sent a byte, and falls silent. -/
def fallsSilent : List Call :=
  startsUp++[⟨.onFrame fData [1],{ioAt 3 with write := .wrote 1}⟩,⟨.tick (secs 4),ioAt 4⟩,
    ⟨.tick (secs 8),ioAt 8⟩]

theorem port_follows_reference_silence :
    outs portStep (.new 1 opensUart) (fallsSilent.take 5)=
        outs (refStep 1) (mcuChInit (.ofPort opensUart)) (fallsSilent.take 5) ∧
      (after portStep (.new 1 opensUart) (fallsSilent.take 5)).state=
        (after (refStep 1) (mcuChInit (.ofPort opensUart)) (fallsSilent.take 5)).state := by
  have hcalls : Always (together portStep (refStep 1)) (fun s call => Given s call ∧ Agrees s call)
      (.new 1 opensUart,mcuChInit (.ofPort opensUart)) fallsSilent := by decide +kernel
  obtain ⟨houts,hstate,-⟩ := port_follows_reference crc32 (fun id => if id=1 then some .mcu else none)
    (fun _ => .ofPort opensUart) 0 none [] rfl rfl (.new 1 opensUart) hcalls 5
  exact ⟨houts,hstate⟩

/-- The link goes down; six seconds after the last byte there is a tick, and then the link is back. -/
def losesLink : List Call :=
  startsUp++[⟨.onLinkDisconnect,ioAt 3⟩,⟨.tick (secs 8),ioAt 8⟩,⟨.onLinkConnect,ioAt 9⟩]

/-- The port takes the MCU to be reset and says so, the reference does not. -/
theorem port_resets_without_link :
    Ported (.new 1 opensUart) (mcuChInit (.ofPort opensUart)) ∧
      Always (together portStep (refStep 1)) Given
        (.new 1 opensUart,mcuChInit (.ofPort opensUart)) losesLink ∧
      (after portStep (.new 1 opensUart) (losesLink.take 4)).state=.resetting ∧
      (after (refStep 1) (mcuChInit (.ofPort opensUart)) (losesLink.take 4)).state=.active ∧
      (outs portStep (.new 1 opensUart) losesLink).flatten=
        [⟨fFlush,1,[]⟩,⟨fReady,1,[]⟩,⟨fData,1,[klipperSync]⟩,⟨fFlush,1,[]⟩] ∧
      (outs (refStep 1) (mcuChInit (.ofPort opensUart)) losesLink).flatten=
        [⟨fFlush,1,[]⟩,⟨fReady,1,[]⟩,⟨fData,1,[klipperSync]⟩,⟨fReady,1,[]⟩] := by
  refine ⟨.new 1 opensUart,?_⟩
  decide +kernel

end Runs

end Simulation

end Serialmux.Reference

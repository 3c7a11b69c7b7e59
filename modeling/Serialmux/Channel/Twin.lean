import Serialmux.Channel.Dyn

namespace Serialmux.Channel

open Protocol

namespace McuChannel

/-- Two channels that differ at most in what a pause changes. -/
def Twin (c c' : McuChannel) : Prop := ∃w b,c'={c with watch := w, bpPaused := b}

variable {c c' : McuChannel}

theorem Twin.refl (c : McuChannel) : c.Twin c := ⟨c.watch,c.bpPaused,rfl⟩

theorem Twin.symm (h : c.Twin c') : c'.Twin c := by
  obtain ⟨w,b,rfl⟩ := h
  exact ⟨c.watch,c.bpPaused,rfl⟩

theorem Twin.trans {c'' : McuChannel} (h : c.Twin c') (h' : c'.Twin c'') : c.Twin c'' := by
  obtain ⟨w,b,rfl⟩ := h
  obtain ⟨w',b',rfl⟩ := h'
  exact ⟨w',b',rfl⟩

theorem updateInterest_twin (h : c.Twin c') : c.updateInterest.Twin c'.updateInterest := by
  obtain ⟨w,b,rfl⟩ := h
  obtain ⟨chId,state,fd,watch,txbuf,lastRx,reopenAt,bpPaused,linkUp⟩ := c
  cases fd with
  | none => exact ⟨w,b,rfl⟩
  | some fd => exact ⟨_,b,rfl⟩

theorem openUart_twin (h : c.Twin c') (io : Io) : (c.openUart io).Twin (c'.openUart io) := by
  obtain ⟨w,b,rfl⟩ := h
  unfold openUart
  cases io.openSerialFd with
  | none => exact ⟨w,b,rfl⟩
  | some fd => exact updateInterest_twin ⟨.fresh,b,rfl⟩

/-- Two calls that do the same to channels that are alike. -/
abbrev Agree (p p' : McuChannel × Effect) : Prop := p.1.Twin p'.1 ∧ p.2=p'.2

theorem transition_twin (h : c.Twin c') (s : McuState) :
    (c.transition s).1.Twin (c'.transition s).1 ∧ (c.transition s).2=(c'.transition s).2 := by
  obtain ⟨w,b,rfl⟩ := h
  unfold transition
  split_ifs
  · exact ⟨⟨w,b,rfl⟩,rfl⟩
  · cases s <;> exact ⟨⟨w,b,rfl⟩,rfl⟩

theorem awaitSync_twin (h : c.Twin c') (data : List UInt8) :
    (c.awaitSync data).1.Twin (c'.awaitSync data).1 ∧
      (c.awaitSync data).2=(c'.awaitSync data).2 := by
  unfold awaitSync
  cases data.findIdx? (·==klipperSync) with
  | none => exact ⟨h,rfl⟩
  | some idx =>
    obtain ⟨hc,hf⟩ := transition_twin h .active
    refine ⟨hc,?_⟩
    obtain ⟨w,b,hw⟩ := hc
    dsimp only
    rw [hf,hw]
    rfl

/-- Bytes that are read while the sync byte is waited for. -/
theorem awaited_twin (h : c.Twin c') (data : List UInt8) :
    Agree ((c.awaitSync data).1,⟨(c.awaitSync data).2,data,[]⟩)
      ((c'.awaitSync data).1,⟨(c'.awaitSync data).2,data,[]⟩) := by
  obtain ⟨hc,hf⟩ := awaitSync_twin h data
  exact ⟨hc,congrArg (Effect.mk · data []) hf⟩

theorem uartRead_twin (h : c.Twin c') (io : Io) : Agree (c.uartRead io) (c'.uartRead io) := by
  obtain ⟨w,b,rfl⟩ := h
  obtain ⟨chId,state,fd,watch,txbuf,lastRx,reopenAt,bpPaused,linkUp⟩ := c
  cases fd with
  | none => exact ⟨⟨w,b,rfl⟩,rfl⟩
  | some fd =>
    unfold uartRead
    cases io.read with
    | wouldBlock => exact ⟨⟨w,b,rfl⟩,rfl⟩
    | error e =>
      have hclosed :
          (closeUart ⟨chId,state,some fd,watch,txbuf,lastRx,reopenAt,bpPaused,linkUp⟩).Twin
            (closeUart ⟨chId,state,some fd,w,txbuf,lastRx,reopenAt,b,linkUp⟩) := ⟨.fresh,b,rfl⟩
      obtain ⟨⟨w',b',hw⟩,hf⟩ := transition_twin hclosed .resetting
      refine ⟨⟨w',b',?_⟩,congrArg Effect.sends hf⟩
      dsimp only
      rw [hw]
    | data bs hn =>
      cases bs with
      | nil => exact ⟨⟨w,b,rfl⟩,rfl⟩
      | cons x bs =>
        have hheard : ∀state,
            Twin ⟨chId,state,some fd,watch,txbuf,some io.now,reopenAt,bpPaused,linkUp⟩
              ⟨chId,state,some fd,w,txbuf,some io.now,reopenAt,b,linkUp⟩ := fun _ => ⟨w,b,rfl⟩
        cases state with
        | init => exact awaited_twin (hheard .init) (x::bs)
        | resetting => exact awaited_twin (hheard .resetting) (x::bs)
        | active => exact ⟨⟨w,b,rfl⟩,rfl⟩

theorem uartDrain_twin (h : c.Twin c') (io : Io) : Agree (c.uartDrain io) (c'.uartDrain io) := by
  obtain ⟨w,b,rfl⟩ := h
  obtain ⟨chId,state,fd,watch,txbuf,lastRx,reopenAt,bpPaused,linkUp⟩ := c
  cases fd with
  | none => exact ⟨⟨w,b,rfl⟩,rfl⟩
  | some fd =>
    unfold uartDrain
    dsimp only
    split_ifs
    · exact ⟨⟨w,b,rfl⟩,rfl⟩
    · exact ⟨updateInterest_twin (c := ⟨chId,state,some fd,watch,(flushBuf txbuf io.write).1,
        lastRx,reopenAt,bpPaused,linkUp⟩) ⟨w,b,rfl⟩,rfl⟩

theorem onFrame_twin (h : c.Twin c') (ftype : UInt8) (payload : List UInt8) (io : Io) :
    Agree (c.onFrame ftype payload io) (c'.onFrame ftype payload io) := by
  obtain ⟨w,b,rfl⟩ := h
  unfold onFrame
  split_ifs
  · exact ⟨⟨w,b,rfl⟩,rfl⟩
  · exact uartDrain_twin ⟨w,b,rfl⟩ io
  · exact ⟨⟨w,b,rfl⟩,rfl⟩

theorem tick_twin (h : c.Twin c') (now : Instant) (io : Io) :
    Agree (c.tick now io) (c'.tick now io) := by
  obtain ⟨w,b,rfl⟩ := h
  obtain ⟨chId,state,fd,watch,txbuf,lastRx,reopenAt,bpPaused,linkUp⟩ := c
  cases fd with
  | none =>
    cases reopenAt with
    | none => exact ⟨⟨w,b,rfl⟩,rfl⟩
    | some t =>
      unfold tick
      dsimp only
      split_ifs
      · exact ⟨openUart_twin ⟨w,b,rfl⟩ io,rfl⟩
      · exact ⟨⟨w,b,rfl⟩,rfl⟩
  | some fd =>
    cases state with
    | init => exact ⟨⟨w,b,rfl⟩,rfl⟩
    | resetting => exact ⟨⟨w,b,rfl⟩,rfl⟩
    | active =>
      cases lastRx with
      | none => exact ⟨⟨w,b,rfl⟩,rfl⟩
      | some last =>
        unfold tick
        dsimp only
        split_ifs <;> exact ⟨⟨w,b,rfl⟩,rfl⟩

theorem handleEvent_twin (h : c.Twin c') (readable writable : Bool) (io : Io) :
    Agree (c.handleEvent readable writable io) (c'.handleEvent readable writable io) := by
  have hread : Agree (if readable then c.uartRead io else (c,.quiet))
      (if readable then c'.uartRead io else (c',.quiet)) := by
    split_ifs
    · exact uartRead_twin h io
    · exact ⟨h,rfl⟩
  unfold handleEvent
  dsimp only
  obtain ⟨hc,he⟩ := hread
  cases writable with
  | false => exact ⟨hc,congrArg (Effect.next · .quiet) he⟩
  | true =>
    obtain ⟨hc',he'⟩ := uartDrain_twin hc io
    exact ⟨hc',congrArg₂ Effect.next he he'⟩

/-- A pause or its end changes nothing else. -/
theorem setPaused_twin (c : McuChannel) :
    c.pauseSourceReads.Twin c ∧ c.resumeSourceReads.Twin c := by
  have hset : ∀b,(updateInterest {c with bpPaused := b}).Twin c := by
    intro b
    obtain ⟨chId,state,fd,watch,txbuf,lastRx,reopenAt,bpPaused,linkUp⟩ := c
    cases fd with
    | none => exact ⟨watch,bpPaused,rfl⟩
    | some fd => exact ⟨watch,bpPaused,rfl⟩
  unfold pauseSourceReads resumeSourceReads
  split_ifs
  · exact ⟨.refl c,hset false⟩
  · exact ⟨hset true,.refl c⟩

theorem apply_twin (h : c.Twin c') (call : Call) : Agree (c.apply call) (c'.apply call) := by
  obtain ⟨op,io⟩ := call
  cases op with
  | onFrame ftype payload => exact onFrame_twin h ftype payload io
  | onLinkConnect =>
    obtain ⟨w,b,rfl⟩ := h
    exact ⟨⟨w,b,rfl⟩,rfl⟩
  | onLinkDisconnect =>
    obtain ⟨w,b,rfl⟩ := h
    exact ⟨updateInterest_twin ⟨w,b,rfl⟩,rfl⟩
  | tick now => exact tick_twin h now io
  | handleEvent token readable writable => exact handleEvent_twin h readable writable io
  | pauseSourceReads =>
    exact ⟨((setPaused_twin c).1.trans h).trans (setPaused_twin c').1.symm,rfl⟩
  | resumeSourceReads =>
    exact ⟨((setPaused_twin c).2.trans h).trans (setPaused_twin c').2.symm,rfl⟩

end McuChannel

namespace PtyChannel

/-- Two channels that differ at most in what a pause changes. -/
def Twin (c c' : PtyChannel) : Prop := ∃w b,c'={c with watch := w, bpPaused := b}

variable {c c' : PtyChannel}

theorem Twin.refl (c : PtyChannel) : c.Twin c := ⟨c.watch,c.bpPaused,rfl⟩

theorem Twin.symm (h : c.Twin c') : c'.Twin c := by
  obtain ⟨w,b,rfl⟩ := h
  exact ⟨c.watch,c.bpPaused,rfl⟩

theorem Twin.trans {c'' : PtyChannel} (h : c.Twin c') (h' : c'.Twin c'') : c.Twin c'' := by
  obtain ⟨w,b,rfl⟩ := h
  obtain ⟨w',b',rfl⟩ := h'
  exact ⟨w',b',rfl⟩

/-- Two calls that do the same to channels that are alike. -/
abbrev Agree (p p' : PtyChannel × Effect) : Prop := p.1.Twin p'.1 ∧ p.2=p'.2

theorem updateInterest_twin (h : c.Twin c') : c.updateInterest.Twin c'.updateInterest := by
  obtain ⟨w,b,rfl⟩ := h
  obtain ⟨chId,masterFd,slaveFd,watch,txbuf,bpPaused⟩ := c
  cases masterFd with
  | none => exact ⟨w,b,rfl⟩
  | some fd => exact ⟨_,b,rfl⟩

theorem openPty_twin (h : c.Twin c') (io : Io) : (c.openPty io).Twin (c'.openPty io) := by
  obtain ⟨w,b,rfl⟩ := h
  obtain ⟨chId,masterFd,slaveFd,watch,txbuf,bpPaused⟩ := c
  cases masterFd with
  | some fd => exact ⟨w,b,rfl⟩
  | none =>
    unfold openPty
    cases io.openPty with
    | none => exact ⟨w,b,rfl⟩
    | some p => exact updateInterest_twin ⟨.fresh,b,rfl⟩

theorem ptyDrain_twin (h : c.Twin c') (io : Io) : Agree (c.ptyDrain io) (c'.ptyDrain io) := by
  obtain ⟨w,b,rfl⟩ := h
  obtain ⟨chId,masterFd,slaveFd,watch,txbuf,bpPaused⟩ := c
  cases masterFd with
  | none => exact ⟨⟨w,b,rfl⟩,rfl⟩
  | some fd =>
    unfold ptyDrain
    dsimp only
    split_ifs
    · exact ⟨⟨w,b,rfl⟩,rfl⟩
    · exact ⟨updateInterest_twin (c := ⟨chId,some fd,slaveFd,watch,
        (McuChannel.flushBuf txbuf io.write).1,bpPaused⟩) ⟨w,b,rfl⟩,rfl⟩

theorem onFrame_twin (h : c.Twin c') (ftype : UInt8) (payload : List UInt8) (io : Io) :
    Agree (c.onFrame ftype payload io) (c'.onFrame ftype payload io) := by
  unfold onFrame
  split_ifs
  · obtain ⟨w,b,rfl⟩ := h
    exact ⟨⟨.fresh,b,rfl⟩,rfl⟩
  · exact ⟨openPty_twin h io,rfl⟩
  · obtain ⟨w,b,rfl⟩ := h
    obtain ⟨chId,masterFd,slaveFd,watch,txbuf,bpPaused⟩ := c
    cases masterFd with
    | none => exact ⟨⟨w,b,rfl⟩,rfl⟩
    | some fd =>
      exact ptyDrain_twin (c := ⟨chId,some fd,slaveFd,watch,txbuf++payload,bpPaused⟩) ⟨w,b,rfl⟩ io
  · exact ⟨h,rfl⟩

theorem ptyRead_twin (h : c.Twin c') (io : Io) : Agree (c.ptyRead io) (c'.ptyRead io) := by
  obtain ⟨w,b,rfl⟩ := h
  unfold ptyRead
  cases io.read with
  | wouldBlock => exact ⟨⟨w,b,rfl⟩,rfl⟩
  | error e =>
    cases e with
    | eio => exact ⟨⟨.fresh,b,rfl⟩,rfl⟩
    | other => exact ⟨⟨w,b,rfl⟩,rfl⟩
  | data bs hn =>
    cases bs with
    | nil => exact ⟨⟨w,b,rfl⟩,rfl⟩
    | cons x bs => exact ⟨⟨w,b,rfl⟩,rfl⟩

theorem handleEvent_twin (h : c.Twin c') (readable writable : Bool) (io : Io) :
    Agree (c.handleEvent readable writable io) (c'.handleEvent readable writable io) := by
  have hread : Agree (if readable then c.ptyRead io else (c,.quiet))
      (if readable then c'.ptyRead io else (c',.quiet)) := by
    split_ifs
    · exact ptyRead_twin h io
    · exact ⟨h,rfl⟩
  have hfd : c'.masterFd=c.masterFd := by
    obtain ⟨w,b,rfl⟩ := h
    rfl
  unfold handleEvent
  rw [hfd]
  cases c.masterFd with
  | none => exact ⟨h,rfl⟩
  | some fd =>
    dsimp only
    obtain ⟨hc,he⟩ := hread
    cases writable with
    | false => exact ⟨hc,congrArg (Effect.next · .quiet) he⟩
    | true =>
      obtain ⟨hc',he'⟩ := ptyDrain_twin hc io
      exact ⟨hc',congrArg₂ Effect.next he he'⟩

/-- A pause or its end changes nothing else. -/
theorem setPaused_twin (c : PtyChannel) :
    c.pauseSourceReads.Twin c ∧ c.resumeSourceReads.Twin c := by
  have hset : ∀b,(updateInterest {c with bpPaused := b}).Twin c := by
    intro b
    obtain ⟨chId,masterFd,slaveFd,watch,txbuf,bpPaused⟩ := c
    cases masterFd with
    | none => exact ⟨watch,bpPaused,rfl⟩
    | some fd => exact ⟨watch,bpPaused,rfl⟩
  unfold pauseSourceReads resumeSourceReads
  split_ifs
  · exact ⟨.refl c,hset false⟩
  · exact ⟨hset true,.refl c⟩

theorem apply_twin (h : c.Twin c') (call : Call) : Agree (c.apply call) (c'.apply call) := by
  have hclose : c.closePty.Twin c'.closePty := by
    obtain ⟨w,b,rfl⟩ := h
    exact ⟨.fresh,b,rfl⟩
  obtain ⟨op,io⟩ := call
  cases op with
  | onFrame ftype payload => exact onFrame_twin h ftype payload io
  | onLinkConnect => exact ⟨hclose,rfl⟩
  | onLinkDisconnect => exact ⟨hclose,rfl⟩
  | tick now => exact ⟨h,rfl⟩
  | handleEvent token readable writable => exact handleEvent_twin h readable writable io
  | pauseSourceReads =>
    exact ⟨((setPaused_twin c).1.trans h).trans (setPaused_twin c').1.symm,rfl⟩
  | resumeSourceReads =>
    exact ⟨((setPaused_twin c).2.trans h).trans (setPaused_twin c').2.symm,rfl⟩

end PtyChannel

/-- Two connections that differ at most in what mio is asked to watch. -/
structure TcpConn.Twin (c c' : TcpConn) : Prop where
  stream : c.stream=c'.stream
  txbuf : c.txbuf=c'.txbuf
  connecting : c.connecting=c'.connecting
  closePending : c.closePending=c'.closePending

theorem TcpConn.Twin.refl (c : TcpConn) : c.Twin c := ⟨rfl,rfl,rfl,rfl⟩

theorem TcpConn.Twin.symm {c c' : TcpConn} (h : c.Twin c') : c'.Twin c :=
  ⟨h.stream.symm,h.txbuf.symm,h.connecting.symm,h.closePending.symm⟩

abbrev SlotTwin (c c' : Option TcpConn) : Prop := Option.Rel TcpConn.Twin c c'

theorem SlotTwin.refl (c : Option TcpConn) : SlotTwin c c := by
  cases c with
  | none => exact .none
  | some c => exact .some (.refl c)

theorem SlotTwin.symm {c c' : Option TcpConn} (h : SlotTwin c c') : SlotTwin c' c := by
  cases h with
  | none => exact .none
  | some h => exact .some h.symm

theorem SlotTwin.empty {c c' : Option TcpConn} (h : SlotTwin c c') : c=none ↔ c'=none := by
  cases h <;> simp

/-- Interests only say what is watched. -/
theorem SlotTwin.updated {c c' : Option TcpConn} (i : TcpConn → Option Interest)
    (h : SlotTwin c c') : SlotTwin (updateConnInterest i c).1 c' := by
  cases h with
  | none => exact .none
  | some h => exact .some ⟨h.stream,h.txbuf,h.connecting,h.closePending⟩

/-- Two operations that do the same to slots that are alike. -/
def OpTwin (f g : SlotOp) : Prop :=
  ∀c c',SlotTwin c c' → SlotTwin (f c).1 (g c').1 ∧ (f c).2=(g c').2

namespace OpTwin

variable {f f' g g' : SlotOp}

theorem skip : OpTwin .skip .skip := fun _ _ h => ⟨h,rfl⟩

theorem seq (hf : OpTwin f f') (hg : OpTwin g g') : OpTwin (.seq f g) (.seq f' g') := by
  intro c c' h
  obtain ⟨hc,he⟩ := hf c c' h
  obtain ⟨hc',he'⟩ := hg _ _ hc
  exact ⟨hc',congrArg₂ Effect.next he he'⟩

theorem guard (b : Bool) (hf : OpTwin f f') : OpTwin (.guard b f) (.guard b f') := by
  cases b with
  | false => exact skip
  | true => exact hf

end OpTwin

section Slot

variable (chId : UInt8) (slot : Slot) (notify : Bool)

theorem closeSlot_twin : OpTwin (closeSlot chId slot notify) (closeSlot chId slot notify) := by
  intro c c' h
  cases h with
  | none => exact ⟨.none,rfl⟩
  | some h => exact ⟨.none,rfl⟩

theorem updateConnInterest_twin (i i' : TcpConn → Option Interest) :
    OpTwin (updateConnInterest i) (updateConnInterest i') := by
  intro c c' h
  cases h with
  | none => exact ⟨.none,rfl⟩
  | some h => exact ⟨.some ⟨h.stream,h.txbuf,h.connecting,h.closePending⟩,rfl⟩

theorem readLoop_twin {blocked : TcpConn → Bool}
    (hb : ∀{c c' : TcpConn},c.Twin c' → blocked c=blocked c') (rs : List (ReadResult 65536)) :
    OpTwin (readLoop chId slot notify blocked rs) (readLoop chId slot notify blocked rs) := by
  induction rs with
  | nil => exact .skip
  | cons r rs ih =>
    intro c c' h
    cases h with
    | none => exact ⟨.none,rfl⟩
    | some h =>
      simp only [readLoop,hb h]
      split_ifs
      · exact ⟨.some h,rfl⟩
      · cases r with
        | wouldBlock => exact ⟨.some h,rfl⟩
        | error e => exact closeSlot_twin chId slot notify _ _ (.some h)
        | data bs hn =>
          cases bs with
          | nil => exact closeSlot_twin chId slot notify _ _ (.some h)
          | cons b bs =>
            obtain ⟨hc,he⟩ := ih _ _ (.some h)
            exact ⟨hc,congrArg (Effect.next _) he⟩

theorem writeSlot_twin {ready : TcpConn → Bool}
    (hr : ∀{c c' : TcpConn},c.Twin c' → ready c=ready c') (w : WriteResult) :
    OpTwin (writeSlot chId slot notify ready w) (writeSlot chId slot notify ready w) := by
  intro c c' h
  cases h with
  | none => exact ⟨.none,rfl⟩
  | @some c c' h =>
    have hsame : writeTxbuf ready w c'=(writeTxbuf ready w c).map
        (fun p => ({c' with txbuf := p.1.txbuf},p.2)) := by
      have hready := hr h
      simp only [writeTxbuf,hready,h.txbuf]
      split_ifs
      · cases w <;> simp [h.txbuf]
      · simp [h.txbuf]
    cases hw : writeTxbuf ready w c with
    | none =>
      simp only [writeSlot,hsame,hw,Option.map_none]
      exact closeSlot_twin chId slot notify _ _ (.some h)
    | some p =>
      obtain ⟨c₁,out⟩ := p
      have hkept : c₁.stream=c.stream ∧ c₁.connecting=c.connecting ∧
          c₁.closePending=c.closePending := by
        rw [writeTxbuf.eq_def] at hw
        split_ifs at hw
        · cases w <;> cases hw <;> exact ⟨rfl,rfl,rfl⟩
        · cases hw
          exact ⟨rfl,rfl,rfl⟩
      obtain ⟨hs,hc,hp⟩ := hkept
      simp only [writeSlot,hsame,hw,Option.map_some,hp,h.closePending]
      split_ifs
      · exact ⟨.none,rfl⟩
      · exact ⟨.some ⟨hs.trans h.stream,rfl,hc.trans h.connecting,hp.trans h.closePending⟩,rfl⟩

theorem onTdata_twin (i i' : TcpConn → Option Interest) (data : List UInt8) :
    OpTwin (onTdata chId slot notify i data) (onTdata chId slot notify i' data) := by
  intro c c' h
  cases h with
  | none => exact ⟨.none,rfl⟩
  | some h =>
    have hover : ∀c c' : TcpConn,c.txbuf=c'.txbuf → overLimit c data=overLimit c' data := by
      intro c c' h
      rw [overLimit,overLimit,h]
    simp only [onTdata,hover _ _ h.txbuf]
    split_ifs
    · exact ⟨.some h,rfl⟩
    · exact closeSlot_twin chId slot notify _ _ (.some h)
    · exact updateConnInterest_twin i i' _ _
        (.some ⟨h.stream,congrArg (·++data) h.txbuf,h.connecting,h.closePending⟩)

theorem onTclose_twin (i i' : TcpConn → Option Interest) :
    OpTwin (onTclose chId slot i) (onTclose chId slot i') := by
  intro c c' h
  cases h with
  | none => exact ⟨.none,rfl⟩
  | some h =>
    have hempty : ∀c c' : TcpConn,c.txbuf=c'.txbuf → (c.txbuf=[])=(c'.txbuf=[]) := by
      intro c c' h
      rw [h]
    simp only [onTclose,hempty _ _ h.txbuf]
    split_ifs
    · exact closeSlot_twin chId slot false _ _ (.some h)
    · exact updateConnInterest_twin i i' _ _ (.some ⟨h.stream,h.txbuf,h.connecting,rfl⟩)

/-- Slot for slot alike. -/
abbrev ConnsTwin (conns conns' : Slot → Option TcpConn) : Prop := ∀k,SlotTwin (conns k) (conns' k)

theorem ConnsTwin.update {conns conns' : Slot → Option TcpConn} (h : ConnsTwin conns conns')
    {c c' : Option TcpConn} (hc : SlotTwin c c') :
    ConnsTwin (Function.update conns slot c) (Function.update conns' slot c') := by
  intro k
  by_cases hk : k=slot
  · subst hk
    simpa using hc
  · simpa [hk] using h k

theorem atSlot_twin {conns conns' : Slot → Option TcpConn} (h : ConnsTwin conns conns')
    {f g : SlotOp} (hop : OpTwin f g) :
    ConnsTwin (atSlot conns slot f).1 (atSlot conns' slot g).1 ∧
      (atSlot conns slot f).2=(atSlot conns' slot g).2 := by
  obtain ⟨hc,he⟩ := hop _ _ (h slot)
  exact ⟨h.update slot hc,he⟩

end Slot

/-- Two source channels in the same state for the link. -/
structure TcpSourceChannel.Twin (s s' : TcpSourceChannel) : Prop where
  chId : s.chId=s'.chId
  conns : ConnsTwin s.conns s'.conns
  nextSlot : s.nextSlot=s'.nextSlot
  linkUp : s.linkUp=s'.linkUp

namespace TcpSourceChannel

variable {s s' : TcpSourceChannel}

theorem Twin.symm (h : s.Twin s') : s'.Twin s :=
  ⟨h.chId.symm,fun k => (h.conns k).symm,h.nextSlot.symm,h.linkUp.symm⟩

theorem setPaused_twin (h : s.Twin s') (p : Bool) : (s.setPaused p).Twin s' := by
  unfold setPaused
  split_ifs
  · exact h
  · exact ⟨h.chId,fun k => (h.conns k).updated _,h.nextSlot,h.linkUp⟩

theorem onFrame_twin (h : s.Twin s') (ftype : UInt8) (payload : List UInt8) :
    (s.onFrame ftype payload).1.Twin (s'.onFrame ftype payload).1 ∧
      (s.onFrame ftype payload).2=(s'.onFrame ftype payload).2 := by
  unfold onFrame
  cases slotOfPayload payload with
  | none => exact ⟨h,rfl⟩
  | some v =>
    have hop : OpTwin (s.slotFrame v.1 ftype v.2) (s'.slotFrame v.1 ftype v.2) := by
      simp only [slotFrame,h.chId,h.linkUp]
      split_ifs
      · exact onTdata_twin _ _ _ _ _ _
      · exact onTclose_twin _ _ _ _
      · exact .skip
    obtain ⟨hc,he⟩ := atSlot_twin v.1 h.conns hop
    exact ⟨⟨h.chId,hc,h.nextSlot,h.linkUp⟩,he⟩

theorem tcpEvent_twin (h : s.Twin s') (token : Token) (readable writable : Bool) (io : Io) :
    (s.tcpEvent token readable writable io).1.Twin (s'.tcpEvent token readable writable io).1 ∧
      (s.tcpEvent token readable writable io).2=(s'.tcpEvent token readable writable io).2 := by
  have hop : OpTwin (s.slotEvent (slotOfToken token) readable writable io)
      (s'.slotEvent (slotOfToken token) readable writable io) := by
    simp only [slotEvent,h.chId,h.linkUp]
    exact .seq (.guard _ (readLoop_twin _ _ _ (fun h => h.closePending) _))
      (.guard _ (.seq (writeSlot_twin _ _ _ (fun _ => rfl) _) (updateConnInterest_twin _ _)))
  obtain ⟨hc,he⟩ := atSlot_twin (slotOfToken token) h.conns hop
  exact ⟨⟨h.chId,hc,h.nextSlot,h.linkUp⟩,he⟩

theorem probe_twin {conns conns' : Slot → Option TcpConn} (h : ConnsTwin conns conns')
    (n next : Nat) : probe conns n next=probe conns' n next := by
  induction n generalizing next with
  | zero => rfl
  | succ n ih => simp only [probe,(h _).empty,ih]

theorem acceptOne_twin (h : s.Twin s') (a : Accepted) :
    (s.acceptOne a).1.Twin (s'.acceptOne a).1 ∧ (s.acceptOne a).2=(s'.acceptOne a).2 := by
  obtain ⟨chId,conns,nextSlot,linkUp,bp⟩ := s
  obtain ⟨chId',conns',nextSlot',linkUp',bp'⟩ := s'
  obtain ⟨hid,hc,hn,hup⟩ := h
  dsimp only at hid hc hn hup
  subst hid hn hup
  simp only [acceptOne,allocSlot,probe_twin hc]
  cases linkUp with
  | false => exact ⟨⟨rfl,hc,rfl,rfl⟩,rfl⟩
  | true =>
    cases (probe conns' maxTcpConns nextSlot).1 with
    | none => exact ⟨⟨rfl,hc,rfl,rfl⟩,rfl⟩
    | some slot =>
      cases a.registers with
      | false => exact ⟨⟨rfl,hc,rfl,rfl⟩,rfl⟩
      | true => exact ⟨⟨rfl,hc.update slot (.some (.refl _)),rfl,rfl⟩,rfl⟩

theorem accept_twin (h : s.Twin s') (as : List Accepted) :
    (s.accept as).1.Twin (s'.accept as).1 ∧ (s.accept as).2=(s'.accept as).2 := by
  induction as generalizing s s' with
  | nil => exact ⟨h,rfl⟩
  | cons a as ih =>
    obtain ⟨hone,he⟩ := acceptOne_twin h a
    obtain ⟨hrest,he'⟩ := ih hone
    exact ⟨hrest,congrArg₂ Effect.next he he'⟩

theorem handleEvent_twin (h : s.Twin s') (token : Token) (readable writable : Bool) (io : Io) :
    (s.handleEvent token readable writable io).1.Twin
        (s'.handleEvent token readable writable io).1 ∧
      (s.handleEvent token readable writable io).2=
        (s'.handleEvent token readable writable io).2 := by
  simp only [handleEvent,h.chId]
  split_ifs
  · exact accept_twin h io.accepts
  · exact ⟨h,rfl⟩
  · exact tcpEvent_twin h token readable writable io

theorem apply_twin (h : s.Twin s') (call : Call) :
    (s.apply call).1.Twin (s'.apply call).1 ∧ (s.apply call).2=(s'.apply call).2 := by
  have hpause : ∀p,(s.setPaused p).Twin (s'.setPaused p) := fun p =>
    (setPaused_twin (setPaused_twin h p).symm p).symm
  obtain ⟨op,io⟩ := call
  cases op with
  | onFrame ftype payload => exact onFrame_twin h ftype payload
  | onLinkConnect => exact ⟨⟨h.chId,h.conns,h.nextSlot,rfl⟩,rfl⟩
  | onLinkDisconnect => exact ⟨⟨h.chId,fun _ => .none,h.nextSlot,rfl⟩,rfl⟩
  | tick now => exact ⟨h,rfl⟩
  | handleEvent token readable writable => exact handleEvent_twin h token readable writable io
  | pauseSourceReads => exact ⟨hpause true,rfl⟩
  | resumeSourceReads => exact ⟨hpause false,rfl⟩

end TcpSourceChannel

/-- Two destination channels in the same state for the link. -/
structure TcpDestChannel.Twin (d d' : TcpDestChannel) : Prop where
  chId : d.chId=d'.chId
  conns : ConnsTwin d.conns d'.conns

namespace TcpDestChannel

variable {d d' : TcpDestChannel}

theorem Twin.symm (h : d.Twin d') : d'.Twin d := ⟨h.chId.symm,fun k => (h.conns k).symm⟩

theorem setPaused_twin (h : d.Twin d') (p : Bool) : (d.setPaused p).Twin d' := by
  unfold setPaused
  split_ifs
  · exact h
  · exact ⟨h.chId,fun k => (h.conns k).updated _⟩

theorem onFrame_twin (h : d.Twin d') (ftype : UInt8) (payload : List UInt8) (io : Io) :
    (d.onFrame ftype payload io).1.Twin (d'.onFrame ftype payload io).1 ∧
      (d.onFrame ftype payload io).2=(d'.onFrame ftype payload io).2 := by
  have hopen : ∀k,OpTwin (openConn d'.chId k io) (openConn d'.chId k io) := by
    intro k c c' hc
    cases hc with
    | some hc => exact ⟨.some hc,rfl⟩
    | none =>
      simp only [openConn]
      cases io.connect with
      | none => exact ⟨.none,trivial⟩
      | some stream => exact ⟨.some (.refl _),trivial⟩
  unfold onFrame
  cases slotOfPayload payload with
  | none => exact ⟨h,rfl⟩
  | some v =>
    have hop : OpTwin (d.slotFrame v.1 ftype v.2 io) (d'.slotFrame v.1 ftype v.2 io) := by
      simp only [slotFrame,h.chId]
      split_ifs
      · exact hopen _
      · exact onTdata_twin _ _ _ _ _ _
      · exact onTclose_twin _ _ _ _
      · exact .skip
    obtain ⟨hc,he⟩ := atSlot_twin v.1 h.conns hop
    exact ⟨⟨h.chId,hc⟩,he⟩

theorem tcpEvent_twin (h : d.Twin d') (token : Token) (readable writable : Bool) (io : Io) :
    (d.tcpEvent token readable writable io).1.Twin (d'.tcpEvent token readable writable io).1 ∧
      (d.tcpEvent token readable writable io).2=(d'.tcpEvent token readable writable io).2 := by
  have hfinish : ∀k,OpTwin (finishConnect d'.chId k writable io)
      (finishConnect d'.chId k writable io) := by
    intro k c c' hc
    cases hc with
    | none => exact ⟨.none,rfl⟩
    | some hc =>
      simp only [finishConnect,hc.connecting]
      split_ifs
      · exact ⟨.some ⟨hc.stream,hc.txbuf,rfl,hc.closePending⟩,rfl⟩
      · exact closeSlot_twin _ _ _ _ _ (.some hc)
      · exact ⟨.some hc,rfl⟩
  have hop : OpTwin (d.slotEvent (slotOfToken token) readable writable io)
      (d'.slotEvent (slotOfToken token) readable writable io) := by
    simp only [slotEvent,h.chId]
    exact .seq (hfinish _)
      (.seq (.guard _ (writeSlot_twin _ _ _ (fun h => by rw [h.connecting]) _))
        (.seq (.guard _ (readLoop_twin _ _ _ (fun h => by rw [h.connecting,h.closePending]) _))
          (updateConnInterest_twin _ _)))
  obtain ⟨hc,he⟩ := atSlot_twin (slotOfToken token) h.conns hop
  exact ⟨⟨h.chId,hc⟩,he⟩

theorem apply_twin (h : d.Twin d') (call : Call) :
    (d.apply call).1.Twin (d'.apply call).1 ∧ (d.apply call).2=(d'.apply call).2 := by
  have hpause : ∀p,(d.setPaused p).Twin (d'.setPaused p) := fun p =>
    (setPaused_twin (setPaused_twin h p).symm p).symm
  obtain ⟨op,io⟩ := call
  cases op with
  | onFrame ftype payload => exact onFrame_twin h ftype payload io
  | onLinkConnect => exact ⟨⟨h.chId,fun _ => .none⟩,rfl⟩
  | onLinkDisconnect => exact ⟨⟨h.chId,fun _ => .none⟩,rfl⟩
  | tick now => exact ⟨h,rfl⟩
  | handleEvent token readable writable => exact tcpEvent_twin h token readable writable io
  | pauseSourceReads => exact ⟨hpause true,rfl⟩
  | resumeSourceReads => exact ⟨hpause false,rfl⟩

end TcpDestChannel

namespace DynChannel

/-- Two channels of one kind that differ at most in what a pause changes. -/
inductive Twin : DynChannel → DynChannel → Prop where
  | mcu {c c' : McuChannel} (h : c.Twin c') : Twin (.mcu c) (.mcu c')
  | pty {c c' : PtyChannel} (h : c.Twin c') : Twin (.pty c) (.pty c')
  | tcpSource {s s' : TcpSourceChannel} (h : s.Twin s') : Twin (.tcpSource s) (.tcpSource s')
  | tcpDest {d d' : TcpDestChannel} (h : d.Twin d') : Twin (.tcpDest d) (.tcpDest d')

variable {c c' : DynChannel}

theorem Twin.refl (c : DynChannel) : c.Twin c := by
  cases c with
  | mcu c => exact .mcu (.refl c)
  | pty c => exact .pty (.refl c)
  | tcpSource s => exact .tcpSource ⟨rfl,fun _ => .refl _,rfl,rfl⟩
  | tcpDest d => exact .tcpDest ⟨rfl,fun _ => .refl _⟩

theorem Twin.symm (h : c.Twin c') : c'.Twin c := by
  cases h with
  | mcu h => exact .mcu h.symm
  | pty h => exact .pty h.symm
  | tcpSource h => exact .tcpSource h.symm
  | tcpDest h => exact .tcpDest h.symm

/-- Channels that are alike stay so under every call, and do the same to the outside. -/
theorem apply_twin (h : c.Twin c') (call : Call) :
    (c.apply call).1.Twin (c'.apply call).1 ∧ (c.apply call).2=(c'.apply call).2 := by
  cases h with
  | mcu h =>
    obtain ⟨hc,he⟩ := McuChannel.apply_twin h call
    exact ⟨.mcu hc,he⟩
  | pty h =>
    obtain ⟨hc,he⟩ := PtyChannel.apply_twin h call
    exact ⟨.pty hc,he⟩
  | tcpSource h =>
    obtain ⟨hc,he⟩ := TcpSourceChannel.apply_twin h call
    exact ⟨.tcpSource hc,he⟩
  | tcpDest h =>
    obtain ⟨hc,he⟩ := TcpDestChannel.apply_twin h call
    exact ⟨.tcpDest hc,he⟩

/-- The calls of backpressure. -/
def Pauses (call : Call) : Prop :=
  call.op=.pauseSourceReads ∨ call.op=.resumeSourceReads

/-- One of two channels may be paused or resumed. -/
theorem paused_twin {call : Call} (hp : Pauses call) (h : c.Twin c') :
    (c.apply call).1.Twin c' := by
  obtain ⟨op,io⟩ := call
  cases h with
  | mcu h =>
    rcases hp with rfl|rfl
    · exact .mcu ((McuChannel.setPaused_twin _).1.trans h)
    · exact .mcu ((McuChannel.setPaused_twin _).2.trans h)
  | pty h =>
    rcases hp with rfl|rfl
    · exact .pty ((PtyChannel.setPaused_twin _).1.trans h)
    · exact .pty ((PtyChannel.setPaused_twin _).2.trans h)
  | tcpSource h =>
    rcases hp with rfl|rfl
    · exact .tcpSource (TcpSourceChannel.setPaused_twin h true)
    · exact .tcpSource (TcpSourceChannel.setPaused_twin h false)
  | tcpDest h =>
    rcases hp with rfl|rfl
    · exact .tcpDest (TcpDestChannel.setPaused_twin h true)
    · exact .tcpDest (TcpDestChannel.setPaused_twin h false)

/-- A process that starts again forgets the pause. -/
theorem fresh_twin (h : c.Twin c') (io : Io) : c.fresh io=c'.fresh io := by
  cases h with
  | mcu h =>
    obtain ⟨w,b,rfl⟩ := h
    rfl
  | pty h =>
    obtain ⟨w,b,rfl⟩ := h
    rfl
  | tcpSource h => exact congrArg (fun id => DynChannel.tcpSource (.new id)) h.chId
  | tcpDest h => exact congrArg (fun id => DynChannel.tcpDest (.new id)) h.chId

/-- What keeps two channels alike keeps two that may be missing. -/
theorem Twin.lift {f g : DynChannel → DynChannel}
    (hfg : ∀c c' : DynChannel,c.Twin c' → (f c).Twin (g c')) {c c' : Option DynChannel}
    (h : Option.Rel Twin c c') : Option.Rel Twin (c.map f) (c'.map g) := by
  cases h with
  | none => exact .none
  | some h => exact .some (hfg _ _ h)

end DynChannel

namespace ChannelMap

/-- The same ids, with channels that are alike. -/
structure Twin (m m' : ChannelMap) : Prop where
  keys : m.keys=m'.keys
  get : ∀id,Option.Rel DynChannel.Twin (m.get id) (m'.get id)

variable {m m' : ChannelMap}

theorem Twin.refl (m : ChannelMap) : m.Twin m := by
  refine ⟨rfl,fun id => ?_⟩
  cases m.get id with
  | none => exact .none
  | some c => exact .some (.refl c)

theorem Twin.symm (h : m.Twin m') : m'.Twin m := by
  refine ⟨h.keys.symm,fun id => ?_⟩
  have hc := h.get id
  generalize m.get id=c at hc
  generalize m'.get id=c' at hc
  cases hc with
  | none => exact .none
  | some h => exact .some h.symm

theorem Twin.frames (h : m.Twin m') (id : UInt8) (call : Call) :
    m.frames id call=m'.frames id call := by
  have hc := h.get id
  unfold ChannelMap.frames
  generalize m.get id=c at hc
  generalize m'.get id=c' at hc
  cases hc with
  | none => rfl
  | some h => exact congrArg Effect.frames (DynChannel.apply_twin h call).2

theorem Twin.set (h : m.Twin m') (id : UInt8) (call : Call) :
    (m.set id call).Twin (m'.set id call) := by
  refine ⟨h.keys,fun j => ?_⟩
  by_cases hj : j=id
  · subst hj
    rw [set_get_self,set_get_self]
    exact DynChannel.Twin.lift (fun _ _ h => (DynChannel.apply_twin h call).1) (h.get j)
  · rw [set_get_other _ _ hj,set_get_other _ _ hj]
    exact h.get j

theorem Twin.fresh (h : m.Twin m') (ios : UInt8 → Io) : (m.fresh ios).Twin (m'.fresh ios) :=
  ⟨h.keys,fun id => DynChannel.Twin.lift
    (fun _ _ h => DynChannel.fresh_twin h (ios id) ▸ .refl _) (h.get id)⟩

end ChannelMap

end Serialmux.Channel

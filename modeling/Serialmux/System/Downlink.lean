import Serialmux.System.Handshake
import Serialmux.System.Uplink

namespace Serialmux.System

open Framework Protocol Channel EventLoop

/-- The bytes that frames carry to channel `id`. -/
def dataFor (id : UInt8) (fs : List Frame) : List UInt8 :=
  (fs.filter (fun f => f.ftype==fData && f.channel==id)).flatMap Frame.payload

section Data

variable {id : UInt8}

@[simp] theorem dataFor_nil : dataFor id []=[] := rfl

@[simp] theorem dataFor_append (fs gs : List Frame) :
    dataFor id (fs++gs)=dataFor id fs++dataFor id gs := by
  simp [dataFor]

theorem dataFor_cons (f : Frame) (fs : List Frame) :
    dataFor id (f::fs)=
      (if f.ftype=fData ∧ f.channel=id then f.payload else [])++dataFor id fs := by
  by_cases h : f.ftype=fData ∧ f.channel=id
  · simp [dataFor,h]
  · have hf : (f.ftype==fData && f.channel==id)=false := by simpa using h
    simp [dataFor,h,hf]

theorem dataFor_other {j : UInt8} {fs : List Frame} (h : ∀f∈fs,ChannelFrame j f) (hj : j≠id) :
    dataFor id fs=[] := by
  have hnone : fs.filter (fun f => f.ftype==fData && f.channel==id)=[] := by
    rw [List.filter_eq_nil_iff]
    intro f hf
    simp [(h f hf).channel,hj]
  rw [dataFor,hnone]
  rfl

theorem dataFor_control {ftype : UInt8} (h : isControl ftype=true) :
    dataFor id [Daemon.controlFrame ftype]=[] := by
  have hne : ftype≠fData := by
    rintro rfl
    exact absurd h (by decide)
  simp [dataFor,Daemon.controlFrame,hne]

theorem dataFor_drop (n : Nat) (fs : List Frame) :
    List.Sublist (dataFor id (fs.drop n)) (dataFor id fs) := by
  conv_rhs => rw [← List.take_append_drop n fs,dataFor_append]
  exact List.sublist_append_right _ _

end Data

theorem mcu_updateInterest_txbuf (c : McuChannel) : c.updateInterest.txbuf=c.txbuf := by
  unfold McuChannel.updateInterest
  split <;> rfl

/-- Bytes for the UART leave the buffer in order, or a write error throws them away. -/
theorem uartDrain_delivers (c : McuChannel) (io : Io) :
    (c.uartDrain io).2.wrote++(c.uartDrain io).1.txbuf=c.txbuf ∨
      io.write=.error ∧ (c.uartDrain io).2.wrote++(c.uartDrain io).1.txbuf=[] := by
  unfold McuChannel.uartDrain
  split
  · exact .inl rfl
  · split_ifs
    · exact .inl rfl
    · simp only [mcu_updateInterest_txbuf]
      cases io.write with
      | wrote n => exact .inl (List.take_append_drop n c.txbuf)
      | again => exact .inl rfl
      | error => exact .inr ⟨rfl,rfl⟩

/-- A read of the UART leaves the buffer alone, unless it ends in a reset. -/
theorem uartRead_txbuf (c : McuChannel) (io : Io) :
    (c.uartRead io).2.wrote=[] ∧ ((c.uartRead io).1.txbuf=c.txbuf ∨
      (c.uartRead io).1.txbuf=[] ∧ (c.uartRead io).1.state≠.active) := by
  have hawait : ∀(c : McuChannel) (data : List UInt8),(c.awaitSync data).1.txbuf=c.txbuf := by
    intro c data
    unfold McuChannel.awaitSync
    split
    · rfl
    · by_cases ha : c.state=.active
      · simp [McuChannel.transition,ha]
      · rw [McuChannel.transition_active ha]
  unfold McuChannel.uartRead
  split
  · exact ⟨rfl,.inl rfl⟩
  · split
    · exact ⟨rfl,.inl rfl⟩
    · exact ⟨rfl,.inl rfl⟩
    · dsimp only
      split
      · exact ⟨rfl,.inl (hawait _ _)⟩
      · exact ⟨rfl,.inl (hawait _ _)⟩
      · exact ⟨rfl,.inl rfl⟩
    · by_cases hr : c.state=.resetting
      · simp [McuChannel.transition,McuChannel.closeUart,hr]
      · simp [McuChannel.transition,McuChannel.closeUart,Ne.symm hr]

/-- An event of the UART loses bytes only by a write error or a reset. -/
theorem handleEvent_delivers (c : McuChannel) (readable writable : Bool) (io : Io) :
    (c.handleEvent readable writable io).2.wrote++(c.handleEvent readable writable io).1.txbuf=
        c.txbuf ∨
      List.Sublist ((c.handleEvent readable writable io).2.wrote++
          (c.handleEvent readable writable io).1.txbuf) c.txbuf ∧
        (io.write=.error ∨ (c.handleEvent readable writable io).1.state≠.active) := by
  have hdrain : ∀{c₁ : McuChannel} {e₁ : Effect},
      (e₁.wrote=[] ∧ (c₁.txbuf=c.txbuf ∨ c₁.txbuf=[] ∧ c₁.state≠.active)) →
      (e₁.next (c₁.uartDrain io).2).wrote++(c₁.uartDrain io).1.txbuf=c.txbuf ∨
        List.Sublist ((e₁.next (c₁.uartDrain io).2).wrote++(c₁.uartDrain io).1.txbuf) c.txbuf ∧
          (io.write=.error ∨ (c₁.uartDrain io).1.state≠.active) := by
    rintro c₁ e₁ ⟨he,hb⟩
    obtain ⟨⟨-,hs₂,-⟩,-⟩ := McuChannel.uartDrain_same c₁ io
    rw [Effect.next_wrote,he,List.nil_append,hs₂]
    rcases uartDrain_delivers c₁ io with h|⟨hw,h⟩
    · rw [h]
      rcases hb with hb|⟨hb,hs⟩
      · exact .inl hb
      · exact .inr ⟨by simp [hb],.inr hs⟩
    · rw [h]
      exact .inr ⟨List.nil_sublist _,.inl hw⟩
  have hquiet : Effect.quiet.wrote=[] ∧ (c.txbuf=c.txbuf ∨ c.txbuf=[] ∧ c.state≠.active) :=
    ⟨rfl,.inl rfl⟩
  unfold McuChannel.handleEvent
  cases readable with
  | false =>
    cases writable with
    | false => exact .inl rfl
    | true => exact hdrain hquiet
  | true =>
    cases writable with
    | false =>
      obtain ⟨hw,hb|⟨hb,hs⟩⟩ := uartRead_txbuf c io
      · exact .inl (by simp [hw,hb])
      · exact .inr ⟨by simp [hw,hb],.inr hs⟩
    | true => exact hdrain (uartRead_txbuf c io)

/-- A DATA frame joins the buffer, if there is an active UART to take it. -/
theorem onFrame_delivers (c : McuChannel) (ftype : UInt8) (payload : List UInt8) (io : Io) :
    (c.onFrame ftype payload io).2.wrote++(c.onFrame ftype payload io).1.txbuf=
        c.txbuf++(if ftype=fData then payload else []) ∨
      List.Sublist ((c.onFrame ftype payload io).2.wrote++(c.onFrame ftype payload io).1.txbuf)
          (c.txbuf++(if ftype=fData then payload else [])) ∧
        (io.write=.error ∨ c.fd=none ∨ c.state≠.active) := by
  by_cases hd : ftype=fData
  · by_cases hshut : c.fd=none ∨ c.state≠.active
    · right
      simp only [McuChannel.onFrame,if_pos hd,if_pos hshut]
      exact ⟨List.sublist_append_left _ _,.inr hshut⟩
    · simp only [McuChannel.onFrame,if_pos hd,if_neg hshut]
      rcases uartDrain_delivers {c with txbuf := c.txbuf++payload} io with h|⟨he,h⟩
      · exact .inl h
      · rw [h]
        exact .inr ⟨List.nil_sublist _,.inl he⟩
  · left
    simp [McuChannel.onFrame,hd]

/-- Timers and backpressure write nothing, and they clear the buffer only with a reset. -/
theorem still_delivers (c : McuChannel) {call : Call} (hc : Still call) :
    (c.apply call).2.wrote=[] ∧ ((c.apply call).1.txbuf=c.txbuf ∨
      (c.apply call).1.txbuf=[] ∧ (c.apply call).1.state≠.active) := by
  obtain ⟨op,io⟩ := call
  cases op with
  | tick now =>
    simp only [McuChannel.apply,McuChannel.tick]
    split
    · split
      · exact ⟨rfl,.inl rfl⟩
      · split_ifs
        · refine ⟨rfl,.inl ?_⟩
          unfold McuChannel.openUart
          split
          · exact mcu_updateInterest_txbuf _
          · rfl
        · exact ⟨rfl,.inl rfl⟩
    · split
      · next last ha _ =>
        split_ifs
        · have hne : c.state≠.resetting := by
            rw [ha]
            decide
          rw [McuChannel.transition_resetting hne]
          exact ⟨rfl,.inr ⟨rfl,by simp⟩⟩
        · exact ⟨rfl,.inl rfl⟩
      · exact ⟨rfl,.inl rfl⟩
  | pauseSourceReads =>
    simp only [McuChannel.apply,McuChannel.pauseSourceReads]
    split_ifs
    · exact ⟨rfl,.inl rfl⟩
    · exact ⟨rfl,.inl (mcu_updateInterest_txbuf _)⟩
  | resumeSourceReads =>
    simp only [McuChannel.apply,McuChannel.resumeSourceReads]
    split_ifs
    · exact ⟨rfl,.inl (mcu_updateInterest_txbuf _)⟩
    · exact ⟨rfl,.inl rfl⟩
  | onFrame | onLinkConnect | onLinkDisconnect | handleEvent => exact hc.elim

/-- In a turn of the exporter the UART has taken `w`: what has not reached it yet is what was there
and `bs`, or less where the channel was reset, the link closed, or `bad`. -/
def Delivers (id : UInt8) (all : List UInt8) (bad : Prop) (w : List UInt8)
    (d : Daemon (List Frame)) : Prop :=
  ∃m,d.channels.get id=some (.mcu m) ∧ (w++m.txbuf=all ∨
    List.Sublist (w++m.txbuf) all ∧ (d.linkFd=none ∨ m.state≠.active ∨ bad))

namespace Delivers

variable {id : UInt8} {all w : List UInt8} {bad : Prop} {d : Daemon (List Frame)}

theorem mono {bad' : Prop} (hbad : bad → bad') (h : Delivers id all bad w d) :
    Delivers id all bad' w d := by
  obtain ⟨m,hm,hall⟩ := h
  refine ⟨m,hm,hall.imp_right ?_⟩
  rintro ⟨h,hfd|hs|hb⟩
  · exact ⟨h,.inl hfd⟩
  · exact ⟨h,.inr (.inl hs)⟩
  · exact ⟨h,.inr (.inr (hbad hb))⟩

theorem kept : Daemon.Kept fifoLink (fun _ c => Still c) (Delivers id all bad w) where
  core := by
    intro d d' h hc _ _ _ hfd _
    unfold Delivers
    rw [hc,hfd]
    exact h
  call := by
    intro d j c hc h
    obtain ⟨m,hm,hall⟩ := h
    by_cases hj : id=j
    · subst hj
      have hstill : ∀token readable writable,c.op≠.handleEvent token readable writable := by
        intro token readable writable hop
        rw [Still,hop] at hc
        exact hc
      have hrests := m.apply_rests hstill
      obtain ⟨-,hbuf⟩ := still_delivers m hc
      refine ⟨(m.apply c).1,by simp [Daemon.callChannel,hm,DynChannel.apply],?_⟩
      rcases hbuf with hb|⟨hb,hs⟩
      · rw [hb]
        rcases hall with h|⟨h,hfd|hs|hbad⟩
        · exact .inl h
        · exact .inr ⟨h,.inl hfd⟩
        · exact .inr ⟨h,.inr (.inl (fun ha => hs (hrests.2 ha)))⟩
        · exact .inr ⟨h,.inr (.inr hbad)⟩
      · right
        rw [hb,List.append_nil]
        refine ⟨?_,.inr (.inl hs)⟩
        rcases hall with h|⟨h,-⟩
        · rw [← h]
          exact List.sublist_append_left _ _
        · exact (List.sublist_append_left _ _).trans h
    · exact ⟨m,(ChannelMap.set_get_other _ _ hj).trans hm,hall⟩
  pause _ := trivial
  resume _ := trivial

/-- The buffer is cleared with the link. -/
theorem closed {now : Instant} (h : Delivers id all bad w d) :
    Delivers id all bad w (Daemon.closeLink fifoLink d now) := by
  by_cases hd : d.disconnected=true
  · rw [Daemon.closeLink,if_pos hd]
    exact h
  · obtain ⟨m,hm,hall⟩ := h
    obtain ⟨-,-,hfd,hget⟩ := Daemon.closeLink_get fifoLink (by simpa using hd) now
    obtain ⟨c,hc,hres⟩ := hget id _ hm
    have hmcu : ∃m' : McuChannel,c=.mcu m' := by
      rcases hres with rfl|rfl
      · exact ⟨m,rfl⟩
      · exact ⟨_,rfl⟩
    obtain ⟨m',rfl⟩ := hmcu
    have hbuf : m'.onLinkDisconnect.1.txbuf=[] := mcu_updateInterest_txbuf _
    refine ⟨m'.onLinkDisconnect.1,hc,.inr ⟨?_,.inl hfd⟩⟩
    rw [hbuf,List.append_nil]
    rcases hall with h|⟨h,-⟩
    · rw [← h]
      exact List.sublist_append_left _ _
    · exact (List.sublist_append_left _ _).trans h

theorem ping {now : Instant} (h : Delivers id all bad w d) :
    Delivers id all bad w (Daemon.enqueueFrame fifoLink d now (Daemon.controlFrame fPing)) := by
  rcases Daemon.enqueueFrame_fifo d now fPing with ⟨he,-⟩|⟨b,he⟩
  · rw [he]
    exact h
  · rw [he]
    exact h

theorem openLink {m : McuChannel} (hm : d.channels.get id=some (.mcu m)) {now : Instant}
    {dev : Option RawFd} :
    Delivers id m.txbuf bad [] (Daemon.openLink fifoLink d now dev) := by
  cases dev with
  | none => exact ⟨m,hm,.inl rfl⟩
  | some fd => exact ⟨m,hm,.inl rfl⟩

/-- A turn of the exporter by itself. -/
theorem turn {m : McuChannel} (hm : d.channels.get id=some (.mcu m))
    (op : DaemonOp (Option Nat)) {w : List UInt8}
    (hevent : ∀now token readable writable io,op=.event now token readable writable io →
      Delivers id m.txbuf bad w (Daemon.channelEvent fifoLink d now token readable writable io))
    (hquiet : (∀now token readable writable io,op≠.event now token readable writable io) → w=[]) :
    Delivers id m.txbuf bad w (d.turn fifoLink op) := by
  have hstart : Delivers id m.txbuf bad [] d := ⟨m,hm,.inl rfl⟩
  cases op with
  | event now token readable writable io => exact hevent _ _ _ _ _ rfl
  | start now dev =>
    rw [hquiet (by simp)]
    simp only [Daemon.turn]
    split_ifs
    · exact openLink hm
    · exact hstart
  | head now later dev ios =>
    rw [hquiet (by simp)]
    exact kept.loopHead (fun _ => trivial) hstart (fun _ => openLink hm) (fun _ h => h.closed)
      (fun _ h => h.ping)
  | send now n =>
    rw [hquiet (by simp)]
    have hdrained : Delivers id m.txbuf bad [] {d with txq := (fifoLink.drain d.txq n).1} := hstart
    exact kept.linkWrite (fun _ => hstart) hdrained hdrained.closed
  | readError now =>
    rw [hquiet (by simp)]
    simp only [Daemon.turn]
    split_ifs
    · exact hstart
    · exact hstart.closed
  | restart now ios =>
    rw [hquiet (by simp)]
    have hbuf : (McuChannel.new m.chId (ios id)).txbuf=[] := by
      unfold McuChannel.new McuChannel.openUart
      split
      · exact mcu_updateInterest_txbuf _
      · rfl
    refine ⟨.new m.chId (ios id),?_,.inr ⟨?_,.inl rfl⟩⟩
    · simp [Daemon.turn,Daemon.new,ChannelMap.fresh,hm,DynChannel.fresh]
    · rw [hbuf]
      exact List.nil_sublist _

/-- An event of some fd. -/
theorem event {m : McuChannel} (hm : d.channels.get id=some (.mcu m)) {now : Instant}
    {token : Token} {readable writable : Bool} {io : Io} :
    Delivers id m.txbuf (io.write=.error)
      (occurrence id d.channels token readable writable io).wrote
      (Daemon.channelEvent fifoLink d now token readable writable io) := by
  unfold Daemon.channelEvent occurrence
  cases htoken : channelIdForToken token with
  | none => exact ⟨m,hm,.inl rfl⟩
  | some j =>
    apply kept.touch
    apply kept.checkBpHigh
    by_cases hj : j=id
    · subst hj
      have heffect : effect j d.channels ⟨.handleEvent token readable writable,io⟩=
          (m.handleEvent readable writable io).2 := by
        simp [effect,hm,DynChannel.apply,McuChannel.apply]
      rw [if_pos rfl,heffect]
      refine ⟨(m.handleEvent readable writable io).1,
        by simp [Daemon.callChannel,hm,DynChannel.apply,McuChannel.apply],?_⟩
      rcases handleEvent_delivers m readable writable io with h|⟨h,hw|hs⟩
      · exact .inl h
      · exact .inr ⟨h,.inr (.inr hw)⟩
      · exact .inr ⟨h,.inr (.inl hs)⟩
    · refine ⟨m,(ChannelMap.set_get_other _ _ (Ne.symm hj)).trans hm,.inl ?_⟩
      simp [hj]

/-- The arrival of a frame, whatever it is. -/
theorem dispatch {m : McuChannel} (hm : d.channels.get id=some (.mcu m)) (now : Instant) (io : Io)
    (f : Frame) :
    Delivers id (m.txbuf++dataFor id [f]) (io.write=.error ∨ m.fd=none ∨ m.state≠.active)
      (arrival id d f io).wrote (Daemon.dispatchFrame fifoLink d now io f) := by
  have hnone : isControl f.ftype=true → dataFor id [f]=[] ∧ (arrival id d f io).wrote=[] := by
    intro hc
    have hne : f.ftype≠fData := by
      intro h
      rw [h] at hc
      exact absurd hc (by decide)
    simp [dataFor_cons,hne,arrival,hc]
  have hsame : isControl f.ftype=true → ∀d' : Daemon (List Frame),
      d'.channels.get id=some (.mcu m) →
      Delivers id (m.txbuf++dataFor id [f]) (io.write=.error ∨ m.fd=none ∨ m.state≠.active)
        (arrival id d f io).wrote d' := by
    intro hc d' hm'
    obtain ⟨hb,hw⟩ := hnone hc
    exact ⟨m,hm',.inl (by simp [hb,hw])⟩
  have hconnect : isControl f.ftype=true → ∀d' : Daemon (List Frame),
      d'.channels.get id=some (.mcu m) →
      Delivers id (m.txbuf++dataFor id [f]) (io.write=.error ∨ m.fd=none ∨ m.state≠.active)
        (arrival id d f io).wrote (Daemon.connectChannels fifoLink d' now) := by
    intro hc d' hm'
    obtain ⟨hb,hw⟩ := hnone hc
    obtain ⟨channels,b,hd,-,hget⟩ := Daemon.connectChannels_fifo d' now
    rw [hd]
    refine ⟨m.onLinkConnect.1,?_,.inl (by simp [hb,hw,McuChannel.onLinkConnect])⟩
    simp [hget,hm',DynChannel.apply,McuChannel.apply]
  have henqueue : ∀ftype,(Daemon.enqueueFrame fifoLink d now
      (Daemon.controlFrame ftype)).channels.get id=some (.mcu m) := by
    intro ftype
    rcases Daemon.enqueueFrame_fifo d now ftype with ⟨he,-⟩|⟨b,he⟩ <;> rw [he] <;> exact hm
  apply Daemon.dispatchFrame_induct
  · intro hp
    exact hsame (by simp [isControl,hp]) _ (henqueue _)
  · intro hp
    exact hsame (by simp [isControl,hp]) _ hm
  · intro hh
    exact hconnect (by simp [isControl,hh]) _ (henqueue _)
  · intro ha _
    exact hsame (by simp [isControl,ha]) _ hm
  · intro ha _
    exact hconnect (by simp [isControl,ha]) _ hm
  · intro hr
    refine kept.touch now ?_
    change Delivers id _ _ (arrival id d f io).wrote
      (Daemon.callChannel fifoLink (beforeRoute d f) f.channel ⟨.onFrame f.ftype f.payload,io⟩)
    have hpaused : ∃m',(beforeRoute d f).channels.get id=some (.mcu m') ∧ m'.txbuf=m.txbuf ∧
        m'.fd=m.fd ∧ m'.state=m.state := by
      rcases (beforeRoute_get id d f).2 with h|h
      · exact ⟨m,h.trans hm,rfl,rfl,rfl⟩
      · refine ⟨m.pauseSourceReads,by rw [h,hm]; rfl,?_⟩
        unfold McuChannel.pauseSourceReads McuChannel.updateInterest
        split_ifs
        · exact ⟨rfl,rfl,rfl⟩
        · split <;> exact ⟨rfl,by simp_all,rfl⟩
    obtain ⟨m',hm',hbuf,hfd,hs⟩ := hpaused
    by_cases hj : f.channel=id
    · subst hj
      have heffect : arrival f.channel d f io=(m'.onFrame f.ftype f.payload io).2 := by
        simp [arrival,hr,effect,hm',DynChannel.apply,McuChannel.apply]
      have hdata : dataFor f.channel [f]=if f.ftype=fData then f.payload else [] := by
        simp [dataFor_cons]
      rw [heffect,hdata,← hbuf,← hfd,← hs]
      refine ⟨(m'.onFrame f.ftype f.payload io).1,
        by simp [Daemon.callChannel,hm',DynChannel.apply,McuChannel.apply],?_⟩
      rcases onFrame_delivers m' f.ftype f.payload io with h|⟨h,hbad⟩
      · exact .inl h
      · exact .inr ⟨h,.inr (.inr hbad)⟩
    · refine ⟨m',(ChannelMap.set_get_other _ _ (Ne.symm hj)).trans hm',.inl ?_⟩
      simp [arrival,hj,dataFor_cons,hbuf]

end Delivers

/-- In a turn of the host the frames that it has put on the link and those that wait carry `all` to
channel `id`, or less where the link was closed, or `bad`. -/
def Submits (id : UInt8) (sent : List Frame) (all : List UInt8) (bad : Prop)
    (d : Daemon (List Frame)) : Prop :=
  ∃q,d.channels.get id=some (.pty q) ∧ (dataFor id (sent++d.txq)=all ∨
    List.Sublist (dataFor id (sent++d.txq)) all ∧ (d.linkFd=none ∨ bad))

/-- Whatever a PTY reads, it sends on. -/
theorem pty_sends (q : PtyChannel) (c : Call) :
    dataFor q.chId (q.apply c).2.frames=(q.apply c).2.read := by
  rcases q.apply_frames c with h|⟨-,h⟩
  · rw [h]
    rfl
  · simp [h,dataFor_cons]

namespace Submits

variable {id : UInt8} {sent : List Frame} {all : List UInt8} {bad : Prop} {d : Daemon (List Frame)}

theorem pty (h : Submits id sent all bad d) : ∃q,d.channels.get id=some (.pty q) :=
  h.imp (fun _ h => h.1)

/-- Frames that carry nothing to the channel. -/
theorem append {d' : Daemon (List Frame)} {fs : List Frame} (h : Submits id sent all bad d)
    (hget : ∃q,d'.channels.get id=some (.pty q)) (hfd : d'.linkFd=d.linkFd)
    (hq : d'.txq=d.txq++fs) (hfs : dataFor id fs=[]) : Submits id sent all bad d' := by
  obtain ⟨q,hq'⟩ := hget
  obtain ⟨-,-,hall⟩ := h
  refine ⟨q,hq',?_⟩
  rw [hfd,hq,← List.append_assoc,dataFor_append,hfs,List.append_nil]
  exact hall

/-- The queue is cleared. -/
theorem cleared {d' : Daemon (List Frame)} (h : Submits id sent all bad d)
    (hget : ∃q,d'.channels.get id=some (.pty q)) (hbad : d'.linkFd=none ∨ bad)
    (hq : dataFor id d'.txq=[]) : Submits id sent all bad d' := by
  obtain ⟨q,hq'⟩ := hget
  obtain ⟨-,-,hall⟩ := h
  refine ⟨q,hq',.inr ⟨?_,hbad⟩⟩
  rw [dataFor_append,hq,List.append_nil]
  rcases hall with h|⟨h,-⟩
  · rw [← h,dataFor_append]
    exact List.sublist_append_left _ _
  · rw [dataFor_append] at h
    exact (List.sublist_append_left _ _).trans h

theorem call {j : UInt8} {c : Call} (hc : ∀q,d.channels.get id=some (.pty q) → j=id →
    (q.apply c).2.read=[]) (h : Submits id sent all bad d) :
    Submits id sent all bad (Daemon.callChannel fifoLink d j c) := by
  obtain ⟨q,hq⟩ := h.pty
  have hget : ∃q',(Daemon.callChannel fifoLink d j c).channels.get id=some (.pty q') := by
    by_cases hj : id=j
    · subst hj
      exact ⟨(q.apply c).1,by simp [Daemon.callChannel,hq,DynChannel.apply]⟩
    · exact ⟨q,(ChannelMap.set_get_other _ _ hj).trans hq⟩
  refine h.append hget rfl (Daemon.callChannel_txq d j c) ?_
  by_cases hj : j=id
  · subst hj
    have hid : q.chId=j := d.channels.ids j _ hq
    have hframes : d.channels.frames j c=(q.apply c).2.frames := by
      simp [ChannelMap.frames,hq,DynChannel.apply]
    rw [hframes,← hid,pty_sends,hc q hq rfl]
  · exact dataFor_other (d.channels.frames_channelFrame j c) hj

theorem kept : Daemon.Kept fifoLink (fun _ c => Still c) (Submits id sent all bad) where
  core := by
    intro d d' h hc hq _ _ hfd _
    unfold Submits
    rw [hc,hq,hfd]
    exact h
  call := by
    intro d j c hc h
    refine h.call ?_
    intro q _ _
    obtain ⟨op,io⟩ := c
    cases op with
    | tick | pauseSourceReads | resumeSourceReads => rfl
    | onFrame | onLinkConnect | onLinkDisconnect | handleEvent => exact hc.elim
  pause _ := trivial
  resume _ := trivial

theorem closed {now : Instant} (h : Submits id sent all bad d) :
    Submits id sent all bad (Daemon.closeLink fifoLink d now) := by
  by_cases hd : d.disconnected=true
  · rw [Daemon.closeLink,if_pos hd]
    exact h
  · have hdis : d.disconnected=false := by simpa using hd
    obtain ⟨q,hq⟩ := h.pty
    obtain ⟨-,-,hfd,hget⟩ := Daemon.closeLink_get fifoLink hdis now
    obtain ⟨c,hc,hres⟩ := hget id _ hq
    have hpty : ∃q' : PtyChannel,c=.pty q' := by
      rcases hres with rfl|rfl
      · exact ⟨q,rfl⟩
      · exact ⟨_,rfl⟩
    obtain ⟨q',rfl⟩ := hpty
    refine h.cleared ⟨_,hc⟩ (.inl hfd) ?_
    rw [Daemon.closeLink_txq fifoLink hdis now]
    rfl

theorem ping {now : Instant} (h : Submits id sent all bad d) :
    Submits id sent all bad (Daemon.enqueueFrame fifoLink d now (Daemon.controlFrame fPing)) := by
  obtain ⟨q,hq⟩ := h.pty
  rcases Daemon.enqueueFrame_fifo d now fPing with ⟨he,-⟩|⟨b,he⟩
  · rw [he]
    exact h
  · rw [he]
    exact h.append ⟨q,hq⟩ rfl rfl (dataFor_control rfl)

theorem openLink {now : Instant} {dev : Option RawFd} (hbad : bad)
    (h : Submits id sent all bad d) :
    Submits id sent all bad (Daemon.openLink fifoLink d now dev) := by
  obtain ⟨q,hq⟩ := h.pty
  cases dev with
  | none => exact h
  | some fd =>
    refine h.cleared ⟨q,hq⟩ (.inr hbad) ?_
    have hhello : (Daemon.openLink fifoLink d now (some fd)).txq=[Daemon.controlFrame fHello] := by
      simp [Daemon.openLink,fifoLink,Daemon.controlFrame]
    rw [hhello]
    exact dataFor_control rfl

/-- An event of some fd: what the PTY reads is queued. -/
theorem event {q : PtyChannel} (hq : d.channels.get id=some (.pty q)) {now : Instant}
    {token : Token} {readable writable : Bool} {io : Io} :
    Submits id [] (dataFor id d.txq++
        (occurrence id d.channels token readable writable io).read) bad
      (Daemon.channelEvent fifoLink d now token readable writable io) := by
  unfold Daemon.channelEvent occurrence
  cases htoken : channelIdForToken token with
  | none => exact ⟨q,hq,.inl (by simp)⟩
  | some j =>
    apply kept.touch
    apply kept.checkBpHigh
    by_cases hj : j=id
    · subst hj
      have hid : q.chId=j := d.channels.ids j _ hq
      have hframes : d.channels.frames j ⟨.handleEvent token readable writable,io⟩=
          (q.apply ⟨.handleEvent token readable writable,io⟩).2.frames := by
        simp [ChannelMap.frames,hq,DynChannel.apply]
      have heffect : effect j d.channels ⟨.handleEvent token readable writable,io⟩=
          (q.apply ⟨.handleEvent token readable writable,io⟩).2 := by
        simp [effect,hq,DynChannel.apply]
      refine ⟨(q.apply ⟨.handleEvent token readable writable,io⟩).1,
        by simp [Daemon.callChannel,hq,DynChannel.apply],.inl ?_⟩
      rw [Daemon.callChannel_txq,List.nil_append,dataFor_append,hframes,if_pos rfl,heffect,
        ← pty_sends q,hid]
    · refine ⟨q,(ChannelMap.set_get_other _ _ (Ne.symm hj)).trans hq,.inl ?_⟩
      have hother := dataFor_other (d.channels.frames_channelFrame j
        ⟨.handleEvent token readable writable,io⟩) hj
      rw [Daemon.callChannel_txq,List.nil_append,dataFor_append,hother]
      simp [hj]

/-- A turn of the host by itself; a closed link may be opened anew. -/
theorem turn {q : PtyChannel} (hq : d.channels.get id=some (.pty q)) (op : DaemonOp (Option Nat))
    {bs : List UInt8}
    (hevent : ∀now token readable writable io,op=.event now token readable writable io →
      Submits id [] (dataFor id d.txq++bs) (d.disconnected=true)
        (Daemon.channelEvent fifoLink d now token readable writable io))
    (hquiet : (∀now token readable writable io,op≠.event now token readable writable io) → bs=[]) :
    Submits id (d.puts op) (dataFor id d.txq++bs) (d.disconnected=true) (d.turn fifoLink op) := by
  have hstart : Submits id [] (dataFor id d.txq) (d.disconnected=true) d := ⟨q,hq,.inl rfl⟩
  cases op with
  | event now token readable writable io => exact hevent _ _ _ _ _ rfl
  | start now dev =>
    rw [hquiet (by simp),List.append_nil]
    simp only [Daemon.turn,Daemon.puts]
    split_ifs with hd
    · exact hstart.openLink hd
    · exact hstart
  | head now later dev ios =>
    rw [hquiet (by simp),List.append_nil]
    exact kept.loopHead (fun _ => trivial) hstart hstart.openLink (fun _ h => h.closed)
      (fun _ h => h.ping)
  | send now w =>
    rw [hquiet (by simp),List.append_nil]
    by_cases hfd : d.linkFd=none
    · have hsame : d.turn fifoLink (.send now w)=d := if_pos hfd
      have hnone : d.puts (.send now w)=[] := if_pos hfd
      rw [hsame,hnone]
      exact hstart
    · have hputs : d.puts (.send now w)=d.txq.take (w.getD 0) := if_neg hfd
      have hdrained : Submits id (d.puts (.send now w)) (dataFor id d.txq) (d.disconnected=true)
          {d with txq := (fifoLink.drain d.txq w).1} := by
        refine ⟨q,hq,.inl ?_⟩
        rw [hputs,Daemon.drain_append]
      exact kept.linkWrite (fun hn => absurd hn hfd) hdrained hdrained.closed
  | readError now =>
    rw [hquiet (by simp),List.append_nil]
    simp only [Daemon.turn,Daemon.puts]
    split_ifs
    · exact hstart
    · exact hstart.closed
  | restart now ios =>
    rw [hquiet (by simp),List.append_nil]
    refine hstart.cleared ⟨.new q.chId,?_⟩ (.inl rfl) rfl
    simp [Daemon.turn,Daemon.new,ChannelMap.fresh,hq,DynChannel.fresh]

/-- The arrival of a frame: no PTY reads for it. -/
theorem dispatch {q : PtyChannel} (hq : d.channels.get id=some (.pty q)) (now : Instant) (io : Io)
    (f : Frame) :
    Submits id [] (dataFor id d.txq++(arrival id d f io).read) bad
      (Daemon.dispatchFrame fifoLink d now io f) := by
  have hpaused : ∃q',(beforeRoute d f).channels.get id=some (.pty q') := by
    rcases (beforeRoute_get id d f).2 with h|h
    · exact ⟨q,h.trans hq⟩
    · exact ⟨_,by rw [h,hq]; rfl⟩
  have hframe : ∀q : PtyChannel,(q.apply ⟨.onFrame f.ftype f.payload,io⟩).2.read=[] := by
    intro q
    simp only [PtyChannel.apply,PtyChannel.onFrame]
    split_ifs
    · rfl
    · rfl
    · split
      · rfl
      · exact (PtyChannel.ptyDrain_kept _ io).2.2.2
    · rfl
  have hread : (arrival id d f io).read=[] := by
    unfold arrival
    split_ifs
    · rfl
    · obtain ⟨q',hq'⟩ := hpaused
      simp only [effect,hq',DynChannel.apply]
      exact hframe q'
  rw [hread,List.append_nil]
  have hstart : Submits id [] (dataFor id d.txq) bad d := ⟨q,hq,.inl rfl⟩
  have hanswer : ∀{ftype},isControl ftype=true → Submits id [] (dataFor id d.txq) bad
      (Daemon.enqueueFrame fifoLink d now (Daemon.controlFrame ftype)) := by
    intro ftype hc
    rcases Daemon.enqueueFrame_fifo d now ftype with ⟨he,-⟩|⟨b,he⟩
    · rw [he]
      exact hstart
    · rw [he]
      exact hstart.append ⟨q,hq⟩ rfl rfl (dataFor_control hc)
  have hconnect : ∀{d' : Daemon (List Frame)},Submits id [] (dataFor id d.txq) bad d' →
      Submits id [] (dataFor id d.txq) bad
        (Daemon.connectChannels fifoLink {d' with linkUp := true} now) := by
    intro d' h
    have hup : Submits id [] (dataFor id d.txq) bad {d' with linkUp := true} := h
    exact kept.touch now (Daemon.eachChannel_induct fifoLink _
      (fun _ _ h => h.call (fun _ _ _ => rfl)) hup)
  apply Daemon.dispatchFrame_induct
  · exact fun _ => hanswer rfl
  · exact fun _ => hstart
  · exact fun _ => hconnect (hanswer rfl)
  · exact fun _ _ => hstart
  · exact fun _ _ => hconnect hstart
  · intro hr
    refine kept.touch now ?_
    have hbefore : Submits id [] (dataFor id d.txq) bad (beforeRoute d f) := by
      unfold beforeRoute
      split_ifs
      · exact kept.checkBpHigh hstart
      · exact hstart
    exact hbefore.call (fun q' _ _ => hframe q')

end Submits

/-- The two sides with what channel `id` has carried to the exporter: the bytes read from the PTY and
those that the UART has taken. -/
structure Downlink where
  pair : Pair
  typed : List UInt8
  told : List UInt8

/-- The UART takes what it is given, or has no room for it. -/
def PairOp.UartTakes : PairOp → Prop
  | .exporter (.own (.event _ _ _ _ io)) => io.write≠.error
  | .exporter (.deliver _ io) => io.write≠.error
  | _ => True

namespace Downlink

variable (id : UInt8)

def step (s : Downlink) (op : PairOp) : Downlink × Unit :=
  match op with
  | .exporter op' =>
    (⟨(s.pair.step op).1,s.typed,s.told++(s.pair.exporter.effectOn id op').wrote⟩,())
  | .host op' => (⟨(s.pair.step op).1,s.typed++(s.pair.host.effectOn id op').read,s.told⟩,())

def new (exporter host : ChannelMap) (now : Instant) : Downlink :=
  ⟨Pair.new exporter host now,[],[]⟩

/-- The bytes for the UART of channel `id` that are still to come, in the order they will. -/
def pending (s : Downlink) : List UInt8 :=
  match s.pair.exporter.daemon.channels.get id with
  | some (.mcu m) => m.txbuf++dataFor id s.pair.towardsExporter
  | _ => []

/-- Whether a channel is a UART that is open and active. -/
def uartActive : DynChannel → Bool
  | .mcu m => m.fd.isSome && m.state==.active
  | _ => false

/-- Both links are open and the UART is active. -/
def Steady (s : Downlink) : Prop :=
  (s.pair.exporter.daemon.linkFd≠none ∧ s.pair.host.daemon.linkFd≠none) ∧
    (s.pair.exporter.daemon.channels.get id).any uartActive=true

instance (s : Downlink) : Decidable (s.Steady id) := instDecidableAnd

/-- A step in the middle of a steady stretch, with a UART that takes what it is given. -/
def Keeps (s : Downlink) (op : PairOp) : Prop :=
  (s.Steady id ∧ (s.step id op).1.Steady id) ∧ op.UartTakes

/-- What a run can rely on: channel `id` is a UART here and a PTY there. -/
structure Wired (s : Downlink) : Prop where
  uart : ∃m,s.pair.exporter.daemon.channels.get id=some (.mcu m)
  pty : ∃q,s.pair.host.daemon.channels.get id=some (.pty q)
  exporterKnown : LinkKnown s.pair.exporter.daemon
  hostKnown : LinkKnown s.pair.host.daemon

variable {id} {s : Downlink}

theorem pending_eq {m : McuChannel}
    (hm : s.pair.exporter.daemon.channels.get id=some (.mcu m)) :
    s.pending id=m.txbuf++dataFor id s.pair.towardsExporter := by
  simp only [pending,hm]

/-- What a turn of the exporter does to the bytes on their way to the UART. -/
theorem exporter_delivers {e : Endpoint} {m : McuChannel} (hk : LinkKnown e.daemon)
    (hm : e.daemon.channels.get id=some (.mcu m)) (op : EndpointOp) :
    ∃m',(e.step op).1.daemon.channels.get id=some (.mcu m') ∧
      ((e.effectOn id op).wrote++m'.txbuf++dataFor id (e.step op).1.incoming=
          m.txbuf++dataFor id e.incoming ∨
        List.Sublist ((e.effectOn id op).wrote++m'.txbuf++dataFor id (e.step op).1.incoming)
            (m.txbuf++dataFor id e.incoming) ∧
          (e.daemon.linkFd=none ∨ (e.step op).1.daemon.linkFd=none ∨ m'.state≠.active ∨
            m.fd=none ∨ m.state≠.active ∨ ¬(PairOp.exporter op).UartTakes)) := by
  cases op with
  | own op =>
    have hturn : Delivers id m.txbuf (¬(PairOp.exporter (.own op)).UartTakes)
        (e.effectOn id (.own op)).wrote (e.daemon.turn fifoLink op) := by
      apply Delivers.turn hm op
      · rintro now token readable writable io rfl
        exact (Delivers.event hm).mono (fun h hn => hn h)
      · intro hev
        cases op with
        | event now token readable writable io => exact absurd rfl (hev _ _ _ _ _)
        | start | head | send | readError | restart => rfl
    obtain ⟨m',hm',hall⟩ := hturn
    refine ⟨m',hm',?_⟩
    rcases hall with h|⟨h,hfd|hs|hw⟩
    · exact .inl (by rw [h]; rfl)
    · exact .inr ⟨h.append_right _,.inr (.inl hfd)⟩
    · exact .inr ⟨h.append_right _,.inr (.inr (.inl hs))⟩
    · exact .inr ⟨h.append_right _,.inr (.inr (.inr (.inr (.inr hw))))⟩
  | deliver now io =>
    cases hin : e.incoming with
    | nil => exact ⟨m,by simpa [Endpoint.step,hin] using hm,
        .inl (by simp [Endpoint.step,Endpoint.effectOn,hin])⟩
    | cons f fs =>
      by_cases hfd : e.daemon.linkFd=none
      · exact ⟨m,by simpa [Endpoint.step,hin,hfd] using hm,
          .inl (by simp [Endpoint.step,Endpoint.effectOn,hin,hfd])⟩
      · have hd : ({e.daemon with lastRx := some now} : Daemon (List Frame)).channels.get id=
            some (.mcu m) := hm
        obtain ⟨m',hm',hall⟩ := Delivers.dispatch hd now io f
        have hsame : (e.step (.deliver now io)).1=
            ⟨Daemon.dispatchFrame fifoLink {e.daemon with lastRx := some now} now io f,fs⟩ := by
          simp [Endpoint.step,hin,hfd,Daemon.receive]
        have heffect : e.effectOn id (.deliver now io)=
            arrival id {e.daemon with lastRx := some now} f io := by
          simp [Endpoint.effectOn,hin,hfd]
        have hsplit : dataFor id (f::fs)=dataFor id [f]++dataFor id fs := by
          rw [← dataFor_append]
          rfl
        rw [hsame,heffect,hsplit,← List.append_assoc m.txbuf]
        refine ⟨m',hm',?_⟩
        rcases hall with h|⟨h,hfd'|hs|hw|hs|hs⟩
        · exact .inl (by rw [h])
        · exact .inr ⟨h.append_right _,.inr (.inl hfd')⟩
        · exact .inr ⟨h.append_right _,.inr (.inr (.inl hs))⟩
        · exact .inr ⟨h.append_right _,.inr (.inr (.inr (.inr (.inr (fun hn => hn hw)))))⟩
        · exact .inr ⟨h.append_right _,.inr (.inr (.inr (.inl hs)))⟩
        · exact .inr ⟨h.append_right _,.inr (.inr (.inr (.inr (.inl hs))))⟩
  | lose n =>
    by_cases hd : e.daemon.disconnected=true
    · refine ⟨m,by simpa [Endpoint.step,hd] using hm,.inr ⟨?_,.inl (hk hd)⟩⟩
      simpa [Endpoint.step,Endpoint.effectOn,hd] using dataFor_drop n e.incoming
    · exact ⟨m,by simpa [Endpoint.step,hd] using hm,
        .inl (by simp [Endpoint.step,Endpoint.effectOn,hd])⟩

/-- What a turn of the host does to the bytes on their way to the exporter. -/
theorem host_submits {e : Endpoint} {q : PtyChannel} (hk : LinkKnown e.daemon)
    (hq : e.daemon.channels.get id=some (.pty q)) (op : EndpointOp) :
    ∃q',(e.step op).1.daemon.channels.get id=some (.pty q') ∧
      (dataFor id ((e.step op).2++(e.step op).1.daemon.txq)=
          dataFor id e.daemon.txq++(e.effectOn id op).read ∨
        List.Sublist (dataFor id ((e.step op).2++(e.step op).1.daemon.txq))
            (dataFor id e.daemon.txq++(e.effectOn id op).read) ∧
          (e.daemon.linkFd=none ∨ (e.step op).1.daemon.linkFd=none)) := by
  cases op with
  | own op =>
    have hturn : Submits id (e.daemon.puts op)
        (dataFor id e.daemon.txq++(e.effectOn id (.own op)).read) (e.daemon.disconnected=true)
        (e.daemon.turn fifoLink op) := by
      apply Submits.turn hq op
      · rintro now token readable writable io rfl
        exact Submits.event hq
      · intro hev
        cases op with
        | event now token readable writable io => exact absurd rfl (hev _ _ _ _ _)
        | start | head | send | readError | restart => rfl
    obtain ⟨q',hq',hall⟩ := hturn
    refine ⟨q',hq',?_⟩
    rcases hall with h|⟨h,hfd|hd⟩
    · exact .inl h
    · exact .inr ⟨h,.inr hfd⟩
    · exact .inr ⟨h,.inl (hk hd)⟩
  | deliver now io =>
    cases hin : e.incoming with
    | nil => exact ⟨q,by simpa [Endpoint.step,hin] using hq,
        .inl (by simp [Endpoint.step,Endpoint.effectOn,hin])⟩
    | cons f fs =>
      by_cases hfd : e.daemon.linkFd=none
      · exact ⟨q,by simpa [Endpoint.step,hin,hfd] using hq,
          .inl (by simp [Endpoint.step,Endpoint.effectOn,hin,hfd])⟩
      · have hd : ({e.daemon with lastRx := some now} : Daemon (List Frame)).channels.get id=
            some (.pty q) := hq
        have hrun : Submits id [] _ False _ := Submits.dispatch hd now io f
        obtain ⟨q',hq',hall⟩ := hrun
        have hsame : e.step (.deliver now io)=
            (⟨Daemon.dispatchFrame fifoLink {e.daemon with lastRx := some now} now io f,fs⟩,[]) := by
          simp [Endpoint.step,hin,hfd,Daemon.receive]
        have heffect : e.effectOn id (.deliver now io)=
            arrival id {e.daemon with lastRx := some now} f io := by
          simp [Endpoint.effectOn,hin,hfd]
        rw [hsame,heffect]
        refine ⟨q',hq',?_⟩
        rcases hall with h|⟨h,hfd'|hf⟩
        · exact .inl h
        · exact .inr ⟨h,.inr hfd'⟩
        · exact hf.elim
  | lose n =>
    have hsame : (e.step (.lose n)).2=[] ∧ (e.step (.lose n)).1.daemon=e.daemon := by
      simp only [Endpoint.step]
      split_ifs <;> exact ⟨rfl,rfl⟩
    rw [hsame.1,hsame.2]
    exact ⟨q,hq,.inl (by simp [Endpoint.effectOn])⟩

theorem Wired.step (op : PairOp) (h : Wired id s) : Wired id (s.step id op).1 := by
  obtain ⟨⟨m,hm⟩,⟨q,hq⟩,hexp,hhost⟩ := h
  cases op with
  | exporter op =>
    obtain ⟨m',hm',-⟩ := exporter_delivers hexp hm op
    exact ⟨⟨m',hm'⟩,⟨q,hq⟩,hexp.step op,hhost⟩
  | host op =>
    obtain ⟨q',hq',-⟩ := host_submits hhost hq op
    exact ⟨⟨m,hm⟩,⟨q',hq'⟩,hexp,hhost.step op⟩

/-- What a turn makes of the bytes that the UART has taken and those still to come: bytes that are read
join at the end, and none is lost in a steady stretch. -/
theorem step_carries (op : PairOp) (h : Wired id s) :
    ∃bs,(s.step id op).1.typed=s.typed++bs ∧
      ((s.step id op).1.told++(s.step id op).1.pending id=s.told++s.pending id++bs ∨
        List.Sublist ((s.step id op).1.told++(s.step id op).1.pending id)
            (s.told++s.pending id++bs) ∧
          ¬s.Keeps id op) := by
  obtain ⟨⟨m,hm⟩,⟨q,hq⟩,hexp,hhost⟩ := h
  rw [pending_eq hm]
  cases op with
  | exporter op =>
    obtain ⟨m',hm',hall⟩ := exporter_delivers hexp hm op
    have hnext : (s.step id (.exporter op)).1.pair.exporter.daemon.channels.get id=
        some (.mcu m') := hm'
    refine ⟨[],(List.append_nil _).symm,?_⟩
    have htotal : (s.step id (.exporter op)).1.told++(s.step id (.exporter op)).1.pending id=
        s.told++((s.pair.exporter.effectOn id op).wrote++m'.txbuf++
          dataFor id (s.pair.exporter.step op).1.incoming)++
          dataFor id s.pair.host.daemon.txq := by
      rw [pending_eq hnext]
      simp [step,Pair.step,Pair.towardsExporter]
    have hbefore : s.told++(m.txbuf++dataFor id s.pair.towardsExporter)++[]=
        s.told++(m.txbuf++dataFor id s.pair.exporter.incoming)++
          dataFor id s.pair.host.daemon.txq := by
      simp [Pair.towardsExporter]
    rw [htotal,hbefore]
    rcases hall with h|⟨h,hbad⟩
    · exact .inl (by rw [h])
    · refine .inr ⟨(h.append_left _).append_right _,?_⟩
      rintro ⟨⟨⟨⟨hfd,-⟩,hact⟩,⟨hfd',-⟩,hact'⟩,htakes⟩
      simp only [hm,hnext,Option.any_some,uartActive,Bool.and_eq_true,beq_iff_eq] at hact hact'
      rcases hbad with h|h|h|h|h|h
      · exact hfd h
      · exact hfd' h
      · exact h hact'.2
      · simp [h] at hact
      · exact h hact.2
      · exact h htakes
  | host op =>
    obtain ⟨q',hq',hall⟩ := host_submits hhost hq op
    have hnext : (s.step id (.host op)).1.pair.exporter.daemon.channels.get id=
        some (.mcu m) := hm
    refine ⟨(s.pair.host.effectOn id op).read,rfl,?_⟩
    have htotal : (s.step id (.host op)).1.told++(s.step id (.host op)).1.pending id=
        s.told++m.txbuf++dataFor id s.pair.exporter.incoming++
          dataFor id ((s.pair.host.step op).2++(s.pair.host.step op).1.daemon.txq) := by
      rw [pending_eq hnext]
      simp [step,Pair.step,Pair.towardsExporter]
    have hbefore : s.told++(m.txbuf++dataFor id s.pair.towardsExporter)++
          (s.pair.host.effectOn id op).read=
        s.told++m.txbuf++dataFor id s.pair.exporter.incoming++
          (dataFor id s.pair.host.daemon.txq++(s.pair.host.effectOn id op).read) := by
      simp [Pair.towardsExporter]
    rw [htotal,hbefore]
    rcases hall with h|⟨h,hbad⟩
    · exact .inl (by rw [h])
    · refine .inr ⟨h.append_left _,?_⟩
      rintro ⟨⟨⟨⟨-,hfd⟩,-⟩,⟨-,hfd'⟩,-⟩,-⟩
      rcases hbad with h|h
      · exact hfd h
      · exact hfd' h

theorem Wired.new {exporter host : ChannelMap} {m : McuChannel} {q : PtyChannel}
    (hexp : exporter.get id=some (.mcu m)) (hhost : host.get id=some (.pty q)) (now : Instant) :
    Wired id (Downlink.new exporter host now) :=
  ⟨⟨m,hexp⟩,⟨q,hhost⟩,fun _ => rfl,fun _ => rfl⟩

end Downlink

/-- Whatever happens to the links, the processes, the PTY and the UART, while no queue refuses a
frame: what the UART is given, and what may still come, is a subsequence of what Klipper has written
to its PTY. No byte is duplicated, reordered or made up. -/
theorem mcu_hears_klipper {exporter host : ChannelMap} {id : UInt8} {io : Io}
    (hexp : exporter.get id=some (.mcu (.new id io))) (hhost : host.get id=some (.pty (.new id)))
    (now : Instant) (ops : List PairOp) :
    List.Sublist
      ((after (Downlink.step id) (Downlink.new exporter host now) ops).told++
        (after (Downlink.step id) (Downlink.new exporter host now) ops).pending id)
      (after (Downlink.step id) (Downlink.new exporter host now) ops).typed := by
  have hstep : ∀(s : Downlink) (op : PairOp),
      (s.Wired id ∧ List.Sublist (s.told++s.pending id) s.typed) →
      (s.step id op).1.Wired id ∧
        List.Sublist ((s.step id op).1.told++(s.step id op).1.pending id) (s.step id op).1.typed := by
    rintro s op ⟨hw,hsub⟩
    obtain ⟨bs,htyped,hall⟩ := Downlink.step_carries op hw
    refine ⟨hw.step op,?_⟩
    rw [htyped]
    rcases hall with h|⟨h,-⟩
    · rw [h]
      exact hsub.append_right bs
    · exact h.trans (hsub.append_right bs)
  have hstart : (Downlink.new exporter host now).Wired id ∧
      List.Sublist ((Downlink.new exporter host now).told++
        (Downlink.new exporter host now).pending id) (Downlink.new exporter host now).typed := by
    refine ⟨Downlink.Wired.new hexp hhost now,?_⟩
    have hnone : (Downlink.new exporter host now).pending id=[] := by
      have hget : (Downlink.new exporter host now).pair.exporter.daemon.channels.get id=
          some (.mcu (.new id io)) := hexp
      rw [Downlink.pending_eq hget]
      have hbuf : (McuChannel.new id io).txbuf=[] := by
        unfold McuChannel.new McuChannel.openUart
        split
        · exact mcu_updateInterest_txbuf _
        · rfl
      rw [hbuf]
      rfl
    rw [hnone]
    exact List.nil_sublist _
  exact (after_of_step (Downlink.step id) hstep hstart ops).2

/-- Klipper writes three bytes, of which the UART takes two at once. -/
def talkIo : Io := {wakeIo with read := .data [klipperSync,2,3] (by decide)}

/-- What Klipper writes makes its way to the UART. -/
def talkOps : List PairOp :=
  [.host (.own (.event 7 (primaryToken 0) true false talkIo)),.host (.own (.send 8 (some 9)))]++
  List.replicate 4 (.exporter (.deliver 9 talkIo))

/-- What the run of `wakeOps` and then `ops` has carried to the exporter. -/
def talkRun (ops : List PairOp) : Downlink :=
  after (Downlink.step 0)
    (Downlink.new (.single (.mcu (.new 0 wakeIo))) (.single (.pty (.new 0))) 0) ops

theorem mcu_hears_klipper_talk :
    (talkRun (wakeOps++talkOps)).told=[klipperSync,2] ∧
      List.Sublist ((talkRun (wakeOps++talkOps)).told++(talkRun (wakeOps++talkOps)).pending 0)
        (talkRun (wakeOps++talkOps)).typed := by
  have hexp : (ChannelMap.single (.mcu (.new 0 wakeIo))).get 0=some (.mcu (.new 0 wakeIo)) := rfl
  have hhost : (ChannelMap.single (.pty (.new 0))).get 0=some (.pty (.new 0)) := rfl
  exact ⟨by decide +kernel,mcu_hears_klipper hexp hhost 0 (wakeOps++talkOps)⟩

/-- In a steady stretch nothing is lost: from any reachable state on, as long as both links stay
open, no queue refuses a frame, and the UART is active and takes what it is given, every byte that
Klipper writes joins those that the UART has taken or is going to. -/
theorem steady_stretch_lossless {exporter host : ChannelMap} {id : UInt8} {io : Io}
    (hexp : exporter.get id=some (.mcu (.new id io))) (hhost : host.get id=some (.pty (.new id)))
    (now : Instant) (before ops : List PairOp)
    (hsteady : Always (Downlink.step id) (Downlink.Keeps id)
      (after (Downlink.step id) (Downlink.new exporter host now) before) ops) :
    ∃bs,
      (after (Downlink.step id) (Downlink.new exporter host now) (before++ops)).typed=
        (after (Downlink.step id) (Downlink.new exporter host now) before).typed++bs ∧
      (after (Downlink.step id) (Downlink.new exporter host now) (before++ops)).told++
          (after (Downlink.step id) (Downlink.new exporter host now) (before++ops)).pending id=
        (after (Downlink.step id) (Downlink.new exporter host now) before).told++
          (after (Downlink.step id) (Downlink.new exporter host now) before).pending id++bs := by
  have hwired : (after (Downlink.step id) (Downlink.new exporter host now) before).Wired id :=
    after_of_step (Downlink.step id) (fun _ op h => h.step op) (Downlink.Wired.new hexp hhost now)
      before
  rw [after_append]
  generalize after (Downlink.step id) (Downlink.new exporter host now) before=s at hwired hsteady ⊢
  have hinv : (after (Downlink.step id) s ops).Wired id ∧
      ∃bs,(after (Downlink.step id) s ops).typed=s.typed++bs ∧
        (after (Downlink.step id) s ops).told++(after (Downlink.step id) s ops).pending id=
          s.told++s.pending id++bs := by
    refine after_of_always (Downlink.step id) (P := fun s' => s'.Wired id ∧
      ∃bs,s'.typed=s.typed++bs ∧ s'.told++s'.pending id=s.told++s.pending id++bs) ?_
      ⟨hwired,[],by simp,by simp⟩ hsteady
    rintro s' op ⟨hw,bs,htyped,htotal⟩ hkeeps
    refine ⟨hw.step op,?_⟩
    obtain ⟨bs',htyped',h|⟨-,hn⟩⟩ := Downlink.step_carries op hw
    · exact ⟨bs++bs',by rw [htyped',htyped,List.append_assoc],
        by rw [h,htotal,List.append_assoc]⟩
    · exact absurd hkeeps hn
  exact hinv.2

theorem steady_stretch_lossless_talk :
    (talkRun wakeOps).typed=[] ∧ (talkRun (wakeOps++talkOps)).typed=[klipperSync,2,3] ∧
      ∃bs,(talkRun (wakeOps++talkOps)).typed=(talkRun wakeOps).typed++bs ∧
        (talkRun (wakeOps++talkOps)).told++(talkRun (wakeOps++talkOps)).pending 0=
          (talkRun wakeOps).told++(talkRun wakeOps).pending 0++bs := by
  have hexp : (ChannelMap.single (.mcu (.new 0 wakeIo))).get 0=some (.mcu (.new 0 wakeIo)) := rfl
  have hhost : (ChannelMap.single (.pty (.new 0))).get 0=some (.pty (.new 0)) := rfl
  have htakes : ∀op∈talkOps,op.UartTakes := by
    intro op hop
    simp only [talkOps,List.mem_append,List.mem_cons,List.mem_replicate,List.not_mem_nil,
      or_false] at hop
    rcases hop with (rfl|rfl)|⟨-,rfl⟩ <;> simp [PairOp.UartTakes,talkIo,wakeIo]
  have hopen : Always (Downlink.step 0) (fun s op => s.Steady 0 ∧ (s.step 0 op).1.Steady 0)
      (talkRun wakeOps) talkOps := by decide +kernel
  exact ⟨by decide +kernel,by decide +kernel,steady_stretch_lossless hexp hhost 0 wakeOps talkOps
    ((always_and _).mpr ⟨hopen,always_of_forall _ htakes⟩)⟩

end Serialmux.System

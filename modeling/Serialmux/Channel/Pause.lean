import Serialmux.Channel.Dyn
import Serialmux.Channel.TcpState

namespace Serialmux.Channel

open Protocol Framework

/-- What a call makes of the pause flag. -/
def ChannelOp.pauses (op : ChannelOp) (p : Bool) : Bool :=
  match op with
  | .pauseSourceReads => true
  | .resumeSourceReads => false
  | _ => p

namespace McuChannel

@[simp] theorem updateInterest_bpPaused (c : McuChannel) : c.updateInterest.bpPaused=c.bpPaused := by
  unfold updateInterest
  split <;> rfl

theorem transition_bpPaused (c : McuChannel) (newState : McuState) :
    (c.transition newState).1.bpPaused=c.bpPaused := by
  unfold transition
  split_ifs
  · rfl
  · cases newState <;> rfl

theorem uartRead_bpPaused (c : McuChannel) (io : Io) : (c.uartRead io).1.bpPaused=c.bpPaused := by
  have hsync : ∀(c : McuChannel) data,(c.awaitSync data).1.bpPaused=c.bpPaused := by
    intro c data
    unfold awaitSync
    split
    · rfl
    · exact transition_bpPaused c .active
  unfold uartRead
  cases c.fd with
  | none => rfl
  | some fd =>
    cases io.read with
    | wouldBlock => rfl
    | error e => exact transition_bpPaused c.closeUart .resetting
    | data bs hn =>
      cases bs with
      | nil => rfl
      | cons b bs =>
        dsimp only
        split
        · exact hsync _ _
        · exact hsync _ _
        · rfl

theorem uartDrain_bpPaused (c : McuChannel) (io : Io) : (c.uartDrain io).1.bpPaused=c.bpPaused := by
  unfold uartDrain
  split
  · rfl
  · split_ifs <;> simp

theorem apply_bpPaused (c : McuChannel) (call : Call) :
    (c.apply call).1.bpPaused=call.op.pauses c.bpPaused := by
  obtain ⟨op,io⟩ := call
  cases op with
  | onFrame ftype payload =>
    simp only [apply,onFrame,ChannelOp.pauses]
    split_ifs
    · rfl
    · exact uartDrain_bpPaused _ io
    · rfl
  | onLinkConnect => rfl
  | onLinkDisconnect => exact updateInterest_bpPaused _
  | tick now =>
    simp only [apply,tick,openUart,ChannelOp.pauses]
    split
    · split
      · rfl
      · split_ifs
        · split <;> simp
        · rfl
    · split
      · split_ifs
        · exact transition_bpPaused c .resetting
        · rfl
      · rfl
  | handleEvent token readable writable =>
    cases readable with
    | false =>
      cases writable with
      | false => rfl
      | true => exact uartDrain_bpPaused c io
    | true =>
      cases writable with
      | false => exact uartRead_bpPaused c io
      | true => exact (uartDrain_bpPaused _ io).trans (uartRead_bpPaused c io)
  | pauseSourceReads =>
    simp only [apply,pauseSourceReads,ChannelOp.pauses]
    split_ifs with h
    · exact h
    · exact updateInterest_bpPaused _
  | resumeSourceReads =>
    simp only [apply,resumeSourceReads,ChannelOp.pauses]
    split_ifs with h
    · exact updateInterest_bpPaused _
    · simpa using h

end McuChannel

namespace PtyChannel

@[simp] theorem updateInterest_bpPaused (c : PtyChannel) : c.updateInterest.bpPaused=c.bpPaused := by
  unfold updateInterest
  split <;> rfl

theorem ptyDrain_bpPaused (c : PtyChannel) (io : Io) : (c.ptyDrain io).1.bpPaused=c.bpPaused := by
  unfold ptyDrain
  split
  · rfl
  · split_ifs <;> simp

theorem apply_bpPaused (c : PtyChannel) (call : Call) :
    (c.apply call).1.bpPaused=call.op.pauses c.bpPaused := by
  obtain ⟨op,io⟩ := call
  cases op with
  | onFrame ftype payload =>
    simp only [apply,onFrame,openPty,ChannelOp.pauses]
    split_ifs
    · rfl
    · split
      · rfl
      · split <;> simp
    · split
      · rfl
      · exact ptyDrain_bpPaused _ io
    · rfl
  | onLinkConnect => rfl
  | onLinkDisconnect => rfl
  | tick => rfl
  | handleEvent token readable writable =>
    have hread : (c.ptyRead io).1.bpPaused=c.bpPaused := by
      unfold ptyRead
      split <;> rfl
    simp only [apply,handleEvent,ChannelOp.pauses]
    split
    · rfl
    · cases readable <;> cases writable <;> simp [hread,ptyDrain_bpPaused]
  | pauseSourceReads =>
    simp only [apply,pauseSourceReads,ChannelOp.pauses]
    split_ifs with h
    · exact h
    · exact updateInterest_bpPaused _
  | resumeSourceReads =>
    simp only [apply,resumeSourceReads,ChannelOp.pauses]
    split_ifs with h
    · exact updateInterest_bpPaused _
    · simpa using h

end PtyChannel

namespace DynChannel

def bpPaused : DynChannel → Bool
  | mcu c => c.bpPaused
  | pty c => c.bpPaused
  | tcpSource c => c.bpPaused
  | tcpDest c => c.bpPaused

theorem apply_bpPaused (c : DynChannel) (call : Call) :
    (c.apply call).1.bpPaused=call.op.pauses c.bpPaused := by
  cases c with
  | mcu c => exact c.apply_bpPaused call
  | pty c => exact c.apply_bpPaused call
  | tcpSource c => exact c.apply_bpPaused call
  | tcpDest c => exact c.apply_bpPaused call

theorem fresh_bpPaused (io : Io) (c : DynChannel) : (c.fresh io).bpPaused=false := by
  cases c with
  | mcu c =>
    simp only [fresh,bpPaused,McuChannel.new,McuChannel.openUart]
    split
    · exact McuChannel.updateInterest_bpPaused _
    · rfl
  | pty c => rfl
  | tcpSource c => rfl
  | tcpDest c => rfl

end DynChannel

/-- A connection that a pause `p` keeps from being read. -/
def Quiet (p : Bool) (c : TcpConn) : Prop := c.watch.Synced ∧ (p=true → c.watch.reads=false)

theorem Quiet.update {p q : Bool} {c : TcpConn} (h : Quiet p c) (closing w : Bool) :
    Quiet q {c with watch := c.watch.update (Interest.ofFlags (!(q||closing)) w)} := by
  refine ⟨Watch.update_synced h.1 _,?_⟩
  intro hq
  rw [Watch.update_reads h.1,hq]
  rfl

namespace TcpSourceChannel

theorem probe_none {conns : Slot → Option TcpConn} {n next : Nat}
    (h : (probe conns n next).1=none) : ∀i,i<n → conns (Fin.ofNat maxTcpConns (next+i))≠none := by
  induction n generalizing next with
  | zero => nofun
  | succ n ih =>
    rw [probe] at h
    split_ifs at h with hc
    intro i hi
    cases i with
    | zero => exact hc
    | succ i =>
      have hnext := ih h i (by omega)
      rwa [show next+1+i=next+(i+1) by omega] at hnext

/-- The search fails only when every slot is taken. -/
theorem allocSlot_none {s : TcpSourceChannel} (h : s.allocSlot.1=none) (k : Slot) :
    s.conns k≠none := by
  have hk := k.isLt
  have hlt : (k.val+maxTcpConns-s.nextSlot%maxTcpConns)%maxTcpConns<256 :=
    Nat.mod_lt _ (by decide)
  have hslot : Fin.ofNat maxTcpConns
      (s.nextSlot+(k.val+maxTcpConns-s.nextSlot%maxTcpConns)%maxTcpConns)=k := by
    apply Fin.ext
    simp only [Fin.ofNat,maxTcpConns] at hk ⊢
    omega
  exact hslot ▸ probe_none h _ hlt

theorem acceptOne_refused (s : TcpSourceChannel) {a : Accepted} (ha : a.registers=false) :
    ∃n,(s.acceptOne a).1={s with nextSlot := n} := by
  obtain ⟨chId,conns,nextSlot,linkUp,bpPaused⟩ := s
  cases linkUp with
  | false => exact ⟨nextSlot,rfl⟩
  | true =>
    simp only [acceptOne,allocSlot,if_true,ha]
    cases (probe conns maxTcpConns nextSlot).1 with
    | none => exact ⟨_,rfl⟩
    | some slot => exact ⟨_,rfl⟩

theorem acceptOne_entered {s : TcpSourceChannel} (hup : s.linkUp=true) {slot : Slot}
    (hslot : s.allocSlot.1=some slot) {a : Accepted} (ha : a.registers=true) :
    (s.acceptOne a).1.conns slot=some (.opened a.stream false) := by
  obtain ⟨chId,conns,nextSlot,linkUp,bpPaused⟩ := s
  cases hup
  simp only [allocSlot] at hslot
  simp [acceptOne,allocSlot,ha,hslot]

/-- A client that mio registers gets a slot if there is one. -/
theorem accept_opens {s : TcpSourceChannel} (hup : s.linkUp=true) {as : List Accepted}
    (ha : ∃a∈as,a.registers=true) (hfree : ∃k,s.conns k=none) :
    ∃k stream,(s.accept as).1.conns k=some (.opened stream false) := by
  induction as generalizing s with
  | nil =>
    obtain ⟨a,hmem,-⟩ := ha
    cases hmem
  | cons a as ih =>
    obtain ⟨k,hk⟩ := hfree
    simp only [accept]
    cases hr : a.registers with
    | false =>
      obtain ⟨a',hmem,ha'⟩ := ha
      have hrest : ∃a∈as,a.registers=true := by
        rcases List.mem_cons.mp hmem with rfl|hmem
        · exact absurd (hr.symm.trans ha') Bool.false_ne_true
        · exact ⟨a',hmem,ha'⟩
      obtain ⟨n,hone⟩ := s.acceptOne_refused hr
      rw [hone]
      exact ih (s := {s with nextSlot := n}) hup hrest ⟨k,hk⟩
    | true =>
      cases hslot : s.allocSlot.1 with
      | none => exact absurd hk (allocSlot_none hslot k)
      | some slot =>
        exact ⟨slot,a.stream,accept_occupied (acceptOne_entered hup hslot hr) as⟩

/-- Clients that mio refuses leave the slots alone. -/
theorem accept_refused (s : TcpSourceChannel) {as : List Accepted}
    (ha : ∀a∈as,a.registers=false) : (s.accept as).1.conns=s.conns := by
  induction as generalizing s with
  | nil => rfl
  | cons a as ih =>
    obtain ⟨ha₁,ha₂⟩ := List.forall_mem_cons.mp ha
    obtain ⟨n,hone⟩ := s.acceptOne_refused ha₁
    simp only [accept,hone]
    exact ih {s with nextSlot := n} ha₂

/-- No connection is polled for input during a pause. -/
def Calm (s : TcpSourceChannel) : Prop := ∀k,Holds (Quiet s.bpPaused) (s.conns k)

/-- A client is entered into a slot while reads are paused. -/
def OpensPaused (s : TcpSourceChannel) (call : Call) : Prop :=
  s.bpPaused=true ∧ s.linkUp=true ∧
    (∃writable,call.op=.handleEvent (primaryToken s.chId) true writable) ∧
    (∃a∈call.io.accepts,a.registers=true) ∧ ∃k,s.conns k=none

theorem update_quiet {p : Bool} (q : Bool) {c : Option TcpConn} (h : Holds (Quiet p) c) :
    Holds (Quiet q) (updateConnInterest (srcConnInterest q) c).1 := by
  cases c with
  | none => exact Holds.none _
  | some c => exact .some (h.get.update _ _)

theorem slotEvent_quiet (s : TcpSourceChannel) (k : Slot) (readable writable : Bool) (io : Io) :
    Keeps (Quiet s.bpPaused) (s.slotEvent k readable writable io) :=
  .seq (.guard _ (readLoop_keeps _ _ _ _ _))
    (.guard _ (.seq (writeSlot_keeps _ _ _ (fun _ _ h _ => h))
      (fun _ h => update_quiet s.bpPaused h)))

theorem slotFrame_quiet (s : TcpSourceChannel) (k : Slot) (ftype : UInt8) (data : List UInt8) :
    Keeps (Quiet s.bpPaused) (s.slotFrame k ftype data) := by
  unfold slotFrame
  split_ifs
  · apply onTdata_keeps
    intro c h _ _
    exact Quiet.update (c := {c with txbuf := c.txbuf++data}) h _ _
  · apply onTclose_keeps
    intro c h _
    exact Quiet.update (c := {c with closePending := true}) h _ _
  · exact Keeps.skip

theorem Calm.apply {s : TcpSourceChannel} (h : Calm s) {call : Call} (ho : ¬OpensPaused s call) :
    Calm (s.apply call).1 := by
  intro k
  refine apply_holds Quiet (h k) ?_ ?_ ?_ ?_
  · intro stream hup hfree hop hc
    refine ⟨rfl,fun hpaused => absurd ⟨hpaused,hup,hop,?_,k,hfree⟩ ho⟩
    -- A slot that was free and is not any more has a client that was registered.
    by_contra hnone
    have hrefused : ∀a∈call.io.accepts,a.registers=false := by
      intro a ha
      cases hr : a.registers with
      | false => rfl
      | true => exact absurd ⟨a,ha,hr⟩ hnone
    obtain ⟨writable,hop⟩ := hop
    have hconns : (s.apply call).1.conns=s.conns := by
      simp only [TcpSourceChannel.apply,hop,handleEvent,if_true]
      exact accept_refused s hrefused
    rw [hconns,hfree] at hc
    cases hc
  · intro readable writable
    exact s.slotEvent_quiet k readable writable call.io
  · intro ftype data
    exact s.slotFrame_quiet k ftype data
  · intro p
    exact update_quiet p (h k)

/-- A client entered during a pause is polled for input. -/
theorem OpensPaused.polled {s : TcpSourceChannel} {call : Call} (h : OpensPaused s call) :
    (s.apply call).1.bpPaused=true ∧
      ∃k c,(s.apply call).1.conns k=some c ∧ c.watch.reads=true := by
  obtain ⟨hp,hup,⟨writable,hop⟩,ha,hfree⟩ := h
  obtain ⟨k,stream,hk⟩ := accept_opens hup ha hfree
  refine ⟨by rw [s.apply_bpPaused,hop]; exact hp,k,.opened stream false,?_,rfl⟩
  simp only [TcpSourceChannel.apply,hop,handleEvent,if_true]
  exact hk

end TcpSourceChannel

namespace TcpDestChannel

/-- No connection is polled for input during a pause. -/
def Calm (d : TcpDestChannel) : Prop := ∀k,Holds (Quiet d.bpPaused) (d.conns k)

/-- A connection is opened while reads are paused. -/
def OpensPaused (d : TcpDestChannel) (call : Call) : Prop :=
  d.bpPaused=true ∧ call.io.connect≠none ∧
    ∃payload k data,call.op=.onFrame fTconn payload ∧ slotOfPayload payload=some (k,data) ∧
      d.conns k=none

theorem update_quiet {p : Bool} (q : Bool) {c : Option TcpConn} (h : Holds (Quiet p) c) :
    Holds (Quiet q) (updateConnInterest (dstConnInterest q) c).1 := by
  cases c with
  | none => exact Holds.none _
  | some c => exact .some (h.get.update _ _)

theorem finishConnect_quiet (chId : UInt8) (slot : Slot) (writable : Bool) (io : Io) {p : Bool} :
    Keeps (Quiet p) (finishConnect chId slot writable io) := by
  intro c h
  cases c with
  | none => exact h
  | some c =>
    simp only [finishConnect]
    split_ifs
    · exact .some h.get
    · exact Holds.none _
    · exact h

theorem slotEvent_quiet (d : TcpDestChannel) (k : Slot) (readable writable : Bool) (io : Io) :
    Keeps (Quiet d.bpPaused) (d.slotEvent k readable writable io) :=
  .seq (finishConnect_quiet _ _ _ _)
    (.seq (.guard _ (writeSlot_keeps _ _ _ (fun _ _ h _ => h)))
      (.seq (.guard _ (readLoop_keeps _ _ _ _ _)) (fun _ h => update_quiet d.bpPaused h)))

/-- Of the frames only one that opens a connection can start polling it. -/
theorem slotFrame_quiet (d : TcpDestChannel) (k : Slot) (ftype : UInt8) (data : List UInt8)
    (io : Io) {c : Option TcpConn} (h : Holds (Quiet d.bpPaused) c)
    (ho : ¬(d.bpPaused=true ∧ io.connect≠none ∧ ftype=fTconn ∧ c=none)) :
    Holds (Quiet d.bpPaused) (d.slotFrame k ftype data io c).1 := by
  unfold slotFrame
  split_ifs with hconn
  · cases c with
    | some c => exact h
    | none =>
      rw [openConn]
      split
      · exact Holds.none _
      · next stream hs =>
        refine .some ⟨rfl,?_⟩
        intro hp
        exact absurd ⟨hp,by simp [hs],hconn,rfl⟩ ho
  · refine onTdata_keeps _ _ _ ?_ c h
    intro c h _ _
    exact Quiet.update (c := {c with txbuf := c.txbuf++data}) h _ _
  · refine onTclose_keeps _ _ ?_ c h
    intro c h _
    exact Quiet.update (c := {c with closePending := true}) h _ _
  · exact h

theorem Calm.apply {d : TcpDestChannel} (h : Calm d) {call : Call} (ho : ¬OpensPaused d call) :
    Calm (d.apply call).1 := by
  intro k
  refine apply_holds Quiet (h k) ?_ ?_ ?_
  · intro readable writable
    exact d.slotEvent_quiet k readable writable call.io
  · intro ftype payload data hop hslot
    apply d.slotFrame_quiet k ftype data call.io (h k)
    rintro ⟨hpaused,hconn,rfl,hfree⟩
    exact ho ⟨hpaused,hconn,payload,k,data,hop,hslot,hfree⟩
  · intro p
    exact update_quiet p (h k)

/-- A connection opened during a pause is polled for input. -/
theorem OpensPaused.polled {d : TcpDestChannel} {call : Call} (h : OpensPaused d call) :
    (d.apply call).1.bpPaused=true ∧
      ∃k c,(d.apply call).1.conns k=some c ∧ c.watch.reads=true := by
  obtain ⟨hp,hconn,payload,k,data,hop,hslot,hfree⟩ := h
  obtain ⟨stream,hs⟩ := Option.ne_none_iff_exists'.mp hconn
  refine ⟨by rw [d.apply_bpPaused,hop]; exact hp,k,.opened stream true,?_,rfl⟩
  simp [TcpDestChannel.apply,hop,onFrame,hslot,atSlot_self,slotFrame,hfree,openConn,hs]

end TcpDestChannel

namespace DynChannel

/-- Some fd of the channel is polled for input: a UART, a PTY master or a connection. -/
def Polled : DynChannel → Prop
  | mcu c => c.watch.reads=true
  | pty c => c.watch.reads=true
  | tcpSource c => ∃k conn,c.conns k=some conn ∧ conn.watch.reads=true
  | tcpDest c => ∃k conn,c.conns k=some conn ∧ conn.watch.reads=true

/-- A paused source is not polled. -/
def HoldsPause (c : DynChannel) : Prop := c.bpPaused=true → ¬c.Polled

/-- The call opens a TCP connection while the channel's reads are paused. -/
def OpensPaused : DynChannel → Call → Prop
  | tcpSource c,call => c.OpensPaused call
  | tcpDest c,call => c.OpensPaused call
  | _,_ => False

/-- What a channel must keep for its pause to hold. -/
def Calm : DynChannel → Prop
  | mcu c => c.Sound
  | pty c => c.Sound
  | tcpSource c => c.Calm
  | tcpDest c => c.Calm

theorem Calm.holdsPause {c : DynChannel} (h : c.Calm) : c.HoldsPause := by
  intro hp hpolled
  cases c with
  | mcu c =>
    have hw : c.watch.reads=(c.fd.isSome && !c.bpPaused) := McuChannel.Sound.polled h
    rw [show c.bpPaused=true from hp,Bool.not_true,Bool.and_false] at hw
    exact nomatch hw.symm.trans hpolled
  | pty c =>
    have hw : c.watch.reads=(c.masterFd.isSome && !c.bpPaused) := PtyChannel.Sound.polled h
    rw [show c.bpPaused=true from hp,Bool.not_true,Bool.and_false] at hw
    exact nomatch hw.symm.trans hpolled
  | tcpSource c =>
    obtain ⟨k,conn,hk,hr⟩ := hpolled
    exact nomatch ((h k conn hk).2 hp).symm.trans hr
  | tcpDest c =>
    obtain ⟨k,conn,hk,hr⟩ := hpolled
    exact nomatch ((h k conn hk).2 hp).symm.trans hr

theorem Calm.apply {c : DynChannel} (h : c.Calm) {call : Call} (ho : ¬c.OpensPaused call) :
    (c.apply call).1.Calm := by
  cases c with
  | mcu c => exact McuChannel.Sound.apply h call
  | pty c => exact PtyChannel.Sound.apply h call
  | tcpSource c => exact TcpSourceChannel.Calm.apply h ho
  | tcpDest c => exact TcpDestChannel.Calm.apply h ho

theorem fresh_calm (io : Io) (c : DynChannel) : (c.fresh io).Calm := by
  cases c with
  | mcu c => exact McuChannel.Sound.new c.chId io
  | pty c => exact PtyChannel.Sound.new c.chId
  | tcpSource c => exact fun k => Holds.none _
  | tcpDest c => exact fun k => Holds.none _

theorem OpensPaused.not_holdsPause {c : DynChannel} {call : Call} (h : c.OpensPaused call) :
    ¬(c.apply call).1.HoldsPause := by
  intro hh
  cases c with
  | mcu c => exact h
  | pty c => exact h
  | tcpSource c =>
    obtain ⟨hp,hpolled⟩ := TcpSourceChannel.OpensPaused.polled h
    exact hh hp hpolled
  | tcpDest c =>
    obtain ⟨hp,hpolled⟩ := TcpDestChannel.OpensPaused.polled h
    exact hh hp hpolled

/-- Along every run of a channel, paused sources go unpolled exactly if no connection is opened
during a pause. -/
theorem pause_holds (c : DynChannel) (io : Io) (calls : List Call) :
    Always apply (fun c call => (c.apply call).1.HoldsPause) (c.fresh io) calls ↔
      Always apply (fun c call => ¬c.OpensPaused call) (c.fresh io) calls := by
  refine always_iff (P := Calm) apply ?_ (fresh_calm io c)
    (always_of_forall apply (G := fun _ => True) (fun _ _ => trivial))
  intro c call hc _
  refine ⟨⟨?_,?_⟩,hc.apply⟩
  · intro hh ho
    exact ho.not_holdsPause hh
  · intro ho
    exact (hc.apply ho).holdsPause

/-- A client that connects to the exporter during a pause. -/
theorem accept_breaks_pause :
    ¬∀calls,(after apply ((tcpSource (.new 1)).fresh .idle) calls).HoldsPause := by
  intro h
  exact h [⟨.onLinkConnect,.idle⟩,⟨.pauseSourceReads,.idle⟩,
    ⟨.handleEvent (primaryToken 1) true false,{Io.idle with accepts := [⟨7,true⟩]}⟩] rfl
    ⟨0,.opened 7 false,rfl,rfl⟩

end DynChannel

end Serialmux.Channel

import Serialmux.Channel.Dyn
import Serialmux.Channel.TcpSlot

namespace Serialmux.Channel

open Protocol Framework

/-- A frame without a payload, and one with a cid alone. -/
abbrev statusSize : Nat := hdrSize+crcSize

abbrev cidSize : Nat := hdrSize+2+crcSize

/-- What one read of a stream becomes on the link: a cid and a frame for every piece. -/
def streamSize : ReadResult 65536 → Nat
  | .data bs _ => bs.length+cidSize*((bs.length+(maxPayload-2)-1)/(maxPayload-2))
  | _ => 0

/-- The readable part of a UART event: a change of state and the data. -/
def uartSize : ReadResult 4096 → Nat
  | .data bs _ => statusSize+(hdrSize+bs.length+crcSize)
  | .error _ => statusSize
  | .wouldBlock => 0

def ptySize : ReadResult 4096 → Nat
  | .data bs _ => hdrSize+bs.length+crcSize
  | _ => 0

/-- All reads of one event of a slot, and the end of its connection. -/
def slotSize (readable : Bool) (io : Io) : Nat :=
  (if readable then (io.reads.map streamSize).sum else 0)+cidSize

/-- The room on the link that an event can ask for, by the kernel's answers to it. -/
def DynChannel.eventDemand (c : DynChannel) (token : Token) (readable : Bool) (io : Io) : Nat :=
  match c with
  | .mcu m => if readable=true ∧ m.linkUp=true ∧ m.fd≠none then uartSize io.read else 0
  | .pty q => if readable=true ∧ q.isOpen=true then ptySize io.read else 0
  | .tcpSource s =>
    if token=primaryToken s.chId then
      if readable=true ∧ s.linkUp=true then cidSize*io.accepts.length else 0
    else if s.conns (slotOfToken token)=none then 0
    else slotSize readable io
  | .tcpDest t => if t.conns (slotOfToken token)=none then 0 else slotSize readable io

/-- The same for any call: a change of state at most, or the end of a connection. -/
def DynChannel.demand (c : DynChannel) (call : Call) : Nat :=
  match call.op with
  | .onFrame ftype _ => if ftype=fTconn ∨ ftype=fTdata then cidSize else 0
  | .onLinkConnect => statusSize
  | .tick _ => statusSize
  | .handleEvent token readable _ => c.eventDemand token readable call.io
  | _ => 0

namespace McuChannel

theorem whenUp_size (c : McuChannel) (fs : List Frame) : wireSize (c.whenUp fs)≤wireSize fs := by
  unfold whenUp
  split_ifs
  · exact le_rfl
  · exact Nat.zero_le _

theorem transition_size (c : McuChannel) (newState : McuState) :
    wireSize (c.transition newState).2 ≤ statusSize := by
  unfold transition
  split_ifs
  · exact Nat.zero_le _
  · cases newState with
    | init => exact Nat.zero_le _
    | active => exact c.whenUp_size [c.frame fReady []]
    | resetting => exact c.whenUp_size [c.frame fFlush []]

theorem awaitSync_size (c : McuChannel) (data : List UInt8) :
    wireSize (c.awaitSync data).2 ≤ statusSize+(hdrSize+data.length+crcSize) := by
  unfold awaitSync
  split
  · exact Nat.zero_le _
  · next idx _ =>
    have ht := c.transition_size .active
    have hd := whenUp_size (c.transition .active).1
      [(c.transition .active).1.frame fData (data.drop idx)]
    simp only [wireSize_append,wireSize_cons,wireSize_nil,frame,List.length_drop] at hd ⊢
    omega

theorem uartRead_size (c : McuChannel) (io : Io) :
    wireSize (c.uartRead io).2.frames≤uartSize io.read := by
  obtain ⟨chId,state,fd,watch,txbuf,lastRx,reopenAt,bpPaused,linkUp⟩ := c
  unfold uartRead
  cases fd with
  | none => exact Nat.zero_le _
  | some fd =>
    cases hr : io.read with
    | wouldBlock => exact Nat.zero_le _
    | error e => exact transition_size _ .resetting
    | data bs hn =>
      cases bs with
      | nil => exact Nat.zero_le _
      | cons b bs =>
        cases state with
        | init => exact awaitSync_size _ (b::bs)
        | resetting => exact awaitSync_size _ (b::bs)
        | active => exact (whenUp_size _ _).trans (Nat.le_add_left _ _)

/-- A channel whose link is down says nothing. -/
theorem handleEvent_down (c : McuChannel) (readable writable : Bool) (io : Io)
    (h : c.linkUp=false ∨ c.fd=none) : (c.handleEvent readable writable io).2.frames=[] := by
  have hevent : (c.handleEvent readable writable io).2.frames=
      (if readable then c.uartRead io else (c,.quiet)).2.frames := by
    unfold handleEvent
    cases writable with
    | false => simp
    | true => simp [(uartDrain_same _ io).2.1]
  rw [hevent]
  cases readable with
  | false => rfl
  | true =>
    rcases h with h|h
    · have hm := (c.apply_moves ⟨.handleEvent 0 true false,io⟩).1
      simp only [apply,handleEvent] at hm
      cases hm with
      | connect ho => cases ho
      | disconnect ho => cases ho
      | stay _ _ _ hf => simpa using hf
      | forward _ _ _ _ _ hf => simpa [whenUp,h] using hf
      | wake _ _ _ _ _ hf => simpa [whenUp,h] using hf
      | reset _ _ _ _ _ hf => simpa [whenUp,h] using hf
    · simp [uartRead,h]

theorem apply_size (c : McuChannel) (call : Call) :
    wireSize (c.apply call).2.frames≤(DynChannel.mcu c).demand call := by
  obtain ⟨op,io⟩ := call
  cases op with
  | onFrame ftype payload =>
    simp only [apply,onFrame]
    split_ifs
    · exact Nat.zero_le _
    · rw [(uartDrain_same _ io).2.1]
      exact Nat.zero_le _
    · exact Nat.zero_le _
  | onLinkConnect => exact le_rfl
  | onLinkDisconnect => exact Nat.zero_le _
  | tick now =>
    simp only [apply,tick]
    split
    · split
      · exact Nat.zero_le _
      · split_ifs <;> exact Nat.zero_le _
    · split
      · split_ifs
        · exact c.transition_size .resetting
        · exact Nat.zero_le _
      · exact Nat.zero_le _
  | handleEvent token readable writable =>
    simp only [apply,DynChannel.demand,DynChannel.eventDemand]
    split_ifs with h
    · have hdrain : ∀(c₁ : McuChannel) (e : Effect),
          wireSize (e.next (if writable then c₁.uartDrain io else (c₁,.quiet)).2).frames=
            wireSize e.frames := by
        intro c₁ e
        cases writable with
        | false => simp
        | true => simp [(uartDrain_same c₁ io).2.1]
      simp only [handleEvent,hdrain,h.1,if_true]
      exact c.uartRead_size io
    · cases readable with
      | false =>
        cases writable with
        | false => exact Nat.zero_le _
        | true => simp [handleEvent,(uartDrain_same c io).2.1]
      | true =>
        have hdown : c.linkUp=false ∨ c.fd=none := by
          by_contra hup
          exact h ⟨rfl,by simpa using (not_or.mp hup).1,(not_or.mp hup).2⟩
        rw [c.handleEvent_down true writable io hdown]
        exact Nat.zero_le _
  | pauseSourceReads => exact Nat.zero_le _
  | resumeSourceReads => exact Nat.zero_le _

end McuChannel

theorem PtyChannel.apply_size (c : PtyChannel) (call : Call) :
    wireSize (c.apply call).2.frames≤(DynChannel.pty c).demand call := by
  obtain ⟨op,io⟩ := call
  cases op with
  | handleEvent token readable writable =>
    have hdrain : ∀(c₁ : PtyChannel) (e : Effect),
        wireSize (e.next (if writable then c₁.ptyDrain io else (c₁,.quiet)).2).frames=
          wireSize e.frames := by
      intro c₁ e
      cases writable with
      | false => simp
      | true => simp [(ptyDrain_kept c₁ io).2.2.1]
    simp only [apply,handleEvent,DynChannel.demand,DynChannel.eventDemand]
    split
    · exact Nat.zero_le _
    · next hm =>
      simp only [hdrain]
      cases readable with
      | false => exact Nat.zero_le _
      | true =>
        have hopen : c.isOpen=true := by simp [isOpen,hm]
        simp only [if_true,hopen,and_self,ptyRead]
        split
        · exact Nat.zero_le _
        · next h => simp [h,ptySize]
        all_goals exact Nat.zero_le _
  | onFrame ftype payload =>
    simp only [apply,onFrame]
    split_ifs
    · exact Nat.zero_le _
    · exact Nat.zero_le _
    · split
      · exact Nat.zero_le _
      · rw [(ptyDrain_kept _ io).2.2.1]
        exact Nat.zero_le _
    · exact Nat.zero_le _
  | onLinkConnect => exact Nat.zero_le _
  | onLinkDisconnect => exact Nat.zero_le _
  | tick => exact Nat.zero_le _
  | pauseSourceReads => exact Nat.zero_le _
  | resumeSourceReads => exact Nat.zero_le _

/-- What a connection may still have to say: that it ends. -/
def lastWord : Option TcpConn → Nat
  | none => 0
  | some _ => cidSize

theorem lastWord_le (c : Option TcpConn) : lastWord c≤cidSize := by
  cases c with
  | none => exact Nat.zero_le _
  | some c => exact le_rfl

/-- An operation that sends at most `n` bytes beside the end of the connection. -/
def Metered (n : Nat) (op : SlotOp) : Prop :=
  ∀c,wireSize (op c).2.frames+lastWord (op c).1≤n+lastWord c

namespace Metered

theorem skip : Metered 0 .skip := by
  intro c
  simp [SlotOp.skip]

theorem seq {n m : Nat} {f g : SlotOp} (hf : Metered n f) (hg : Metered m g) :
    Metered (n+m) (.seq f g) := by
  intro c
  have h₁ := hf c
  have h₂ := hg (f c).1
  simp only [SlotOp.seq,Effect.next_frames,wireSize_append]
  omega

theorem guard {n : Nat} {f : SlotOp} (b : Bool) (h : Metered n f) :
    Metered (if b then n else 0) (.guard b f) := by
  cases b with
  | false => exact skip
  | true => exact h

theorem size {n : Nat} {op : SlotOp} (h : Metered n op) (c : Option TcpConn) :
    wireSize (op c).2.frames≤n+cidSize := by
  have h₁ := h c
  have h₂ := lastWord_le c
  omega

end Metered

section Slot

variable (chId : UInt8) (slot : Slot)

theorem closeSlot_metered (notify : Bool) : Metered 0 (closeSlot chId slot notify) := by
  intro c
  cases c with
  | none => exact le_rfl
  | some c =>
    cases notify with
    | false => exact Nat.zero_le _
    | true => exact le_rfl

theorem updateConnInterest_metered (interest : TcpConn → Option Interest) :
    Metered 0 (updateConnInterest interest) := by
  intro c
  cases c <;> exact le_rfl

theorem tdataFrames_size (bs : List UInt8) :
    wireSize (tdataFrames chId slot bs)=
      bs.length+cidSize*((bs.length+(maxPayload-2)-1)/(maxPayload-2)) := by
  have hsum : ∀cs : List (List UInt8),
      wireSize (cs.map (tdataFrame chId slot))=cs.flatten.length+cidSize*cs.length := by
    intro cs
    induction cs with
    | nil => rfl
    | cons c cs ih =>
      simp only [List.map_cons,wireSize_cons,ih,tdataFrame,packCid,u16ToLe,List.flatten_cons,
        List.length_append,List.length_cons,List.length_nil,cidSize,hdrSize,crcSize]
      omega
  rw [tdataFrames,hsum,chunksOf_flatten (by decide),chunksOf_length (by decide)]

theorem readLoop_metered (notify : Bool) (blocked : TcpConn → Bool)
    (rs : List (ReadResult 65536)) :
    Metered (rs.map streamSize).sum (readLoop chId slot notify blocked rs) := by
  induction rs with
  | nil => exact Metered.skip
  | cons r rs ih =>
    intro c
    have hzero : ∀{op : SlotOp},Metered 0 op → wireSize (op c).2.frames+lastWord (op c).1≤
        ((r::rs).map streamSize).sum+lastWord c := by
      intro op h
      exact (h c).trans (Nat.add_le_add_right (Nat.zero_le _) _)
    cases c with
    | none => exact Nat.zero_le _
    | some c =>
      simp only [readLoop]
      split_ifs
      · exact hzero Metered.skip
      · cases r with
        | wouldBlock => exact hzero Metered.skip
        | error e => exact hzero (closeSlot_metered chId slot notify)
        | data bs hn =>
          cases bs with
          | nil => exact hzero (closeSlot_metered chId slot notify)
          | cons b bs =>
            have h := ih (some c)
            simp only [Effect.next_frames,wireSize_append,tdataFrames_size,List.map_cons,
              List.sum_cons,streamSize] at h ⊢
            omega

theorem writeSlot_metered (notify : Bool) (ready : TcpConn → Bool) (w : WriteResult) :
    Metered 0 (writeSlot chId slot notify ready w) := by
  intro c
  cases c with
  | none => exact le_rfl
  | some c =>
    simp only [writeSlot]
    split
    · exact closeSlot_metered chId slot notify (some c)
    · split_ifs
      · exact Nat.zero_le _
      · exact le_rfl

theorem onTdata_metered (notify : Bool) (interest : TcpConn → Option Interest)
    (data : List UInt8) : Metered 0 (onTdata chId slot notify interest data) := by
  intro c
  cases c with
  | none => exact le_rfl
  | some c =>
    simp only [onTdata]
    split_ifs
    · exact le_rfl
    · exact closeSlot_metered chId slot notify (some c)
    · exact le_rfl

end Slot

namespace TcpSourceChannel

theorem slotEvent_metered (s : TcpSourceChannel) (slot : Slot) (readable writable : Bool)
    (io : Io) : Metered (if readable then (io.reads.map streamSize).sum else 0)
      (s.slotEvent slot readable writable io) := by
  have h : Metered _ (s.slotEvent slot readable writable io) :=
    .seq (.guard _ (readLoop_metered _ _ _ _ _))
      (.guard _ (.seq (writeSlot_metered _ _ _ _ _) (updateConnInterest_metered _)))
  simpa only [Nat.add_zero,ite_self] using h

theorem slotFrame_size (s : TcpSourceChannel) (slot : Slot) (ftype : UInt8) (data : List UInt8)
    (c : Option TcpConn) : wireSize (s.slotFrame slot ftype data c).2.frames≤
      if ftype=fTconn ∨ ftype=fTdata then cidSize else 0 := by
  unfold slotFrame
  split_ifs with h₁ h₂ h₃ h₄
  · exact ((onTdata_metered _ _ _ _ _).size c).trans_eq (Nat.zero_add _)
  · exact absurd (.inr h₁) h₂
  all_goals simp [onTclose_quiet,SlotOp.skip]

theorem accept_size (s : TcpSourceChannel) (as : List Accepted) :
    wireSize (s.accept as).2.frames≤cidSize*as.length := by
  induction as generalizing s with
  | nil => exact le_rfl
  | cons a as ih =>
    have hone : wireSize (s.acceptOne a).2.frames≤cidSize := by
      rcases acceptOne_cases s a with ⟨n,h⟩|⟨n,slot,-,-,h⟩
      · rw [h]
        exact Nat.zero_le _
      · rw [h]
        exact le_rfl
    have hrest := ih (s.acceptOne a).1
    simp only [accept,Effect.next_frames,wireSize_append,List.length_cons,Nat.mul_succ]
    omega

theorem accept_down (s : TcpSourceChannel) (h : s.linkUp=false) (as : List Accepted) :
    (s.accept as).2.frames=[] := by
  have hloop := accept_induct (P := fun s' e => s'.linkUp=false ∧ e.frames=[]) (s := s)
    (e := .quiet) (fun s' e a he => ?_) ⟨h,rfl⟩ as
  · simpa using hloop.2
  · have hone : s'.acceptOne a=(s',.quiet) := by simp [acceptOne,he.1]
    rw [hone]
    simpa using he

theorem apply_size (s : TcpSourceChannel) (call : Call) :
    wireSize (s.apply call).2.frames≤(DynChannel.tcpSource s).demand call := by
  obtain ⟨op,io⟩ := call
  cases op with
  | onFrame ftype payload =>
    simp only [apply,onFrame]
    cases slotOfPayload payload with
    | none => exact Nat.zero_le _
    | some v => exact s.slotFrame_size v.1 ftype v.2 _
  | handleEvent token readable writable =>
    simp only [apply,handleEvent,DynChannel.demand,DynChannel.eventDemand]
    split_ifs with ht hr hup hup hc
    · exact s.accept_size io.accepts
    · have hdown : s.linkUp=false := by simpa [hr] using hup
      rw [s.accept_down hdown]
      exact le_rfl
    · exact Nat.zero_le _
    · exact Nat.zero_le _
    · simp only [tcpEvent,atSlot_effect,hc,(s.slotEvent_local _ readable writable io).empty]
      exact le_rfl
    · exact (s.slotEvent_metered _ readable writable io).size _
  | onLinkConnect => exact Nat.zero_le _
  | onLinkDisconnect => exact Nat.zero_le _
  | tick => exact Nat.zero_le _
  | pauseSourceReads => exact Nat.zero_le _
  | resumeSourceReads => exact Nat.zero_le _

end TcpSourceChannel

namespace TcpDestChannel

theorem finishConnect_metered (chId : UInt8) (slot : Slot) (writable : Bool) (io : Io) :
    Metered 0 (finishConnect chId slot writable io) := by
  intro c
  cases c with
  | none => exact le_rfl
  | some c =>
    simp only [finishConnect]
    split_ifs
    · exact le_rfl
    · exact closeSlot_metered chId slot true (some c)
    · exact le_rfl

theorem slotEvent_metered (d : TcpDestChannel) (slot : Slot) (readable writable : Bool)
    (io : Io) : Metered (if readable then (io.reads.map streamSize).sum else 0)
      (d.slotEvent slot readable writable io) := by
  have h : Metered _ (d.slotEvent slot readable writable io) :=
    .seq (finishConnect_metered _ _ _ _) (.seq (.guard _ (writeSlot_metered _ _ _ _ _))
      (.seq (.guard _ (readLoop_metered _ _ _ _ _)) (updateConnInterest_metered _)))
  simpa only [Nat.add_zero,Nat.zero_add,ite_self] using h

/-- F_TCONN to a free slot may be refused; nothing else is to be said then. -/
theorem slotFrame_size (d : TcpDestChannel) (slot : Slot) (ftype : UInt8) (data : List UInt8)
    (io : Io) (c : Option TcpConn) : wireSize (d.slotFrame slot ftype data io c).2.frames≤
      if ftype=fTconn ∨ ftype=fTdata then cidSize else 0 := by
  unfold slotFrame
  split_ifs with h₁ h₂ h₃ h₄ h₅ h₆
  · cases c with
    | some c => exact Nat.zero_le _
    | none =>
      rw [openConn]
      split
      · exact le_rfl
      · exact Nat.zero_le _
  · exact absurd (.inl h₁) h₂
  · exact ((onTdata_metered _ _ _ _ _).size c).trans_eq (Nat.zero_add _)
  · exact absurd (.inr h₃) h₄
  all_goals simp [onTclose_quiet,SlotOp.skip]

theorem apply_size (d : TcpDestChannel) (call : Call) :
    wireSize (d.apply call).2.frames≤(DynChannel.tcpDest d).demand call := by
  obtain ⟨op,io⟩ := call
  cases op with
  | onFrame ftype payload =>
    simp only [apply,onFrame]
    cases slotOfPayload payload with
    | none => exact Nat.zero_le _
    | some v => exact d.slotFrame_size v.1 ftype v.2 io _
  | handleEvent token readable writable =>
    simp only [apply,DynChannel.demand,DynChannel.eventDemand]
    split_ifs with hc
    · simp only [tcpEvent,atSlot_effect,hc,(d.slotEvent_local _ readable writable io).empty]
      exact le_rfl
    · exact (d.slotEvent_metered _ readable writable io).size _
  | onLinkConnect => exact Nat.zero_le _
  | onLinkDisconnect => exact Nat.zero_le _
  | tick => exact Nat.zero_le _
  | pauseSourceReads => exact Nat.zero_le _
  | resumeSourceReads => exact Nat.zero_le _

end TcpDestChannel

/-- No call enqueues more than the kernel's answers to it can account for. -/
theorem DynChannel.apply_size (c : DynChannel) (call : Call) :
    wireSize (c.apply call).2.frames≤c.demand call := by
  cases c with
  | mcu c => exact c.apply_size call
  | pty c => exact c.apply_size call
  | tcpSource s => exact s.apply_size call
  | tcpDest d => exact d.apply_size call

namespace ChannelMap

/-- The demand of a call of channel `id`. -/
def demand (m : ChannelMap) (id : UInt8) (call : Call) : Nat :=
  match m.get id with
  | none => 0
  | some c => c.demand call

theorem frames_size (m : ChannelMap) (id : UInt8) (call : Call) :
    wireSize (m.frames id call) ≤ m.demand id call := by
  unfold frames demand
  cases m.get id with
  | none => exact le_rfl
  | some c => exact c.apply_size call

/-- A round of calls, none of which asks for more than `n`. -/
theorem round_size (m : ChannelMap) (call : UInt8 → Call) {n : Nat}
    (h : ∀id,m.demand id (call id)≤n) :
    wireSize (m.keys.flatMap (fun id => m.frames id (call id)))≤n*m.keys.length := by
  generalize m.keys=ids
  induction ids with
  | nil => exact Nat.zero_le _
  | cons id ids ih =>
    rw [List.flatMap_cons,wireSize_append,List.length_cons,Nat.mul_succ,Nat.add_comm]
    exact Nat.add_le_add ih ((m.frames_size id (call id)).trans (h id))

theorem demand_onFrame (m : ChannelMap) (id ftype : UInt8) (payload : List UInt8) (io : Io) :
    m.demand id ⟨.onFrame ftype payload,io⟩ ≤ if ftype=fTconn ∨ ftype=fTdata then cidSize else 0 := by
  unfold demand
  cases m.get id with
  | none => exact Nat.zero_le _
  | some c => exact le_rfl

/-- Greetings and ticks at most report a state. -/
theorem demand_status (m : ChannelMap) (id : UInt8) {call : Call}
    (h : call.op=.onLinkConnect ∨ ∃now,call.op=.tick now) : m.demand id call ≤ statusSize := by
  unfold demand
  cases m.get id with
  | none => exact Nat.zero_le _
  | some c => rcases h with h|⟨now,h⟩ <;> simp [DynChannel.demand,h]

/-- Backpressure and the loss of the link are met in silence. -/
theorem demand_quiet (m : ChannelMap) (id : UInt8) {call : Call}
    (h : call.op=.pauseSourceReads ∨ call.op=.resumeSourceReads ∨ call.op=.onLinkDisconnect) :
    m.demand id call≤0 := by
  unfold demand
  cases m.get id with
  | none => exact le_rfl
  | some c => rcases h with h|h|h <;> simp [DynChannel.demand,h]

end ChannelMap

end Serialmux.Channel

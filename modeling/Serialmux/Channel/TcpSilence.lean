import Serialmux.Framework.Machine
import Serialmux.Channel.TcpFrames
import Serialmux.Channel.McuProtocol

namespace Serialmux.Channel

open Protocol Framework

/-- A frame by which a side uses the connection of slot `k`. -/
def speaksFor (k : Slot) (f : Frame) : Bool :=
  (f.ftype==fTdata || f.ftype==fTclose) && cidOf f==some k

/-- No frame of an effect uses the connection of slot `k`. -/
def SilentFor (k : Slot) (e : Effect) : Prop := ∀f∈e.frames,speaksFor k f=false

/-- Nobody is behind the slot any more: it is empty or only drains. -/
def Gone (c : Option TcpConn) : Prop := ∀x,c=some x → x.closePending=true

/-- What an operation on a slot without a peer comes to: it speaks exactly when `bad`, and the slot
stays without a peer. -/
def Hushed (k : Slot) (bad : Prop) (r : Option TcpConn × Effect) : Prop :=
  (SilentFor k r.2 ↔ ¬bad) ∧ Gone r.1

theorem gone_none : Gone none := nofun

theorem gone_some {c : TcpConn} (h : c.closePending=true) : Gone (some c) := by
  rintro x ⟨rfl⟩
  exact h

theorem silentFor_quiet (k : Slot) : SilentFor k .quiet := nofun

theorem not_silentFor_tclose (chId : UInt8) (k : Slot) :
    ¬SilentFor k (.sends [tcloseFrame chId k]) := by
  intro h
  have hf := h (tcloseFrame chId k) (by simp)
  simp [speaksFor,tcloseFrame] at hf
  exact hf (cidOf_tcloseFrame chId k)

theorem silentFor_other {chId : UInt8} {j k : Slot} {f : SlotOp} (h : SendsFor chId j f)
    (hne : j≠k) (c : Option TcpConn) : SilentFor k (f c).2 := by
  intro g hg
  simp [speaksFor,(h c g hg).cid,hne]

theorem hushed_quiet {k : Slot} {bad : Prop} {c : Option TcpConn} (hb : ¬bad) (hg : Gone c) :
    Hushed k bad (c,.quiet) := ⟨⟨fun _ => hb,fun _ => silentFor_quiet k⟩,hg⟩

/-- An operation at slot `j`, seen from slot `k`. -/
theorem atSlot_hushed {chId : UInt8} {conns : Slot → Option TcpConn} {j k : Slot} {f : SlotOp}
    {bad : Prop} (hs : SendsFor chId j f) (hg : Gone (conns k))
    (hself : j=k → Hushed k bad (f (conns k))) (hother : j≠k → ¬bad) :
    (SilentFor k (atSlot conns j f).2 ↔ ¬bad) ∧ Gone ((atSlot conns j f).1 k) := by
  by_cases hj : j=k
  · subst hj
    obtain ⟨h₁,h₂⟩ := hself rfl
    exact ⟨h₁,by rwa [atSlot_self]⟩
  · refine ⟨iff_of_true (silentFor_other hs hj _) (hother hj),?_⟩
    rwa [atSlot_other _ (Ne.symm hj)]

section Slot

variable (chId : UInt8) (k : Slot)

theorem closeSlot_hushed (notify : Bool) (c : TcpConn) :
    Hushed k (notify=true) (closeSlot chId k notify (some c)) := by
  cases notify with
  | false => exact hushed_quiet (by simp) gone_none
  | true => exact ⟨by simp [closeSlot,not_silentFor_tclose],gone_none⟩

theorem updateConnInterest_gone (interest : TcpConn → Option Interest) {c : Option TcpConn}
    (h : Gone c) : Gone (updateConnInterest interest c).1 := by
  cases c with
  | none => exact gone_none
  | some c => exact gone_some (h c rfl)

theorem readLoop_gone (notify : Bool) {blocked : TcpConn → Bool}
    (hb : ∀x : TcpConn,x.closePending=true → blocked x=true) (rs : List (ReadResult 65536))
    {c : Option TcpConn} (h : Gone c) : readLoop chId k notify blocked rs c=(c,.quiet) := by
  cases rs with
  | nil => rfl
  | cons r rs =>
    cases c with
    | none => rfl
    | some c => simp only [readLoop,hb c (h c rfl),if_true]

theorem writeSlot_hushed (notify : Bool) (ready : TcpConn → Bool) (w : WriteResult) {c : TcpConn}
    (h : c.closePending=true) :
    Hushed k (notify=true ∧ ready c=true ∧ c.txbuf≠[] ∧ w=.error)
      (writeSlot chId k notify ready w (some c)) := by
  have hgone : ∀{x : TcpConn} {out : List UInt8} {bad : Prop},x.closePending=true → ¬bad →
      Hushed k bad (if x.txbuf=[] ∧ x.closePending=true then
        ((closeSlot chId k false (some x)).1,⟨[],[],out⟩) else (some x,⟨[],[],out⟩)) := by
    intro x out bad hx hb
    have hs : SilentFor k ⟨[],[],out⟩ := nofun
    split_ifs
    · exact ⟨iff_of_true hs hb,gone_none⟩
    · exact ⟨iff_of_true hs hb,gone_some hx⟩
  rw [writeSlot,writeTxbuf.eq_def]
  by_cases hw : ready c=true ∧ c.txbuf≠[]
  · rw [if_pos hw]
    cases w with
    | wrote n => exact hgone h (by simp)
    | again => exact hgone h (by simp)
    | error => simpa [hw] using closeSlot_hushed chId k notify c
  · rw [if_neg hw]
    exact hgone h (fun hbad => hw ⟨hbad.2.1,hbad.2.2.1⟩)

theorem onTdata_hushed (notify : Bool) (interest : TcpConn → Option Interest) (data : List UInt8)
    {c : TcpConn} (h : c.closePending=true) :
    Hushed k (notify=true ∧ data≠[] ∧ overLimit c data=true)
      (onTdata chId k notify interest data (some c)) := by
  rw [onTdata]
  split_ifs with hd ho
  · exact hushed_quiet (by simp [hd]) (gone_some h)
  · simpa [hd,ho] using closeSlot_hushed chId k notify c
  · exact hushed_quiet (by simp [ho]) (gone_some h)

theorem onTclose_gone (interest : TcpConn → Option Interest) (c : Option TcpConn) :
    Gone (onTclose chId k interest c).1 := by
  cases c with
  | none => exact gone_none
  | some c =>
    rw [onTclose]
    split_ifs
    · exact gone_none
    · exact gone_some rfl

end Slot

namespace TcpSourceChannel

/-- The call fails a draining connection: its write fails, or data beyond the limit arrive for it. -/
def FailsLate (k : Slot) (s : TcpSourceChannel) (call : Call) : Prop :=
  s.linkUp=true ∧ ∃c,s.conns k=some c ∧ c.closePending=true ∧
    ((∃token readable,call.op=.handleEvent token readable true ∧ token≠primaryToken s.chId ∧
        slotOfToken token=k ∧ c.txbuf≠[] ∧ call.io.write=.error) ∨
      (∃payload data,call.op=.onFrame fTdata payload ∧ slotOfPayload payload=some (k,data) ∧
        data≠[] ∧ overLimit c data=true))

/-- The call accepts a connection into the free slot `k`. -/
def Reopens (k : Slot) (s : TcpSourceChannel) (call : Call) : Prop :=
  s.conns k=none ∧ (s.apply call).1.conns k≠none

theorem slotEvent_hushed (s : TcpSourceChannel) (k : Slot) (readable writable : Bool) (io : Io)
    {c : Option TcpConn} (h : Gone c) :
    Hushed k (s.linkUp=true ∧ ∃x,c=some x ∧ writable=true ∧ x.txbuf≠[] ∧ io.write=.error)
      (s.slotEvent k readable writable io c) := by
  have hread : SlotOp.guard readable
      (readLoop s.chId k s.linkUp TcpConn.closePending io.reads) c=(c,.quiet) := by
    cases readable with
    | false => rfl
    | true => exact readLoop_gone s.chId k s.linkUp (fun _ hx => hx) io.reads h
  unfold slotEvent
  rw [SlotOp.seq,hread]
  cases writable with
  | false => exact hushed_quiet (by simp) h
  | true =>
    cases c with
    | none => exact hushed_quiet (by simp) gone_none
    | some c =>
      obtain ⟨hs,hg⟩ := writeSlot_hushed s.chId k s.linkUp (fun _ => true) io.write (h c rfl)
      refine ⟨?_,updateConnInterest_gone _ hg⟩
      simpa [SlotOp.seq,updateConnInterest] using hs

theorem slotFrame_hushed (s : TcpSourceChannel) (k : Slot) (ftype : UInt8) (data : List UInt8)
    {c : Option TcpConn} (h : Gone c) :
    Hushed k (s.linkUp=true ∧ ∃x,c=some x ∧ ftype=fTdata ∧ data≠[] ∧ overLimit x data=true)
      (s.slotFrame k ftype data c) := by
  unfold slotFrame
  split_ifs with ht hc
  · cases c with
    | none => exact hushed_quiet (by simp) gone_none
    | some c =>
      simpa [ht] using onTdata_hushed s.chId k s.linkUp (srcConnInterest s.bpPaused) data (h c rfl)
  · refine ⟨?_,onTclose_gone s.chId k (srcConnInterest s.bpPaused) c⟩
    simp [onTclose_quiet,silentFor_quiet,ht]
  · exact hushed_quiet (by simp [ht]) h

/-- Connections that are being accepted are announced and nothing else is said. -/
theorem accept_silent (s : TcpSourceChannel) (k : Slot) (as : List Accepted) :
    SilentFor k (s.accept as).2 := by
  have h := accept_induct (P := fun _ e => SilentFor k e) (s := s) (e := .quiet) (fun s e a he => by
    rcases acceptOne_cases s a with ⟨n,h⟩|⟨n,slot,-,-,h⟩
    · simpa [h] using he
    · rw [h]
      intro f hf
      rcases List.mem_append.mp hf with hf|hf
      · exact he f hf
      · rw [List.mem_singleton.mp hf]
        simp [speaksFor,tconnFrame,fTconn,fTdata,fTclose]) (silentFor_quiet k) as
  simpa using h

/-- A slot that an accept finds occupied is not touched. -/
theorem accept_occupied {s : TcpSourceChannel} {k : Slot} {c : TcpConn} (h : s.conns k=some c)
    (as : List Accepted) : (s.accept as).1.conns k=some c := by
  refine accept_induct (P := fun s _ => s.conns k=some c) (e := .quiet) (fun s e a he => ?_) h as
  rcases acceptOne_cases s a with ⟨n,h⟩|⟨n,slot,-,hfree,h⟩
  · rw [h]
    exact he
  · rw [h]
    have hne : k≠slot := by
      rintro rfl
      simp [hfree] at he
    simpa [hne] using he

theorem setPaused_gone {s : TcpSourceChannel} {k : Slot} (p : Bool) (h : Gone (s.conns k)) :
    Gone ((s.setPaused p).conns k) := by
  unfold setPaused
  split_ifs
  · exact h
  · exact updateConnInterest_gone _ h

theorem failsLate_frame_iff {s : TcpSourceChannel} {k : Slot} {ftype : UInt8}
    {payload data : List UInt8} {io : Io} (hg : Gone (s.conns k))
    (hp : slotOfPayload payload=some (k,data)) :
    FailsLate k s ⟨.onFrame ftype payload,io⟩ ↔ (s.linkUp=true ∧
      ∃x,s.conns k=some x ∧ ftype=fTdata ∧ data≠[] ∧ overLimit x data=true) := by
  constructor
  · rintro ⟨hl,c,hc,-,⟨token,readable,ho,-⟩|⟨payload',data',ho,hs,hd,hlim⟩⟩
    · simp at ho
    · simp only [ChannelOp.onFrame.injEq] at ho
      simp only [← ho.2,hp,Option.some.injEq,Prod.mk.injEq,true_and] at hs
      exact ⟨hl,c,hc,ho.1,hs ▸ hd,hs ▸ hlim⟩
  · intro ⟨hl,c,hc,ht,hd,hlim⟩
    exact ⟨hl,c,hc,hg c hc,.inr ⟨payload,data,by rw [ht],hp,hd,hlim⟩⟩

theorem failsLate_event_iff {s : TcpSourceChannel} {token : Token} {readable writable : Bool} {io : Io}
    (hg : Gone (s.conns (slotOfToken token))) (ht : token≠primaryToken s.chId) :
    FailsLate (slotOfToken token) s ⟨.handleEvent token readable writable,io⟩ ↔
      (s.linkUp=true ∧ ∃x,s.conns (slotOfToken token)=some x ∧ writable=true ∧ x.txbuf≠[] ∧
        io.write=.error) := by
  constructor
  · rintro ⟨hl,c,hc,-,⟨token',readable',ho,-,-,htx,hw⟩|⟨payload,data,ho,-⟩⟩
    · simp only [ChannelOp.handleEvent.injEq] at ho
      exact ⟨hl,c,hc,ho.2.2,htx,hw⟩
    · simp at ho
  · intro ⟨hl,c,hc,hwr,htx,hw⟩
    exact ⟨hl,c,hc,hg c hc,.inl ⟨token,readable,by rw [hwr],ht,rfl,htx,hw⟩⟩

theorem apply_hushed {s : TcpSourceChannel} {k : Slot} (call : Call) (hg : Gone (s.conns k))
    (hr : ¬Reopens k s call) :
    (SilentFor k (s.apply call).2 ↔ ¬FailsLate k s call) ∧ Gone ((s.apply call).1.conns k) := by
  obtain ⟨op,io⟩ := call
  have hquiet : (∀token readable,op≠.handleEvent token readable true) →
      (∀payload,op≠.onFrame fTdata payload) →
      (SilentFor k .quiet ↔ ¬FailsLate k s ⟨op,io⟩) := by
    intro h₁ h₂
    refine iff_of_true (silentFor_quiet k) ?_
    rintro ⟨-,c,-,-,⟨token,readable,h,-⟩|⟨payload,data,h,-⟩⟩
    · exact h₁ token readable h
    · exact h₂ payload h
  cases op with
  | onLinkConnect => exact ⟨hquiet (by simp) (by simp),hg⟩
  | onLinkDisconnect => exact ⟨hquiet (by simp) (by simp),gone_none⟩
  | tick now => exact ⟨hquiet (by simp) (by simp),hg⟩
  | pauseSourceReads => exact ⟨hquiet (by simp) (by simp),setPaused_gone true hg⟩
  | resumeSourceReads => exact ⟨hquiet (by simp) (by simp),setPaused_gone false hg⟩
  | onFrame ftype payload =>
    simp only [apply,onFrame]
    cases hp : slotOfPayload payload with
    | none => exact ⟨iff_of_true (silentFor_quiet k) (by simp [FailsLate,hp]),hg⟩
    | some v =>
      obtain ⟨j,data⟩ := v
      refine atSlot_hushed (slotFrame_sends s j ftype data) hg ?_ ?_
      · rintro rfl
        have h := slotFrame_hushed s j ftype data hg
        rwa [failsLate_frame_iff hg hp]
      · intro hj
        simp [FailsLate,hp,hj]
  | handleEvent token readable writable =>
    simp only [apply,handleEvent]
    by_cases ht : token=primaryToken s.chId
    · have hnot : ¬FailsLate k s ⟨.handleEvent token readable writable,io⟩ := by
        simp [FailsLate,ht]
      rw [if_pos ht]
      cases readable with
      | false => exact ⟨iff_of_true (silentFor_quiet k) hnot,hg⟩
      | true =>
        refine ⟨iff_of_true (accept_silent s k io.accepts) hnot,?_⟩
        simp only [if_true]
        cases hc : s.conns k with
        | some c =>
          rw [accept_occupied hc io.accepts]
          exact gone_some (hg c hc)
        | none =>
          -- The slot was free, and the accept has passed it by.
          have hnone : (s.accept io.accepts).1.conns k=none := by
            by_contra hne
            exact hr ⟨hc,by simpa [apply,handleEvent,ht] using hne⟩
          rw [hnone]
          exact gone_none
    · rw [if_neg ht]
      refine atSlot_hushed (slotEvent_sends s _ readable writable io) hg ?_ ?_
      · rintro rfl
        have h := slotEvent_hushed s (slotOfToken token) readable writable io hg
        rwa [failsLate_event_iff hg ht]
      · intro hj
        simp [FailsLate,hj]

end TcpSourceChannel

namespace TcpDestChannel

/-- The call fails a draining connection: its connect or its write fails, or data beyond the limit
arrive for it. -/
def FailsLate (k : Slot) (d : TcpDestChannel) (call : Call) : Prop :=
  ∃c,d.conns k=some c ∧ c.closePending=true ∧
    ((∃token readable,call.op=.handleEvent token readable true ∧ slotOfToken token=k ∧
        (c.connecting=true ∧ call.io.peerAddr=false ∨ c.txbuf≠[] ∧ call.io.write=.error)) ∨
      (∃payload data,call.op=.onFrame fTdata payload ∧ slotOfPayload payload=some (k,data) ∧
        data≠[] ∧ overLimit c data=true))

/-- The call is an F_TCONN for the free slot `k`. -/
def Reopens (k : Slot) (d : TcpDestChannel) (call : Call) : Prop :=
  d.conns k=none ∧ ∃payload data,call.op=.onFrame fTconn payload ∧
    slotOfPayload payload=some (k,data)

/-- Once the connect is decided, what is left of an event is its write. -/
private theorem rest_hushed (d : TcpDestChannel) (k : Slot) (readable writable : Bool) (io : Io)
    {c : Option TcpConn} (h : Gone c) (hc : ∀x,c=some x → writable=true → x.connecting=false) :
    Hushed k (∃x,c=some x ∧ writable=true ∧ x.txbuf≠[] ∧ io.write=.error)
      (SlotOp.seq (.guard writable (writeSlot d.chId k true (fun c => !c.connecting) io.write))
        (.seq
          (.guard readable
            (readLoop d.chId k true (fun c => c.connecting || c.closePending) io.reads))
          (updateConnInterest (dstConnInterest d.bpPaused))) c) := by
  have hread : ∀{x : Option TcpConn},Gone x → SlotOp.guard readable
      (readLoop d.chId k true (fun c => c.connecting || c.closePending) io.reads) x=(x,.quiet) := by
    intro x hx
    cases readable with
    | false => rfl
    | true => exact readLoop_gone d.chId k true (fun y hy => by simp [hy]) io.reads hx
  cases writable with
  | false =>
    simp only [SlotOp.seq,SlotOp.guard_false,SlotOp.skip,hread h]
    exact ⟨iff_of_true (silentFor_quiet k) (by simp),updateConnInterest_gone _ h⟩
  | true =>
    cases c with
    | none =>
      simp only [SlotOp.seq,SlotOp.guard_true,writeSlot,hread gone_none]
      exact ⟨iff_of_true (silentFor_quiet k) (by simp),gone_none⟩
    | some c =>
      obtain ⟨hs,hg⟩ :=
        writeSlot_hushed d.chId k true (fun c => !c.connecting) io.write (h c rfl)
      simp only [SlotOp.seq,SlotOp.guard_true,hread hg]
      refine ⟨?_,updateConnInterest_gone _ hg⟩
      simpa [updateConnInterest,hc c rfl rfl] using hs

theorem slotEvent_hushed (d : TcpDestChannel) (k : Slot) (readable writable : Bool) (io : Io)
    {c : Option TcpConn} (h : Gone c) :
    Hushed k (∃x,c=some x ∧ writable=true ∧
        (x.connecting=true ∧ io.peerAddr=false ∨ x.txbuf≠[] ∧ io.write=.error))
      (d.slotEvent k readable writable io c) := by
  unfold slotEvent
  rw [SlotOp.seq]
  cases c with
  | none =>
    have hrest := rest_hushed d k readable writable io gone_none (by simp)
    simpa [finishConnect] using hrest
  | some c =>
    have hp := h c rfl
    by_cases hcon : c.connecting=true ∧ writable=true
    · cases ha : io.peerAddr with
      | true =>
        have hfin : finishConnect d.chId k writable io (some c)=
            (some {c with connecting := false},.quiet) := by
          simp only [finishConnect,if_pos hcon,ha,if_true]
        have hrest := rest_hushed d k readable writable io
          (c := some {c with connecting := false}) (gone_some hp) (by simp)
        rw [hfin]
        simpa using hrest
      | false =>
        have hfin : finishConnect d.chId k writable io (some c)=
            (none,.sends [tcloseFrame d.chId k]) := by
          simp only [finishConnect,if_pos hcon,ha,Bool.false_eq_true,if_false,closeSlot,if_true]
        have hrest := rest_hushed d k readable writable io gone_none (by simp)
        rw [hfin]
        refine ⟨iff_of_false ?_ ?_,hrest.2⟩
        · intro hs
          apply not_silentFor_tclose d.chId k
          intro f hf
          exact hs f (List.mem_append_left _ hf)
        · simp [hcon]
    · have hfin : finishConnect d.chId k writable io (some c)=(some c,.quiet) := by
        simp only [finishConnect,if_neg hcon]
      have hrest := rest_hushed d k readable writable io (gone_some hp) (by
        rintro x ⟨rfl⟩ hw
        by_contra hx
        exact hcon ⟨by simpa using hx,hw⟩)
      rw [hfin]
      refine ⟨?_,hrest.2⟩
      have hiff : (∃x,some c=some x ∧ writable=true ∧
          (x.connecting=true ∧ io.peerAddr=false ∨ x.txbuf≠[] ∧ io.write=.error)) ↔
          (∃x,some c=some x ∧ writable=true ∧ x.txbuf≠[] ∧ io.write=.error) := by
        constructor
        · rintro ⟨x,⟨rfl⟩,hw,⟨hx,-⟩|hx⟩
          · exact absurd ⟨hx,hw⟩ hcon
          · exact ⟨_,rfl,hw,hx⟩
        · rintro ⟨x,hx,hw,hbad⟩
          exact ⟨x,hx,hw,.inr hbad⟩
      rw [hiff]
      simpa using hrest.1

theorem slotFrame_hushed (d : TcpDestChannel) (k : Slot) (ftype : UInt8) (data : List UInt8)
    (io : Io) {c : Option TcpConn} (h : Gone c) (hr : c=none → ftype≠fTconn) :
    Hushed k (∃x,c=some x ∧ ftype=fTdata ∧ data≠[] ∧ overLimit x data=true)
      (d.slotFrame k ftype data io c) := by
  unfold slotFrame
  split_ifs with ho ht hc
  · cases c with
    | none => exact absurd ho (hr rfl)
    | some c => exact hushed_quiet (by simp [ho,fTconn,fTdata]) h
  · cases c with
    | none => exact hushed_quiet (by simp) gone_none
    | some c =>
      simpa [ht] using onTdata_hushed d.chId k true (dstConnInterest d.bpPaused) data (h c rfl)
  · refine ⟨?_,onTclose_gone d.chId k (dstConnInterest d.bpPaused) c⟩
    simp [onTclose_quiet,silentFor_quiet,ht]
  · exact hushed_quiet (by simp [ht]) h

theorem setPaused_gone {d : TcpDestChannel} {k : Slot} (p : Bool) (h : Gone (d.conns k)) :
    Gone ((d.setPaused p).conns k) := by
  unfold setPaused
  split_ifs
  · exact h
  · exact updateConnInterest_gone _ h

theorem failsLate_frame_iff {d : TcpDestChannel} {k : Slot} {ftype : UInt8}
    {payload data : List UInt8} {io : Io} (hg : Gone (d.conns k))
    (hp : slotOfPayload payload=some (k,data)) :
    FailsLate k d ⟨.onFrame ftype payload,io⟩ ↔
      (∃x,d.conns k=some x ∧ ftype=fTdata ∧ data≠[] ∧ overLimit x data=true) := by
  constructor
  · rintro ⟨c,hc,-,⟨token,readable,ho,-⟩|⟨payload',data',ho,hs,hd,hlim⟩⟩
    · simp at ho
    · simp only [ChannelOp.onFrame.injEq] at ho
      simp only [← ho.2,hp,Option.some.injEq,Prod.mk.injEq,true_and] at hs
      exact ⟨c,hc,ho.1,hs ▸ hd,hs ▸ hlim⟩
  · intro ⟨c,hc,ht,hd,hlim⟩
    exact ⟨c,hc,hg c hc,.inr ⟨payload,data,by rw [ht],hp,hd,hlim⟩⟩

theorem failsLate_event_iff {d : TcpDestChannel} {token : Token} {readable writable : Bool} {io : Io}
    (hg : Gone (d.conns (slotOfToken token))) :
    FailsLate (slotOfToken token) d ⟨.handleEvent token readable writable,io⟩ ↔
      (∃x,d.conns (slotOfToken token)=some x ∧ writable=true ∧
        (x.connecting=true ∧ io.peerAddr=false ∨ x.txbuf≠[] ∧ io.write=.error)) := by
  constructor
  · rintro ⟨c,hc,-,⟨token',readable',ho,-,hbad⟩|⟨payload,data,ho,-⟩⟩
    · simp only [ChannelOp.handleEvent.injEq] at ho
      exact ⟨c,hc,ho.2.2,hbad⟩
    · simp at ho
  · intro ⟨c,hc,hwr,hbad⟩
    exact ⟨c,hc,hg c hc,.inl ⟨token,readable,by rw [hwr],rfl,hbad⟩⟩

theorem apply_hushed {d : TcpDestChannel} {k : Slot} (call : Call) (hg : Gone (d.conns k))
    (hr : ¬Reopens k d call) :
    (SilentFor k (d.apply call).2 ↔ ¬FailsLate k d call) ∧ Gone ((d.apply call).1.conns k) := by
  obtain ⟨op,io⟩ := call
  have hquiet : (∀token readable,op≠.handleEvent token readable true) →
      (∀payload,op≠.onFrame fTdata payload) →
      (SilentFor k .quiet ↔ ¬FailsLate k d ⟨op,io⟩) := by
    intro h₁ h₂
    refine iff_of_true (silentFor_quiet k) ?_
    rintro ⟨c,-,-,⟨token,readable,h,-⟩|⟨payload,data,h,-⟩⟩
    · exact h₁ token readable h
    · exact h₂ payload h
  cases op with
  | onLinkConnect => exact ⟨hquiet (by simp) (by simp),gone_none⟩
  | onLinkDisconnect => exact ⟨hquiet (by simp) (by simp),gone_none⟩
  | tick now => exact ⟨hquiet (by simp) (by simp),hg⟩
  | pauseSourceReads => exact ⟨hquiet (by simp) (by simp),setPaused_gone true hg⟩
  | resumeSourceReads => exact ⟨hquiet (by simp) (by simp),setPaused_gone false hg⟩
  | onFrame ftype payload =>
    simp only [apply,onFrame]
    cases hp : slotOfPayload payload with
    | none => exact ⟨iff_of_true (silentFor_quiet k) (by simp [FailsLate,hp]),hg⟩
    | some v =>
      obtain ⟨j,data⟩ := v
      refine atSlot_hushed (slotFrame_sends d j ftype data io) hg ?_ ?_
      · rintro rfl
        have h := slotFrame_hushed d j ftype data io hg
          (fun hnone ht => hr ⟨hnone,payload,data,by rw [ht],hp⟩)
        rwa [failsLate_frame_iff hg hp]
      · intro hj
        simp [FailsLate,hp,hj]
  | handleEvent token readable writable =>
    refine atSlot_hushed (slotEvent_sends d _ readable writable io) hg ?_ ?_
    · rintro rfl
      have h := slotEvent_hushed d (slotOfToken token) readable writable io hg
      rwa [failsLate_event_iff hg]
    · intro hj
      simp [FailsLate,hj]

end TcpDestChannel

theorem forall_framesOf {es : List Effect} {p : Frame → Prop} :
    (∀f∈framesOf es,p f) ↔ ∀e∈es,∀f∈e.frames,p f := by
  simp only [framesOf,List.mem_flatMap]
  constructor
  · intro h e he f hf
    exact h f ⟨e,he,hf⟩
  · intro h f ⟨e,he,hf⟩
    exact h e he f hf

/-- The arrival of F_TCLOSE for slot `k`. -/
def peerCloses (k : Slot) (data : List UInt8) : Call := ⟨.onFrame fTclose (packCid k++data),Io.idle⟩

theorem source_peerCloses_gone (s : TcpSourceChannel) (k : Slot) (data : List UInt8) :
    Gone ((s.apply (peerCloses k data)).1.conns k) := by
  simp only [TcpSourceChannel.apply,peerCloses,TcpSourceChannel.onFrame,slotOfPayload_packCid,
    atSlot_self]
  exact onTclose_gone s.chId k (TcpSourceChannel.srcConnInterest s.bpPaused) _

theorem dest_peerCloses_gone (d : TcpDestChannel) (k : Slot) (data : List UInt8) :
    Gone ((d.apply (peerCloses k data)).1.conns k) := by
  simp only [TcpDestChannel.apply,peerCloses,TcpDestChannel.onFrame,slotOfPayload_packCid,
    atSlot_self]
  exact onTclose_gone d.chId k (TcpDestChannel.dstConnInterest d.bpPaused) _

/-- After F_TCLOSE, and until the slot is opened again, a side uses the connection no more exactly as
long as nothing fails the draining slot: no write error, no failed connect, no data beyond its
limit. -/
theorem peer_closed_silent (k : Slot) (data : List UInt8) (calls : List Call) :
    (∀s : TcpSourceChannel,
      Always TcpSourceChannel.apply (fun s call => ¬TcpSourceChannel.Reopens k s call)
        (s.apply (peerCloses k data)).1 calls →
      ((∀f∈framesOf (outs TcpSourceChannel.apply (s.apply (peerCloses k data)).1 calls),
          speaksFor k f=false) ↔
        Always TcpSourceChannel.apply (fun s call => ¬TcpSourceChannel.FailsLate k s call)
          (s.apply (peerCloses k data)).1 calls)) ∧
    (∀d : TcpDestChannel,
      Always TcpDestChannel.apply (fun d call => ¬TcpDestChannel.Reopens k d call)
        (d.apply (peerCloses k data)).1 calls →
      ((∀f∈framesOf (outs TcpDestChannel.apply (d.apply (peerCloses k data)).1 calls),
          speaksFor k f=false) ↔
        Always TcpDestChannel.apply (fun d call => ¬TcpDestChannel.FailsLate k d call)
          (d.apply (peerCloses k data)).1 calls)) := by
  constructor
  · intro s hr
    rw [forall_framesOf]
    exact forall_outs_iff TcpSourceChannel.apply (P := fun s => Gone (s.conns k))
      (fun s call hg hr => TcpSourceChannel.apply_hushed call hg hr)
      (source_peerCloses_gone s k data) hr
  · intro d hr
    rw [forall_framesOf]
    exact forall_outs_iff TcpDestChannel.apply (P := fun d => Gone (d.conns k))
      (fun d call hg hr => TcpDestChannel.apply_hushed call hg hr)
      (dest_peerCloses_gone d k data) hr

/-- One accepted connection in slot 0 with a byte pending for its client. -/
def pendingSource : TcpSourceChannel :=
  after TcpSourceChannel.apply (.new 0)
    [⟨.onLinkConnect,Io.idle⟩,
      ⟨.handleEvent (primaryToken 0) true false,{Io.idle with accepts := [⟨1,true⟩]}⟩,
      ⟨.onFrame fTdata (packCid 0++[0x61]),Io.idle⟩]

/-- A writable event of slot 0 with this answer to its write. -/
def slotWrites (w : WriteResult) : Call :=
  ⟨.handleEvent (tcpSlotToken 0 0) false true,{Io.idle with write := w}⟩

theorem peer_closed_silent_drained :
    ∀f∈framesOf (outs TcpSourceChannel.apply (pendingSource.apply (peerCloses 0 [])).1
      [slotWrites .again,slotWrites (.wrote 1)]),speaksFor 0 f=false := by
  refine ((peer_closed_silent 0 [] [slotWrites .again,slotWrites (.wrote 1)]).1 pendingSource
    ⟨?_,?_,trivial⟩).mpr ⟨?_,?_,trivial⟩
  · intro ⟨h,_⟩
    exact absurd h (by decide +kernel)
  · intro ⟨h,_⟩
    exact absurd h (by decide +kernel)
  · rintro ⟨-,c,-,-,⟨token,readable,-,-,-,-,h⟩|⟨payload,data,h,-⟩⟩ <;> simp [slotWrites] at h
  · rintro ⟨-,c,-,-,⟨token,readable,-,-,-,-,h⟩|⟨payload,data,h,-⟩⟩ <;> simp [slotWrites] at h

/-- A write error on the draining slot announces its end to the peer that closed it. -/
theorem peer_closed_speaks :
    ¬∀(s : TcpSourceChannel) (k : Slot) (data : List UInt8) (calls : List Call),
      (∃setup,s=after TcpSourceChannel.apply (.new 0) setup) →
      Always TcpSourceChannel.apply (fun s call => ¬TcpSourceChannel.Reopens k s call)
        (s.apply (peerCloses k data)).1 calls →
      ∀f∈framesOf (outs TcpSourceChannel.apply (s.apply (peerCloses k data)).1 calls),
        speaksFor k f=false := by
  intro h
  have hr : ¬TcpSourceChannel.Reopens 0 (pendingSource.apply (peerCloses 0 [])).1
      (slotWrites .error) := by
    intro ⟨hfree,_⟩
    exact absurd hfree (by decide +kernel)
  have hs := h pendingSource 0 [] [slotWrites .error] ⟨_,rfl⟩ ⟨hr,trivial⟩ (tcloseFrame 0 0)
    (by decide +kernel)
  exact absurd hs (by decide +kernel)

end Serialmux.Channel

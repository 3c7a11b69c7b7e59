import Serialmux.Framework.Marks
import Serialmux.Channel.TcpSlot

namespace Serialmux.Channel

open Protocol Framework

/-- What a frame towards the destination means to one of its slots. -/
inductive SlotMark where
  | greeting
  | conn
  | close
  deriving DecidableEq

/-- A greeting closes every slot; the other marks are for slot `k` of channel `id` alone. -/
def slotMark (id : UInt8) (k : Slot) (f : Frame) : Option SlotMark :=
  if f.ftype=fHello ∨ f.ftype=fAck then some .greeting
  else if f.channel=id ∧ cidOf f=some k then
    if f.ftype=fTconn then some .conn
    else if f.ftype=fTclose then some .close
    else none
  else none

/-- A connection that is not about to close. -/
def Live (c : Option TcpConn) : Prop := ∃x,c=some x ∧ x.closePending=false

theorem not_live_none : ¬Live none := nofun

theorem live_some {c : TcpConn} : Live (some c) ↔ c.closePending=false := by
  simp [Live]

theorem slotMark_other {id : UInt8} {j k : Slot} {f : Frame} (h : TcpFrame id j f) (hj : j≠k) :
    slotMark id k f=none := by
  have hcid := h.cid
  have hc : ¬(f.ftype=fHello ∨ f.ftype=fAck) := by
    cases h with
    | tconn => exact (by decide : ¬(fTconn=fHello ∨ fTconn=fAck))
    | tdata => exact (by decide : ¬(fTdata=fHello ∨ fTdata=fAck))
    | tclose => exact (by decide : ¬(fTclose=fHello ∨ fTclose=fAck))
  simp [slotMark,hc,hcid,hj]

@[simp] theorem slotMark_tconn (id : UInt8) (k : Slot) :
    slotMark id k (tconnFrame id k)=some .conn := by
  have hc : ¬(fTconn=fHello ∨ fTconn=fAck) := by decide
  have hcid := cidOf_tconnFrame id k
  unfold tconnFrame at hcid ⊢
  simp [slotMark,hc,hcid]

@[simp] theorem slotMark_tclose (id : UInt8) (k : Slot) :
    slotMark id k (tcloseFrame id k)=some .close := by
  have hc : ¬(fTclose=fHello ∨ fTclose=fAck) ∧ fTclose≠fTconn := by decide
  have hcid := cidOf_tcloseFrame id k
  unfold tcloseFrame at hcid ⊢
  simp [slotMark,hc,hcid]

@[simp] theorem slotMark_tdata (id : UInt8) (k : Slot) (data : List UInt8) :
    slotMark id k (tdataFrame id k data)=none := by
  have hc : ¬(fTdata=fHello ∨ fTdata=fAck) ∧ fTdata≠fTconn ∧ fTdata≠fTclose := by decide
  have hcid := cidOf_tdataFrame id k data
  unfold tdataFrame at hcid ⊢
  simp [slotMark,hc]

/-- An operation that makes nothing live and tells the peer when it ends what was. -/
def Steady (id : UInt8) (k : Slot) (op : SlotOp) : Prop :=
  ∀c,Live (op c).1 → Live c ∧ ∀f∈(op c).2.frames,slotMark id k f=none

/-- An operation that keeps what is live or tells the peer. -/
def Faithful (id : UInt8) (k : Slot) (op : SlotOp) : Prop :=
  ∀c,Live c → Live (op c).1 ∨ ∃f∈(op c).2.frames,slotMark id k f=some .close

section Ops

variable (id : UInt8) (k : Slot)

theorem Steady.skip : Steady id k .skip := fun _ h => ⟨h,nofun⟩

theorem Faithful.skip : Faithful id k .skip := fun _ h => .inl h

variable {id k} in
theorem Steady.seq {f g : SlotOp} (hf : Steady id k f) (hg : Steady id k g) :
    Steady id k (.seq f g) := by
  intro c h
  obtain ⟨h₁,hg₁⟩ := hg _ h
  obtain ⟨h₂,hf₁⟩ := hf c h₁
  refine ⟨h₂,?_⟩
  intro x hx
  rcases List.mem_append.mp hx with hx|hx
  · exact hf₁ x hx
  · exact hg₁ x hx

variable {id k} in
theorem Faithful.seq {f g : SlotOp} (hf : Faithful id k f) (hg : Faithful id k g) :
    Faithful id k (.seq f g) := by
  intro c h
  rcases hf c h with h₁|⟨x,hx,hm⟩
  · rcases hg _ h₁ with h₂|⟨x,hx,hm⟩
    · exact .inl h₂
    · exact .inr ⟨x,List.mem_append_right _ hx,hm⟩
  · exact .inr ⟨x,List.mem_append_left _ hx,hm⟩

variable {id k} in
theorem Steady.guard {f : SlotOp} (b : Bool) (h : Steady id k f) : Steady id k (.guard b f) := by
  cases b with
  | false => exact Steady.skip id k
  | true => exact h

variable {id k} in
theorem Faithful.guard {f : SlotOp} (b : Bool) (h : Faithful id k f) :
    Faithful id k (.guard b f) := by
  cases b with
  | false => exact Faithful.skip id k
  | true => exact h

theorem closeSlot_steady (notify : Bool) : Steady id k (closeSlot id k notify) := by
  intro c h
  cases c <;> exact absurd h not_live_none

theorem closeSlot_faithful : Faithful id k (closeSlot id k true) := by
  intro c h
  cases c with
  | none => exact absurd h not_live_none
  | some c => exact .inr ⟨tcloseFrame id k,List.mem_singleton_self _,slotMark_tclose id k⟩

theorem updateConnInterest_live (interest : TcpConn → Option Interest) (c : Option TcpConn) :
    Live (updateConnInterest interest c).1 ↔ Live c := by
  cases c with
  | none => rfl
  | some c => simp [updateConnInterest,live_some]

theorem updateConnInterest_steady (interest : TcpConn → Option Interest) :
    Steady id k (updateConnInterest interest) :=
  fun c h => ⟨(updateConnInterest_live interest c).mp h,nofun⟩

theorem updateConnInterest_faithful (interest : TcpConn → Option Interest) :
    Faithful id k (updateConnInterest interest) :=
  fun c h => .inl ((updateConnInterest_live interest c).mpr h)

theorem readLoop_steady (notify : Bool) (blocked : TcpConn → Bool)
    (rs : List (ReadResult 65536)) : Steady id k (readLoop id k notify blocked rs) := by
  induction rs with
  | nil => exact Steady.skip id k
  | cons r rs ih =>
    intro c h
    cases c with
    | none => exact absurd h not_live_none
    | some c =>
      simp only [readLoop] at h ⊢
      split_ifs at h ⊢
      · exact ⟨h,List.forall_mem_nil _⟩
      · cases r with
        | wouldBlock => exact ⟨h,List.forall_mem_nil _⟩
        | error e => exact closeSlot_steady id k notify _ h
        | data bs hn =>
          cases bs with
          | nil => exact closeSlot_steady id k notify _ h
          | cons b bs =>
            obtain ⟨hc,hf⟩ := ih (some c) h
            refine ⟨hc,?_⟩
            intro f hmem
            rcases List.mem_append.mp hmem with hmem|hmem
            · obtain ⟨data,-,rfl⟩ := List.mem_map.mp hmem
              exact slotMark_tdata id k data
            · exact hf f hmem

theorem readLoop_faithful (blocked : TcpConn → Bool) (rs : List (ReadResult 65536)) :
    Faithful id k (readLoop id k true blocked rs) := by
  induction rs with
  | nil => exact Faithful.skip id k
  | cons r rs ih =>
    intro c h
    cases c with
    | none => exact absurd h not_live_none
    | some c =>
      simp only [readLoop]
      split_ifs
      · exact .inl h
      · cases r with
        | wouldBlock => exact .inl h
        | error e => exact closeSlot_faithful id k _ h
        | data bs hn =>
          cases bs with
          | nil => exact closeSlot_faithful id k _ h
          | cons b bs =>
            rcases ih (some c) h with hl|⟨f,hf,hm⟩
            · exact .inl hl
            · exact .inr ⟨f,List.mem_append_right _ hf,hm⟩

theorem writeSlot_steady (notify : Bool) (ready : TcpConn → Bool) (w : WriteResult) :
    Steady id k (writeSlot id k notify ready w) := by
  intro c h
  cases c with
  | none => exact absurd h not_live_none
  | some c =>
    simp only [writeSlot] at h ⊢
    cases hw : writeTxbuf ready w c with
    | none =>
      rw [hw] at h
      exact closeSlot_steady id k notify _ h
    | some p =>
      obtain ⟨c',out⟩ := p
      obtain ⟨-,hp,-⟩ := writeTxbuf_kept hw
      rw [hw] at h
      dsimp only at h ⊢
      split_ifs at h ⊢
      · exact absurd h not_live_none
      · exact ⟨live_some.mpr (hp ▸ live_some.mp h),List.forall_mem_nil _⟩

theorem writeSlot_faithful (ready : TcpConn → Bool) (w : WriteResult) :
    Faithful id k (writeSlot id k true ready w) := by
  intro c h
  cases c with
  | none => exact absurd h not_live_none
  | some c =>
    simp only [writeSlot]
    cases hw : writeTxbuf ready w c with
    | none => exact closeSlot_faithful id k _ h
    | some p =>
      obtain ⟨c',out⟩ := p
      obtain ⟨-,hp,-⟩ := writeTxbuf_kept hw
      have hlive : c'.closePending=false := hp.trans (live_some.mp h)
      dsimp only
      split_ifs with hd
      · exact absurd hd.2 (by simp [hlive])
      · exact .inl (live_some.mpr hlive)

theorem onTdata_steady (notify : Bool) (interest : TcpConn → Option Interest)
    (data : List UInt8) : Steady id k (onTdata id k notify interest data) := by
  intro c h
  cases c with
  | none => exact absurd h not_live_none
  | some c =>
    rw [onTdata] at h ⊢
    split_ifs at h ⊢
    · exact ⟨h,List.forall_mem_nil _⟩
    · exact closeSlot_steady id k notify _ h
    · have hl := (updateConnInterest_live interest _).mp h
      have hp : c.closePending=false := (live_some.mp hl :)
      exact ⟨live_some.mpr hp,List.forall_mem_nil _⟩

theorem onTdata_faithful (interest : TcpConn → Option Interest) (data : List UInt8) :
    Faithful id k (onTdata id k true interest data) := by
  intro c h
  cases c with
  | none => exact absurd h not_live_none
  | some c =>
    rw [onTdata]
    split_ifs
    · exact .inl h
    · exact closeSlot_faithful id k _ h
    · have hp : c.closePending=false := live_some.mp h
      exact .inl ((updateConnInterest_live interest _).mpr (live_some.mpr hp))

theorem onTclose_not_live (interest : TcpConn → Option Interest) (c : Option TcpConn) :
    ¬Live (onTclose id k interest c).1 := by
  intro h
  cases c with
  | none => exact not_live_none h
  | some c =>
    rw [onTclose] at h
    split_ifs at h
    · exact not_live_none h
    · simp [live_some,updateConnInterest] at h

end Ops

/-- An operation at slot `j`, seen from slot `k`: it is steady there if it is at `j`. -/
theorem atSlot_steady {id : UInt8} {conns : Slot → Option TcpConn} {j k : Slot} {op : SlotOp}
    (hs : SendsFor id j op) (hj : Steady id j op) (h : Live ((atSlot conns j op).1 k)) :
    Live (conns k) ∧ ∀f∈(atSlot conns j op).2.frames,slotMark id k f=none := by
  by_cases hjk : j=k
  · subst hjk
    rw [atSlot_self] at h
    exact hj _ h
  · rw [atSlot_other _ (Ne.symm hjk)] at h
    exact ⟨h,fun f hf => slotMark_other (hs _ f hf) hjk⟩

theorem atSlot_faithful {id : UInt8} {conns : Slot → Option TcpConn} {j k : Slot} {op : SlotOp}
    (hj : j=k → Faithful id k op) (h : Live (conns k)) :
    Live ((atSlot conns j op).1 k) ∨
      ∃f∈(atSlot conns j op).2.frames,slotMark id k f=some .close := by
  by_cases hjk : j=k
  · subst hjk
    rw [atSlot_self]
    exact hj rfl _ h
  · rw [atSlot_other _ (Ne.symm hjk)]
    exact .inl h

namespace TcpSourceChannel

theorem slotEvent_steady (s : TcpSourceChannel) (k : Slot) (readable writable : Bool) (io : Io) :
    Steady s.chId k (s.slotEvent k readable writable io) :=
  .seq (.guard _ (readLoop_steady _ _ _ _ _))
    (.guard _ (.seq (writeSlot_steady _ _ _ _ _) (updateConnInterest_steady _ _ _)))

theorem slotFrame_steady (s : TcpSourceChannel) (k : Slot) (ftype : UInt8) (data : List UInt8) :
    Steady s.chId k (s.slotFrame k ftype data) := by
  unfold slotFrame
  split_ifs
  · exact onTdata_steady _ _ _ _ _
  · exact fun c h => absurd h (onTclose_not_live _ _ _ c)
  · exact Steady.skip _ _

theorem accept_linkUp (s : TcpSourceChannel) (as : List Accepted) :
    (s.accept as).1.linkUp=s.linkUp := by
  refine accept_induct (P := fun s' _ => s'.linkUp=s.linkUp) (e := .quiet) (fun s' e a h => ?_)
    rfl as
  rcases acceptOne_cases s' a with ⟨n,h'⟩|⟨n,slot,-,-,h'⟩
  · rw [h']
    exact h
  · rw [h']
    exact h

/-- A connection that lives after the accept loop lived before, or was announced. -/
theorem accept_live (s : TcpSourceChannel) (k : Slot) (as : List Accepted)
    (h : Live ((s.accept as).1.conns k)) :
    (Live (s.conns k) ∧ ∀f∈(s.accept as).2.frames,slotMark s.chId k f=none) ∨
      s.linkUp=true ∧ lastMark (slotMark s.chId k) (s.accept as).2.frames=some .conn := by
  have hloop := accept_induct (P := fun s' e =>
      s'.chId=s.chId ∧ s'.linkUp=s.linkUp ∧ (Live (s'.conns k) →
        (Live (s.conns k) ∧ ∀f∈e.frames,slotMark s.chId k f=none) ∨
          s.linkUp=true ∧ lastMark (slotMark s.chId k) e.frames=some .conn))
    (s := s) (e := .quiet) (fun s' e a he => ?_) ⟨rfl,rfl,fun h => .inl ⟨h,nofun⟩⟩ as
  · simpa using hloop.2.2 h
  · obtain ⟨hid,hup,he⟩ := he
    have hlink : s'.linkUp=false → s'.acceptOne a=(s',.quiet) := fun h => by simp [acceptOne,h]
    rcases acceptOne_cases s' a with ⟨n,h'⟩|⟨slot',slot,-,hfree,h'⟩
    · rw [h']
      refine ⟨hid,hup,fun h => ?_⟩
      simpa using he h
    · have hup' : s'.linkUp=true := by
        by_contra hdown
        rw [hlink (by simpa using hdown)] at h'
        simpa [Effect.quiet,Effect.sends] using congrArg (fun p => p.2.frames) h'
      rw [h']
      refine ⟨hid,hup,fun h => ?_⟩
      by_cases hk : slot=k
      · subst hk
        refine .inr ⟨hup ▸ hup',?_⟩
        rw [Effect.next_frames,lastMark_append,Effect.sends_frames,lastMark_cons,hid,
          slotMark_tconn]
        rfl
      · have hother : slotMark s.chId k (tconnFrame s'.chId slot)=none := by
          rw [hid]
          exact slotMark_other .tconn hk
        simp only [Function.update_of_ne (Ne.symm hk)] at h
        rcases he h with ⟨hl,hf⟩|⟨hl,hf⟩
        · refine .inl ⟨hl,?_⟩
          intro f hmem
          rcases List.mem_append.mp hmem with hmem|hmem
          · exact hf f hmem
          · rw [List.mem_singleton.mp hmem]
            exact hother
        · refine .inr ⟨hl,?_⟩
          rw [Effect.next_frames,lastMark_append_unmarked _ (by simpa using hother)]
          exact hf

theorem setPaused_live (s : TcpSourceChannel) (p : Bool) (k : Slot) :
    Live ((s.setPaused p).conns k) ↔ Live (s.conns k) := by
  unfold setPaused
  split_ifs
  · rfl
  · exact updateConnInterest_live _ _

theorem apply_linkUp (s : TcpSourceChannel) {call : Call}
    (hc : call.op≠.onLinkConnect ∧ call.op≠.onLinkDisconnect) :
    (s.apply call).1.linkUp=s.linkUp := by
  obtain ⟨op,io⟩ := call
  cases op with
  | onFrame ftype payload =>
    simp only [apply,onFrame]
    split <;> rfl
  | onLinkConnect => exact absurd rfl hc.1
  | onLinkDisconnect => exact absurd rfl hc.2
  | tick now => rfl
  | handleEvent token readable writable =>
    simp only [apply,handleEvent]
    split_ifs
    · exact accept_linkUp s io.accepts
    · rfl
    · rfl
  | pauseSourceReads =>
    simp only [apply,setPaused]
    split_ifs <;> rfl
  | resumeSourceReads =>
    simp only [apply,setPaused]
    split_ifs <;> rfl

/-- What lives after a call lived before and nothing was said about it, or it was announced. -/
theorem apply_live (s : TcpSourceChannel) (call : Call) (k : Slot)
    (h : Live ((s.apply call).1.conns k)) :
    (Live (s.conns k) ∧ ∀f∈(s.apply call).2.frames,slotMark s.chId k f=none) ∨
      s.linkUp=true ∧ lastMark (slotMark s.chId k) (s.apply call).2.frames=some .conn := by
  obtain ⟨op,io⟩ := call
  cases op with
  | onFrame ftype payload =>
    simp only [apply,onFrame] at h ⊢
    cases hp : slotOfPayload payload with
    | none =>
      rw [hp] at h
      exact .inl ⟨h,List.forall_mem_nil _⟩
    | some v =>
      rw [hp] at h
      exact .inl (atSlot_steady (slotFrame_sends s v.1 ftype v.2)
        (slotFrame_steady s v.1 ftype v.2) h)
  | onLinkConnect => exact .inl ⟨h,List.forall_mem_nil _⟩
  | onLinkDisconnect => exact absurd h not_live_none
  | tick now => exact .inl ⟨h,List.forall_mem_nil _⟩
  | handleEvent token readable writable =>
    simp only [apply,handleEvent] at h ⊢
    split_ifs at h ⊢
    · exact accept_live s k io.accepts h
    · exact .inl ⟨h,List.forall_mem_nil _⟩
    · exact .inl (atSlot_steady (slotEvent_sends s _ readable writable io)
        (slotEvent_steady s _ readable writable io) h)
  | pauseSourceReads => exact .inl ⟨(s.setPaused_live true k).mp h,List.forall_mem_nil _⟩
  | resumeSourceReads => exact .inl ⟨(s.setPaused_live false k).mp h,List.forall_mem_nil _⟩

theorem apply_tclose (s : TcpSourceChannel) {payload data : List UInt8} {k : Slot} (io : Io)
    (hp : slotOfPayload payload=some (k,data)) :
    ¬Live ((s.apply ⟨.onFrame fTclose payload,io⟩).1.conns k) := by
  rw [s.apply_slotFrame hp]
  have hne : fTclose≠fTdata := by decide
  simp only [atSlot_self,slotFrame,if_neg hne,if_true]
  exact onTclose_not_live _ _ _ _

end TcpSourceChannel

namespace TcpDestChannel

theorem finishConnect_faithful (id : UInt8) (k : Slot) (writable : Bool) (io : Io) :
    Faithful id k (finishConnect id k writable io) := by
  intro c h
  cases c with
  | none => exact absurd h not_live_none
  | some c =>
    simp only [finishConnect]
    split_ifs
    · exact .inl (live_some.mpr (live_some.mp h :))
    · exact closeSlot_faithful id k _ h
    · exact .inl h

theorem slotEvent_faithful (d : TcpDestChannel) (k : Slot) (readable writable : Bool) (io : Io) :
    Faithful d.chId k (d.slotEvent k readable writable io) :=
  .seq (finishConnect_faithful _ _ _ _) (.seq (.guard _ (writeSlot_faithful _ _ _ _))
    (.seq (.guard _ (readLoop_faithful _ _ _ _)) (updateConnInterest_faithful _ _ _)))

theorem slotFrame_faithful (d : TcpDestChannel) (k : Slot) {ftype : UInt8} (data : List UInt8)
    (io : Io) (hf : ftype≠fTclose) : Faithful d.chId k (d.slotFrame k ftype data io) := by
  unfold slotFrame
  split_ifs
  · intro c h
    cases c with
    | none => exact absurd h not_live_none
    | some c => exact .inl h
  · exact onTdata_faithful _ _ _ _
  · exact Faithful.skip _ _

theorem setPaused_live (d : TcpDestChannel) (p : Bool) (k : Slot) :
    Live ((d.setPaused p).conns k) ↔ Live (d.conns k) := by
  unfold setPaused
  split_ifs
  · rfl
  · exact updateConnInterest_live _ _

/-- What lives before a call, other than F_TCLOSE for it or a greeting, lives after it or the peer
is told. -/
theorem apply_live (d : TcpDestChannel) {call : Call} {k : Slot}
    (hc : call.op≠.onLinkConnect ∧ call.op≠.onLinkDisconnect)
    (hclose : ∀payload data,call.op=.onFrame fTclose payload → slotOfPayload payload≠some (k,data))
    (h : Live (d.conns k)) :
    Live ((d.apply call).1.conns k) ∨
      ∃f∈(d.apply call).2.frames,slotMark d.chId k f=some .close := by
  obtain ⟨op,io⟩ := call
  cases op with
  | onFrame ftype payload =>
    simp only [apply,onFrame]
    cases hp : slotOfPayload payload with
    | none => exact .inl h
    | some v =>
      obtain ⟨j,data⟩ := v
      refine atSlot_faithful ?_ h
      rintro rfl
      apply slotFrame_faithful
      rintro rfl
      exact hclose payload data rfl hp
  | onLinkConnect => exact absurd rfl hc.1
  | onLinkDisconnect => exact absurd rfl hc.2
  | tick now => exact .inl h
  | handleEvent token readable writable =>
    refine atSlot_faithful ?_ h
    rintro rfl
    exact slotEvent_faithful d _ readable writable io
  | pauseSourceReads => exact .inl ((d.setPaused_live true k).mpr h)
  | resumeSourceReads => exact .inl ((d.setPaused_live false k).mpr h)

/-- F_TCONN leaves a live connection behind or is answered, unless the slot still drains. -/
theorem apply_tconn (d : TcpDestChannel) {payload data : List UInt8} {k : Slot} (io : Io)
    (hp : slotOfPayload payload=some (k,data))
    (hd : ∀c,d.conns k=some c → c.closePending=false) :
    Live ((d.apply ⟨.onFrame fTconn payload,io⟩).1.conns k) ∨
      ∃f∈(d.apply ⟨.onFrame fTconn payload,io⟩).2.frames,slotMark d.chId k f=some .close := by
  rw [d.apply_slotFrame hp]
  simp only [atSlot_self,slotFrame,if_true]
  cases hc : d.conns k with
  | some c => exact .inl (live_some.mpr (hd c hc))
  | none =>
    rw [openConn]
    split
    · exact .inr ⟨_,List.mem_singleton_self _,slotMark_tclose _ _⟩
    · exact .inl (live_some.mpr rfl)

end TcpDestChannel

end Serialmux.Channel

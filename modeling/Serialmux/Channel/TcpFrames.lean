import Serialmux.Channel.Tcp

namespace Serialmux.Channel

open Protocol Framework

/-- The frames a TCP channel can send for a slot, each accepted by `build_frame`. -/
inductive TcpFrame (chId : UInt8) (slot : Slot) : Frame → Prop
  | tconn : TcpFrame chId slot (tconnFrame chId slot)
  | tdata (data : List UInt8) (hd : data≠[]) (hn : data.length ≤ maxPayload-2) :
      TcpFrame chId slot (tdataFrame chId slot data)
  | tclose : TcpFrame chId slot (tcloseFrame chId slot)

/-- The slot a frame is about. -/
def cidOf (f : Frame) : Option Slot := (slotOfPayload f.payload).map Prod.fst

theorem slotOfPayload_of_cid {f : Frame} {slot : Slot} (h : cidOf f=some slot) :
    ∃data,slotOfPayload f.payload=some (slot,data) := by
  unfold cidOf at h
  cases hp : slotOfPayload f.payload with
  | none => simp [hp] at h
  | some v =>
    obtain ⟨j,data⟩ := v
    simp only [hp,Option.map_some,Option.some.injEq] at h
    exact ⟨data,by rw [h]⟩

@[simp] theorem cidOf_tdataFrame (chId : UInt8) (slot : Slot) (data : List UInt8) :
    cidOf (tdataFrame chId slot data)=some slot := by
  simp [cidOf,tdataFrame,slotOfPayload_packCid]

@[simp] theorem cidOf_tconnFrame (chId : UInt8) (slot : Slot) :
    cidOf (tconnFrame chId slot)=some slot := by
  have h := slotOfPayload_packCid slot []
  rw [List.append_nil] at h
  simp [cidOf,tconnFrame,h]

@[simp] theorem cidOf_tcloseFrame (chId : UInt8) (slot : Slot) :
    cidOf (tcloseFrame chId slot)=some slot := cidOf_tconnFrame chId slot

namespace TcpFrame

variable {chId : UInt8} {slot : Slot} {f : Frame}

theorem cid (h : TcpFrame chId slot f) : cidOf f=some slot := by
  cases h <;> simp

theorem channel (h : TcpFrame chId slot f) : f.channel=chId := by
  cases h <;> rfl

theorem fits (h : TcpFrame chId slot f) : f.payload.length ≤ maxPayload := by
  cases h with
  | tconn => exact (by decide : 2 ≤ maxPayload)
  | tclose => exact (by decide : 2 ≤ maxPayload)
  | tdata data hd hn =>
    simp only [tdataFrame,packCid,u16ToLe,List.length_append,List.length_cons,List.length_nil,
      maxPayload] at hn ⊢
    omega

end TcpFrame

/-- An operation that sends only frames for its slot. -/
def SendsFor (chId : UInt8) (slot : Slot) (f : SlotOp) : Prop :=
  ∀c,∀g∈(f c).2.frames,TcpFrame chId slot g

namespace SendsFor

variable {chId : UInt8} {slot : Slot} {f g : SlotOp}

theorem skip : SendsFor chId slot .skip := by
  intro c g hg
  simp [SlotOp.skip] at hg

theorem seq (hf : SendsFor chId slot f) (hg : SendsFor chId slot g) :
    SendsFor chId slot (.seq f g) := by
  intro c x hx
  rcases List.mem_append.mp hx with hx|hx
  · exact hf c x hx
  · exact hg _ x hx

theorem guard (b : Bool) (hf : SendsFor chId slot f) : SendsFor chId slot (.guard b f) := by
  cases b with
  | false => exact skip
  | true => exact hf

end SendsFor

section Slot

variable (chId : UInt8) (slot : Slot)

theorem tdataFrames_tcp {bs : List UInt8} {f : Frame} (h : f∈tdataFrames chId slot bs) :
    TcpFrame chId slot f := by
  obtain ⟨c,hc,rfl⟩ := List.mem_map.mp h
  obtain ⟨hne,hlen⟩ := mem_chunksOf (by decide) hc
  exact .tdata c hne hlen

theorem closeSlot_sends (notify : Bool) : SendsFor chId slot (closeSlot chId slot notify) := by
  intro c f hf
  cases c with
  | none => simp [closeSlot] at hf
  | some c =>
    cases notify with
    | false => simp [closeSlot] at hf
    | true =>
      rw [List.mem_singleton.mp hf]
      exact .tclose

theorem updateConnInterest_sends (interest : TcpConn → Option Interest) :
    SendsFor chId slot (updateConnInterest interest) := by
  intro c f hf
  simp [updateConnInterest] at hf

theorem readLoop_sends (notify : Bool) (blocked : TcpConn → Bool)
    (rs : List (ReadResult 65536)) :
    SendsFor chId slot (readLoop chId slot notify blocked rs) := by
  intro c f hf
  induction rs with
  | nil => simp [readLoop] at hf
  | cons r rs ih =>
    cases c with
    | none => simp [readLoop] at hf
    | some c =>
      simp only [readLoop] at hf
      split_ifs at hf
      · simp at hf
      · cases r with
        | wouldBlock => simp at hf
        | error e => exact closeSlot_sends chId slot notify _ f hf
        | data bs hn =>
          cases bs with
          | nil => exact closeSlot_sends chId slot notify _ f hf
          | cons b bs =>
            rcases List.mem_append.mp hf with hf|hf
            · exact tdataFrames_tcp chId slot hf
            · exact ih hf

theorem writeSlot_sends (notify : Bool) (ready : TcpConn → Bool) (w : WriteResult) :
    SendsFor chId slot (writeSlot chId slot notify ready w) := by
  intro c f hf
  cases c with
  | none => simp [writeSlot] at hf
  | some c =>
    rw [writeSlot] at hf
    split at hf
    · exact closeSlot_sends chId slot notify _ f hf
    · split_ifs at hf <;> simp at hf

theorem onTdata_sends (notify : Bool) (interest : TcpConn → Option Interest) (data : List UInt8) :
    SendsFor chId slot (onTdata chId slot notify interest data) := by
  intro c f hf
  cases c with
  | none => simp [onTdata] at hf
  | some c =>
    rw [onTdata] at hf
    split_ifs at hf
    · simp at hf
    · exact closeSlot_sends chId slot notify _ f hf
    · exact updateConnInterest_sends chId slot interest _ f hf

theorem onTclose_quiet (interest : TcpConn → Option Interest) (c : Option TcpConn) :
    (onTclose chId slot interest c).2=.quiet := by
  cases c with
  | none => rfl
  | some c =>
    rw [onTclose]
    split_ifs <;> rfl

theorem onTclose_sends (interest : TcpConn → Option Interest) :
    SendsFor chId slot (onTclose chId slot interest) := by
  intro c f hf
  simp [onTclose_quiet] at hf

end Slot

@[simp] theorem atSlot_self (conns : Slot → Option TcpConn) (slot : Slot) (f : SlotOp) :
    (atSlot conns slot f).1 slot=(f (conns slot)).1 := by
  simp [atSlot]

theorem atSlot_other (conns : Slot → Option TcpConn) {slot k : Slot} (h : k≠slot) (f : SlotOp) :
    (atSlot conns slot f).1 k=conns k := by
  simp [atSlot,h]

@[simp] theorem atSlot_effect (conns : Slot → Option TcpConn) (slot : Slot) (f : SlotOp) :
    (atSlot conns slot f).2=(f (conns slot)).2 := rfl

namespace TcpSourceChannel

theorem slotEvent_sends (s : TcpSourceChannel) (slot : Slot) (readable writable : Bool) (io : Io) :
    SendsFor s.chId slot (s.slotEvent slot readable writable io) :=
  .seq (.guard _ (readLoop_sends _ _ _ _ _))
    (.guard _ (.seq (writeSlot_sends _ _ _ _ _) (updateConnInterest_sends _ _ _)))

theorem slotFrame_sends (s : TcpSourceChannel) (slot : Slot) (ftype : UInt8) (data : List UInt8) :
    SendsFor s.chId slot (s.slotFrame slot ftype data) := by
  unfold slotFrame
  split_ifs
  · exact onTdata_sends _ _ _ _ _
  · exact onTclose_sends _ _ _
  · exact .skip

/-- An event of a slot's token reaches exactly that slot. -/
theorem apply_slotEvent (s : TcpSourceChannel) (slot : Slot) (readable writable : Bool) (io : Io) :
    s.apply ⟨.handleEvent (tcpSlotToken s.chId slot) readable writable,io⟩=
      ({s with conns := (atSlot s.conns slot (s.slotEvent slot readable writable io)).1},
        (s.slotEvent slot readable writable io (s.conns slot)).2) := by
  simp only [apply,handleEvent,if_neg (tcpSlotToken_ne_primary s.chId slot),tcpEvent,
    slotOfToken_tcpSlotToken]
  rfl

/-- A frame reaches exactly the slot of its cid. -/
theorem apply_slotFrame (s : TcpSourceChannel) {slot : Slot} {data payload : List UInt8}
    (hp : slotOfPayload payload=some (slot,data)) (ftype : UInt8) (io : Io) :
    s.apply ⟨.onFrame ftype payload,io⟩=
      ({s with conns := (atSlot s.conns slot (s.slotFrame slot ftype data)).1},
        (s.slotFrame slot ftype data (s.conns slot)).2) := by
  simp only [apply,onFrame,hp]
  rfl

theorem probe_free {conns : Slot → Option TcpConn} {n next : Nat} {slot : Slot}
    (h : (probe conns n next).1=some slot) : conns slot=none := by
  induction n generalizing next with
  | zero => simp [probe] at h
  | succ n ih =>
    rw [probe] at h
    split_ifs at h with hc
    · simp only [Option.some.injEq] at h
      exact h ▸ hc
    · exact ih h

/-- One turn of the accept loop: nothing but the cursor moves, or a free slot is opened and
announced. -/
theorem acceptOne_cases (s : TcpSourceChannel) (a : Accepted) :
    (∃n,s.acceptOne a=({s with nextSlot := n},.quiet)) ∨
    (∃n slot,s.allocSlot.1=some slot ∧ s.conns slot=none ∧ s.acceptOne a=
      ({s with
        nextSlot := n
        conns := Function.update s.conns slot (some (.opened a.stream false))},
        .sends [tconnFrame s.chId slot])) := by
  obtain ⟨chId,conns,nextSlot,linkUp,bpPaused⟩ := s
  cases linkUp with
  | false => exact .inl ⟨nextSlot,rfl⟩
  | true =>
    simp only [acceptOne,allocSlot,if_true]
    cases hp : (probe conns maxTcpConns nextSlot).1 with
    | none => exact .inl ⟨_,rfl⟩
    | some slot =>
      cases a.registers with
      | false => exact .inl ⟨_,rfl⟩
      | true => exact .inr ⟨_,slot,rfl,probe_free hp,rfl⟩

/-- The rule for the accept loop: what every turn keeps, the loop keeps. -/
theorem accept_induct {P : TcpSourceChannel → Effect → Prop}
    (hstep : ∀s e a,P s e → P (s.acceptOne a).1 (e.next (s.acceptOne a).2))
    {s : TcpSourceChannel} {e : Effect} (h : P s e) (as : List Accepted) :
    P (s.accept as).1 (e.next (s.accept as).2) := by
  induction as generalizing s e with
  | nil => simpa [accept] using h
  | cons a as ih =>
    have h' := ih (hstep s e a h)
    simpa [accept,Effect.next] using h'

theorem accept_sends (s : TcpSourceChannel) (as : List Accepted) :
    (s.accept as).1.chId=s.chId ∧
      ∀f∈(s.accept as).2.frames,∃slot,TcpFrame s.chId slot f := by
  have h := accept_induct (P := fun s' e => s'.chId=s.chId ∧ ∀f∈e.frames,∃slot,TcpFrame s.chId slot f)
    (s := s) (e := .quiet) (fun s' e a he => by
      obtain ⟨hid,he⟩ := he
      rcases acceptOne_cases s' a with ⟨n,h⟩|⟨n,slot,-,-,h⟩
      · rw [h]
        exact ⟨hid,by simpa using he⟩
      · rw [h]
        refine ⟨hid,?_⟩
        intro f hf
        rcases List.mem_append.mp hf with hf|hf
        · exact he f hf
        · rw [List.mem_singleton.mp hf,hid]
          exact ⟨slot,.tconn⟩) ⟨rfl,nofun⟩ as
  simpa using h

theorem apply_sends (s : TcpSourceChannel) (call : Call) :
    (s.apply call).1.chId=s.chId ∧
      ∀f∈(s.apply call).2.frames,∃slot,TcpFrame s.chId slot f := by
  obtain ⟨op,io⟩ := call
  cases op with
  | onFrame ftype payload =>
    simp only [apply,onFrame]
    cases slotOfPayload payload with
    | none => exact ⟨rfl,nofun⟩
    | some v => exact ⟨rfl,fun f hf => ⟨v.1,slotFrame_sends s v.1 ftype v.2 _ f hf⟩⟩
  | handleEvent token readable writable =>
    simp only [apply,handleEvent]
    split_ifs
    · exact accept_sends s io.accepts
    · exact ⟨rfl,nofun⟩
    · exact ⟨rfl,fun f hf => ⟨_,slotEvent_sends s _ readable writable io _ f hf⟩⟩
  | onLinkConnect => exact ⟨rfl,nofun⟩
  | onLinkDisconnect => exact ⟨rfl,nofun⟩
  | tick => exact ⟨rfl,nofun⟩
  | pauseSourceReads =>
    refine ⟨?_,nofun⟩
    simp only [apply,setPaused]
    split_ifs <;> rfl
  | resumeSourceReads =>
    refine ⟨?_,nofun⟩
    simp only [apply,setPaused]
    split_ifs <;> rfl

end TcpSourceChannel

namespace TcpDestChannel

/-- An event of a slot's token reaches exactly that slot. -/
theorem apply_slotEvent (d : TcpDestChannel) (slot : Slot) (readable writable : Bool) (io : Io) :
    d.apply ⟨.handleEvent (tcpSlotToken d.chId slot) readable writable,io⟩=
      ({d with conns := (atSlot d.conns slot (d.slotEvent slot readable writable io)).1},
        (d.slotEvent slot readable writable io (d.conns slot)).2) := by
  simp only [apply,tcpEvent,slotOfToken_tcpSlotToken]
  rfl

/-- A frame reaches exactly the slot of its cid. -/
theorem apply_slotFrame (d : TcpDestChannel) {slot : Slot} {data payload : List UInt8}
    (hp : slotOfPayload payload=some (slot,data)) (ftype : UInt8) (io : Io) :
    d.apply ⟨.onFrame ftype payload,io⟩=
      ({d with conns := (atSlot d.conns slot (d.slotFrame slot ftype data io)).1},
        (d.slotFrame slot ftype data io (d.conns slot)).2) := by
  simp only [apply,onFrame,hp]
  rfl

theorem openConn_sends (chId : UInt8) (slot : Slot) (io : Io) :
    SendsFor chId slot (openConn chId slot io) := by
  intro c f hf
  cases c with
  | some c => simp [openConn] at hf
  | none =>
    rw [openConn] at hf
    split at hf
    · rw [List.mem_singleton.mp hf]
      exact .tclose
    · simp at hf

theorem finishConnect_sends (chId : UInt8) (slot : Slot) (writable : Bool) (io : Io) :
    SendsFor chId slot (finishConnect chId slot writable io) := by
  intro c f hf
  cases c with
  | none => simp [finishConnect] at hf
  | some c =>
    rw [finishConnect] at hf
    split_ifs at hf
    · simp at hf
    · exact closeSlot_sends chId slot true _ f hf
    · simp at hf

theorem slotEvent_sends (d : TcpDestChannel) (slot : Slot) (readable writable : Bool) (io : Io) :
    SendsFor d.chId slot (d.slotEvent slot readable writable io) :=
  .seq (finishConnect_sends _ _ _ _) (.seq (.guard _ (writeSlot_sends _ _ _ _ _))
    (.seq (.guard _ (readLoop_sends _ _ _ _ _)) (updateConnInterest_sends _ _ _)))

theorem slotFrame_sends (d : TcpDestChannel) (slot : Slot) (ftype : UInt8) (data : List UInt8)
    (io : Io) : SendsFor d.chId slot (d.slotFrame slot ftype data io) := by
  unfold slotFrame
  split_ifs
  · exact openConn_sends _ _ _
  · exact onTdata_sends _ _ _ _ _
  · exact onTclose_sends _ _ _
  · exact .skip

theorem apply_sends (d : TcpDestChannel) (call : Call) :
    (d.apply call).1.chId=d.chId ∧
      ∀f∈(d.apply call).2.frames,∃slot,TcpFrame d.chId slot f := by
  obtain ⟨op,io⟩ := call
  cases op with
  | onFrame ftype payload =>
    simp only [apply,onFrame]
    cases slotOfPayload payload with
    | none => exact ⟨rfl,nofun⟩
    | some v => exact ⟨rfl,fun f hf => ⟨v.1,slotFrame_sends d v.1 ftype v.2 io _ f hf⟩⟩
  | handleEvent token readable writable =>
    exact ⟨rfl,fun f hf => ⟨_,slotEvent_sends d _ readable writable io _ f hf⟩⟩
  | onLinkConnect => exact ⟨rfl,nofun⟩
  | onLinkDisconnect => exact ⟨rfl,nofun⟩
  | tick => exact ⟨rfl,nofun⟩
  | pauseSourceReads =>
    refine ⟨?_,nofun⟩
    simp only [apply,setPaused]
    split_ifs <;> rfl
  | resumeSourceReads =>
    refine ⟨?_,nofun⟩
    simp only [apply,setPaused]
    split_ifs <;> rfl

end TcpDestChannel

end Serialmux.Channel

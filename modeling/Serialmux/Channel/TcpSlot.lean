import Serialmux.Channel.TcpFrames

namespace Serialmux.Channel

open Protocol Framework

/-- The stream bytes a frame carries for its connection. -/
def streamBytes (f : Frame) : List UInt8 := if f.ftype=fTdata then f.payload.drop 2 else []

def streamOf (fs : List Frame) : List UInt8 := fs.flatMap streamBytes

@[simp] theorem streamOf_nil : streamOf []=[] := rfl

@[simp] theorem streamOf_cons (f : Frame) (fs : List Frame) :
    streamOf (f::fs)=streamBytes f++streamOf fs := rfl

@[simp] theorem streamOf_append (fs gs : List Frame) :
    streamOf (fs++gs)=streamOf fs++streamOf gs := by
  simp [streamOf]

@[simp] theorem streamBytes_tdata (chId : UInt8) (slot : Slot) (data : List UInt8) :
    streamBytes (tdataFrame chId slot data)=data := by
  simp [streamBytes,tdataFrame,packCid,u16ToLe]

@[simp] theorem streamBytes_tclose (chId : UInt8) (slot : Slot) :
    streamBytes (tcloseFrame chId slot)=[] := by
  simp [streamBytes,tcloseFrame,fTclose,fTdata]

/-- Chunking loses nothing: the frames of one read carry exactly its bytes. -/
theorem streamOf_tdataFrames (chId : UInt8) (slot : Slot) (bs : List UInt8) :
    streamOf (tdataFrames chId slot bs)=bs := by
  have h := chunksOf_flatten (show 0 < maxPayload-2 by decide) bs
  rw [tdataFrames,streamOf,List.flatMap_map]
  simp only [streamBytes_tdata,List.flatMap_id']
  exact h

theorem tdataFrames_ftype {chId : UInt8} {slot : Slot} {bs : List UInt8} {f : Frame}
    (h : f∈tdataFrames chId slot bs) : f.ftype=fTdata := by
  obtain ⟨c,-,rfl⟩ := List.mem_map.mp h
  rfl

/-- What a local event may make of a connection, whatever the kernel answers: bytes read leave as
frames, bytes written come off the front of the buffer, and the connection is never replaced. -/
structure LocalResult (c : TcpConn) (r : Option TcpConn × Effect) : Prop where
  carried : streamOf r.2.frames=r.2.read
  unannounced : ∀f∈r.2.frames,f.ftype≠fTconn
  kept : ∀c',r.1=some c' → c'.stream=c.stream ∧ r.2.wrote++c'.txbuf=c.txbuf
  taken : r.2.wrote <+: c.txbuf

/-- An operation that is local to a slot; an empty slot it passes by. -/
structure LocalOp (op : SlotOp) : Prop where
  empty : op none=(none,.quiet)
  occupied : ∀c,LocalResult c (op (some c))

namespace LocalResult

/-- The connection lives on, with `out` written. -/
theorem alive {c c' : TcpConn} {out : List UInt8} (hs : c'.stream=c.stream)
    (hout : out++c'.txbuf=c.txbuf) : LocalResult c (some c',⟨[],[],out⟩) where
  carried := rfl
  unannounced := nofun
  kept := by
    rintro x ⟨⟩
    exact ⟨hs,hout⟩
  taken := hout ▸ List.prefix_append _ _

theorem closed (chId : UInt8) (slot : Slot) (notify : Bool) (c : TcpConn) :
    LocalResult c (closeSlot chId slot notify (some c)) where
  carried := by cases notify <;> simp [closeSlot]
  unannounced := by
    cases notify with
    | false => exact List.forall_mem_nil _
    | true =>
      intro f hf
      rw [List.mem_singleton.mp hf]
      exact (by decide : fTclose≠fTconn)
  kept _ h := absurd h (by simp [closeSlot])
  taken := List.nil_prefix

/-- The connection ends after `out` was written. -/
theorem drained {c : TcpConn} {out : List UInt8} (h : out <+: c.txbuf) :
    LocalResult c (none,⟨[],[],out⟩) where
  carried := rfl
  unannounced := nofun
  kept := nofun
  taken := h

/-- One more read goes before the rest. -/
theorem received {c : TcpConn} {r : Option TcpConn × Effect} (chId : UInt8) (slot : Slot)
    (bs : List UInt8) (h : LocalResult c r) :
    LocalResult c (r.1,Effect.next ⟨tdataFrames chId slot bs,bs,[]⟩ r.2) where
  carried := by simp [streamOf_tdataFrames,h.carried]
  unannounced := by
    intro f hf
    rcases List.mem_append.mp hf with hf|hf
    · rw [tdataFrames_ftype hf]
      decide
    · exact h.unannounced f hf
  kept := h.kept
  taken := h.taken

end LocalResult

namespace LocalOp

theorem skip : LocalOp .skip := ⟨rfl,fun _ => .alive rfl rfl⟩

theorem seq {f g : SlotOp} (hf : LocalOp f) (hg : LocalOp g) : LocalOp (.seq f g) := by
  refine ⟨by simp [SlotOp.seq,hf.empty,hg.empty],fun c => ?_⟩
  have h := hf.occupied c
  simp only [SlotOp.seq]
  cases hm : (f (some c)).1 with
  | none =>
    simp only [hg.empty,Effect.next_quiet]
    exact ⟨h.carried,h.unannounced,nofun,h.taken⟩
  | some m =>
    obtain ⟨hs,hout⟩ := h.kept m hm
    have h' := hg.occupied m
    constructor
    · simp [h.carried,h'.carried]
    · intro x hx
      rcases List.mem_append.mp hx with hx|hx
      · exact h.unannounced x hx
      · exact h'.unannounced x hx
    · intro c' hc
      obtain ⟨hs',hout'⟩ := h'.kept c' hc
      exact ⟨hs'.trans hs,by rw [Effect.next_wrote,List.append_assoc,hout',hout]⟩
    · rw [Effect.next_wrote,← hout]
      exact (List.prefix_append_right_inj _).mpr h'.taken

theorem guard {f : SlotOp} (b : Bool) (hf : LocalOp f) : LocalOp (.guard b f) := by
  cases b with
  | false => exact skip
  | true => exact hf

end LocalOp

theorem updateConnInterest_local (interest : TcpConn → Option Interest) :
    LocalOp (updateConnInterest interest) := ⟨rfl,fun _ => .alive rfl rfl⟩

section Slot

variable (chId : UInt8) (slot : Slot)

theorem readLoop_local (notify : Bool) (blocked : TcpConn → Bool)
    (rs : List (ReadResult 65536)) : LocalOp (readLoop chId slot notify blocked rs) := by
  induction rs with
  | nil => exact LocalOp.skip
  | cons r rs ih =>
    refine ⟨rfl,fun c => ?_⟩
    simp only [readLoop]
    split_ifs
    · exact .alive rfl rfl
    · cases r with
      | wouldBlock => exact .alive rfl rfl
      | error e => exact .closed chId slot notify c
      | data bs hn =>
        cases bs with
        | nil => exact .closed chId slot notify c
        | cons b bs => exact (ih.occupied c).received chId slot (b::bs)

theorem writeTxbuf_kept {ready : TcpConn → Bool} {w : WriteResult} {c c' : TcpConn}
    {out : List UInt8} (h : writeTxbuf ready w c=some (c',out)) :
    c'.stream=c.stream ∧ c'.closePending=c.closePending ∧ out++c'.txbuf=c.txbuf := by
  rw [writeTxbuf.eq_def] at h
  split_ifs at h
  · cases w with
    | wrote n =>
      cases h
      exact ⟨rfl,rfl,List.take_append_drop n c.txbuf⟩
    | again =>
      cases h
      exact ⟨rfl,rfl,rfl⟩
    | error => simp at h
  · cases h
    exact ⟨rfl,rfl,rfl⟩

theorem writeSlot_local (notify : Bool) (ready : TcpConn → Bool) (w : WriteResult) :
    LocalOp (writeSlot chId slot notify ready w) := by
  refine ⟨rfl,fun c => ?_⟩
  simp only [writeSlot]
  cases hw : writeTxbuf ready w c with
  | none => exact .closed chId slot notify c
  | some p =>
    obtain ⟨c',out⟩ := p
    obtain ⟨hs,-,hout⟩ := writeTxbuf_kept hw
    dsimp only
    split_ifs
    · exact .drained (hout ▸ List.prefix_append _ _)
    · exact .alive hs hout

end Slot

/-- A delivered frame that brings `bytes` for a slot: they queue up behind what is pending, or the
connection ends. -/
structure DeliverOp (bytes : List UInt8) (op : SlotOp) : Prop where
  empty : op none=(none,.quiet)
  carried : ∀c,streamOf (op c).2.frames=[]
  unannounced : ∀c,∀f∈(op c).2.frames,f.ftype≠fTconn
  kept : ∀c c',(op (some c)).1=some c' → c'.stream=c.stream ∧ c'.txbuf=c.txbuf++bytes

theorem DeliverOp.skip : DeliverOp [] .skip where
  empty := rfl
  carried _ := rfl
  unannounced _ := nofun
  kept := by
    rintro c c' ⟨⟩
    exact ⟨rfl,(List.append_nil _).symm⟩

theorem onTdata_deliver (chId : UInt8) (slot : Slot) (notify : Bool)
    (interest : TcpConn → Option Interest) (data : List UInt8) :
    DeliverOp data (onTdata chId slot notify interest data) := by
  have hclose := LocalResult.closed chId slot notify
  constructor
  · rfl
  · intro c
    cases c with
    | none => rfl
    | some c =>
      rw [onTdata]
      split_ifs
      · rfl
      · exact (hclose c).carried
      · rfl
  · intro c f hf
    cases c with
    | none => simp [onTdata] at hf
    | some c =>
      rw [onTdata] at hf
      split_ifs at hf
      · simp at hf
      · exact (hclose c).unannounced f hf
      · simp [updateConnInterest] at hf
  · intro c c' h
    rw [onTdata] at h
    split_ifs at h with hd
    · cases h
      exact ⟨rfl,by simp [hd]⟩
    · simp [closeSlot] at h
    · cases h
      exact ⟨rfl,rfl⟩

theorem onTclose_deliver (chId : UInt8) (slot : Slot) (interest : TcpConn → Option Interest) :
    DeliverOp [] (onTclose chId slot interest) := by
  constructor
  · rfl
  · intro c
    simp [onTclose_quiet]
  · intro c f hf
    simp [onTclose_quiet] at hf
  · intro c c' h
    rw [onTclose] at h
    split_ifs at h
    · simp [closeSlot] at h
    · cases h
      exact ⟨rfl,(List.append_nil _).symm⟩

/-- The data behind a cid are what the frame carries. -/
theorem slotOfPayload_data {payload data : List UInt8} {slot : Slot}
    (h : slotOfPayload payload=some (slot,data)) : data=payload.drop 2 := by
  match payload with
  | [] => simp [slotOfPayload,unpackCid] at h
  | [b] => simp [slotOfPayload,unpackCid] at h
  | b0::b1::rest =>
    simp only [slotOfPayload,unpackCid] at h
    split_ifs at h
    simp only [Option.some.injEq,Prod.mk.injEq] at h
    exact h.2.symm

theorem TcpSourceChannel.slotFrame_deliver (s : TcpSourceChannel) {slot : Slot} {f : Frame}
    {data : List UInt8} (hp : slotOfPayload f.payload=some (slot,data)) :
    DeliverOp (streamBytes f) (s.slotFrame slot f.ftype data) := by
  have hd := slotOfPayload_data hp
  unfold streamBytes slotFrame
  split_ifs
  · exact hd ▸ onTdata_deliver _ _ _ _ _
  · exact onTclose_deliver _ _ _
  · exact .skip

theorem TcpDestChannel.slotFrame_deliver (d : TcpDestChannel) {slot : Slot} {f : Frame}
    {data : List UInt8} (io : Io) (hp : slotOfPayload f.payload=some (slot,data))
    (hf : f.ftype≠fTconn) : DeliverOp (streamBytes f) (d.slotFrame slot f.ftype data io) := by
  have hd := slotOfPayload_data hp
  unfold streamBytes slotFrame
  rw [if_neg hf]
  split_ifs
  · exact hd ▸ onTdata_deliver _ _ _ _ _
  · exact onTclose_deliver _ _ _
  · exact .skip

theorem TcpSourceChannel.slotEvent_local (s : TcpSourceChannel) (slot : Slot)
    (readable writable : Bool) (io : Io) : LocalOp (s.slotEvent slot readable writable io) :=
  .seq (.guard _ (readLoop_local _ _ _ _ _))
    (.guard _ (.seq (writeSlot_local _ _ _ _ _) (updateConnInterest_local _)))

namespace TcpDestChannel

theorem finishConnect_local (chId : UInt8) (slot : Slot) (writable : Bool) (io : Io) :
    LocalOp (finishConnect chId slot writable io) := by
  refine ⟨rfl,fun c => ?_⟩
  simp only [finishConnect]
  split_ifs
  · exact .alive rfl rfl
  · exact .closed chId slot true c
  · exact .alive rfl rfl

theorem slotEvent_local (d : TcpDestChannel) (slot : Slot) (readable writable : Bool) (io : Io) :
    LocalOp (d.slotEvent slot readable writable io) :=
  .seq (finishConnect_local _ _ _ _) (.seq (.guard _ (writeSlot_local _ _ _ _ _))
    (.seq (.guard _ (readLoop_local _ _ _ _ _)) (updateConnInterest_local _)))

end TcpDestChannel

end Serialmux.Channel

import Serialmux.Channel.TcpSlot

namespace Serialmux.System

open Protocol Channel

/-- One connection through the tunnel: its slot at either end, the frames in flight for it, and the
bytes that each of its two sockets has delivered and taken so far. -/
structure Lane where
  src : Option TcpConn
  dst : Option TcpConn
  toDst : List Frame
  toSrc : List Frame
  srcRead : List UInt8
  srcWrote : List UInt8
  dstRead : List UInt8
  dstWrote : List UInt8

/-- The lane of connection `n`: both slots belong to it, its F_TCONN goes first and finds the
destination free, and what is written, pending and in flight is what was read. -/
structure LaneInv (n : Nat) (l : Lane) : Prop where
  srcStream : ∀c,l.src=some c → c.stream=n
  dstStream : ∀c,l.dst=some c → c.stream=n
  line : ∀f∈l.toDst.tail,f.ftype≠fTconn
  opening : ∀f q,l.toDst=f::q → f.ftype=fTconn →
    l.dst=none ∧ l.dstWrote=[] ∧ streamOf q=l.srcRead
  forward : ∀c,l.dst=some c →
    (∀f∈l.toDst,f.ftype≠fTconn) ∧ l.dstWrote++c.txbuf++streamOf l.toDst=l.srcRead
  backward : ∀c,l.src=some c → l.srcWrote++c.txbuf++streamOf l.toSrc=l.dstRead
  forwardPrefix : l.dstWrote <+: l.srcRead
  backwardPrefix : l.srcWrote <+: l.dstRead

namespace Lane

/-- A local operation of the source end. -/
def srcLocal (l : Lane) (op : SlotOp) : Lane :=
  {l with
    src := (op l.src).1
    toDst := l.toDst++(op l.src).2.frames
    srcRead := l.srcRead++(op l.src).2.read
    srcWrote := l.srcWrote++(op l.src).2.wrote}

/-- A local operation of the destination end. -/
def dstLocal (l : Lane) (op : SlotOp) : Lane :=
  {l with
    dst := (op l.dst).1
    toSrc := l.toSrc++(op l.dst).2.frames
    dstRead := l.dstRead++(op l.dst).2.read
    dstWrote := l.dstWrote++(op l.dst).2.wrote}

/-- A frame of the queue is handled by the source end, which leaves `q`. -/
def srcDeliver (l : Lane) (q : List Frame) (op : SlotOp) : Lane :=
  {l with src := (op l.src).1, toSrc := q, toDst := l.toDst++(op l.src).2.frames}

/-- A frame of the queue is handled by the destination end, which leaves `q`. -/
def dstDeliver (l : Lane) (q : List Frame) (op : SlotOp) : Lane :=
  {l with dst := (op l.dst).1, toDst := q, toSrc := l.toSrc++(op l.dst).2.frames}

end Lane

namespace LaneInv

variable {n : Nat} {l : Lane}

/-- Frames that announce nothing may join the queue to the destination. -/
private theorem tail_append {q fs : List Frame} (hq : ∀f∈q.tail,f.ftype≠fTconn)
    (hfs : ∀f∈fs,f.ftype≠fTconn) : ∀f∈(q++fs).tail,f.ftype≠fTconn := by
  cases q with
  | nil => exact fun f hf => hfs f (List.mem_of_mem_tail hf)
  | cons x q =>
    intro f hf
    rcases List.mem_append.mp hf with hf|hf
    · exact hq f hf
    · exact hfs f hf

/-- An announcement at the head of the longer queue was at the head before. -/
private theorem head_append {q fs r : List Frame} {f : Frame} (hfs : ∀f∈fs,f.ftype≠fTconn)
    (h : q++fs=f::r) (hf : f.ftype=fTconn) : ∃q',q=f::q' ∧ r=q'++fs := by
  cases q with
  | nil =>
    rw [List.nil_append] at h
    exact absurd hf (hfs f (by simp [h]))
  | cons x q =>
    rw [List.cons_append,List.cons_eq_cons] at h
    exact ⟨q,by rw [h.1],h.2.symm⟩

theorem srcLocal {op : SlotOp} (h : LaneInv n l) (hop : LocalOp op) :
    LaneInv n (l.srcLocal op) := by
  cases hs : l.src with
  | none =>
    obtain ⟨src,dst,toDst,toSrc,srcRead,srcWrote,dstRead,dstWrote⟩ := l
    cases hs
    simpa [Lane.srcLocal,hop.empty] using h
  | some c =>
    have hr := hop.occupied c
    constructor <;> simp only [Lane.srcLocal,hs]
    · intro c' hc
      exact (hr.kept c' hc).1.trans (h.srcStream c hs)
    · exact h.dstStream
    · exact tail_append h.line hr.unannounced
    · intro f q hq hf
      obtain ⟨q',hq',rfl⟩ := head_append hr.unannounced hq hf
      obtain ⟨h₁,h₂,h₃⟩ := h.opening f q' hq' hf
      exact ⟨h₁,h₂,by rw [streamOf_append,h₃,hr.carried]⟩
    · intro d hd
      obtain ⟨h₁,h₂⟩ := h.forward d hd
      refine ⟨?_,?_⟩
      · intro f hf
        rcases List.mem_append.mp hf with hf|hf
        · exact h₁ f hf
        · exact hr.unannounced f hf
      · rw [streamOf_append,hr.carried,← List.append_assoc,h₂]
    · intro c' hc
      rw [List.append_assoc l.srcWrote,(hr.kept c' hc).2,h.backward c hs]
    · exact h.forwardPrefix.trans (List.prefix_append _ _)
    · have hb := h.backward c hs
      rw [← hb,List.append_assoc]
      exact (List.prefix_append_right_inj _).mpr (hr.taken.trans (List.prefix_append _ _))

theorem dstLocal {op : SlotOp} (h : LaneInv n l) (hop : LocalOp op) :
    LaneInv n (l.dstLocal op) := by
  cases hd : l.dst with
  | none =>
    obtain ⟨src,dst,toDst,toSrc,srcRead,srcWrote,dstRead,dstWrote⟩ := l
    cases hd
    simpa [Lane.dstLocal,hop.empty] using h
  | some c =>
    have hr := hop.occupied c
    obtain ⟨hnone,hfor⟩ := h.forward c hd
    constructor <;> simp only [Lane.dstLocal,hd]
    · exact h.srcStream
    · intro c' hc
      exact (hr.kept c' hc).1.trans (h.dstStream c hd)
    · exact h.line
    · intro f q hq hf
      exact absurd hf (hnone f (by simp [hq]))
    · intro c' hc
      refine ⟨hnone,?_⟩
      rw [List.append_assoc l.dstWrote,(hr.kept c' hc).2,hfor]
    · intro c' hc
      rw [streamOf_append,hr.carried,← List.append_assoc,h.backward c' hc]
    · rw [← hfor,List.append_assoc]
      exact (List.prefix_append_right_inj _).mpr (hr.taken.trans (List.prefix_append _ _))
    · exact h.backwardPrefix.trans (List.prefix_append _ _)

theorem srcDeliver {op : SlotOp} {f : Frame} {q : List Frame} (h : LaneInv n l)
    (hop : DeliverOp (streamBytes f) op) (hq : l.toSrc=f::q) : LaneInv n (l.srcDeliver q op) := by
  have hun := hop.unannounced l.src
  have hca := hop.carried l.src
  constructor <;> simp only [Lane.srcDeliver]
  · intro c' hc
    cases hs : l.src with
    | none => simp [hs,hop.empty] at hc
    | some c =>
      rw [hs] at hc
      exact (hop.kept c c' hc).1.trans (h.srcStream c hs)
  · exact h.dstStream
  · exact tail_append h.line hun
  · intro g r hr hg
    obtain ⟨q',hq',rfl⟩ := head_append hun hr hg
    obtain ⟨h₁,h₂,h₃⟩ := h.opening g q' hq' hg
    exact ⟨h₁,h₂,by rw [streamOf_append,h₃,hca,List.append_nil]⟩
  · intro d hd
    obtain ⟨h₁,h₂⟩ := h.forward d hd
    refine ⟨?_,by rw [streamOf_append,hca,List.append_nil,h₂]⟩
    intro g hg
    rcases List.mem_append.mp hg with hg|hg
    · exact h₁ g hg
    · exact hun g hg
  · intro c' hc
    cases hs : l.src with
    | none => simp [hs,hop.empty] at hc
    | some c =>
      rw [hs] at hc
      have hb := h.backward c hs
      rw [hq,streamOf_cons] at hb
      rw [(hop.kept c c' hc).2,← hb]
      simp only [List.append_assoc]
  · exact h.forwardPrefix
  · exact h.backwardPrefix

theorem dstDeliver {op : SlotOp} {f : Frame} {q : List Frame} (h : LaneInv n l)
    (hop : DeliverOp (streamBytes f) op) (hq : l.toDst=f::q) : LaneInv n (l.dstDeliver q op) := by
  have hline : ∀g∈q,g.ftype≠fTconn := by
    have hl := h.line
    rwa [hq] at hl
  constructor <;> simp only [Lane.dstDeliver]
  · exact h.srcStream
  · intro c' hc
    cases hd : l.dst with
    | none => simp [hd,hop.empty] at hc
    | some c =>
      rw [hd] at hc
      exact (hop.kept c c' hc).1.trans (h.dstStream c hd)
  · exact fun g hg => hline g (List.mem_of_mem_tail hg)
  · intro g r hr hg
    exact absurd hg (hline g (by simp [hr]))
  · intro c' hc
    refine ⟨hline,?_⟩
    cases hd : l.dst with
    | none => simp [hd,hop.empty] at hc
    | some c =>
      rw [hd] at hc
      obtain ⟨-,hfor⟩ := h.forward c hd
      rw [hq,streamOf_cons] at hfor
      rw [(hop.kept c c' hc).2,← hfor]
      simp only [List.append_assoc]
  · intro c hc
    rw [streamOf_append,hop.carried,List.append_nil,h.backward c hc]
  · exact h.forwardPrefix
  · exact h.backwardPrefix

/-- The F_TCONN of the lane arrives: the destination opens its socket or refuses. -/
theorem dstOpen {chId : UInt8} {slot : Slot} {io : Io} {f : Frame} {q : List Frame}
    (h : LaneInv n l) (hio : ∀stream,io.connect=some stream → stream=n) (hq : l.toDst=f::q)
    (hf : f.ftype=fTconn) : LaneInv n (l.dstDeliver q (TcpDestChannel.openConn chId slot io)) := by
  obtain ⟨hd,hw,hst⟩ := h.opening f q hq hf
  have hline : ∀g∈q,g.ftype≠fTconn := by
    have hl := h.line
    rwa [hq] at hl
  have hcl : streamOf (TcpDestChannel.openConn chId slot io none).2.frames=[] := by
    rw [TcpDestChannel.openConn]
    cases io.connect <;> simp
  have hnew : ∀c,(TcpDestChannel.openConn chId slot io none).1=some c →
      c.stream=n ∧ c.txbuf=[] := by
    intro c hc
    rw [TcpDestChannel.openConn] at hc
    cases hs : io.connect with
    | none => simp [hs] at hc
    | some stream =>
      simp only [hs,Option.some.injEq] at hc
      subst hc
      exact ⟨hio stream hs,rfl⟩
  constructor <;> simp only [Lane.dstDeliver,hd]
  · exact h.srcStream
  · exact fun c hc => (hnew c hc).1
  · exact fun g hg => hline g (List.mem_of_mem_tail hg)
  · intro g r hr hg
    exact absurd hg (hline g (by simp [hr]))
  · intro c hc
    exact ⟨hline,by rw [hw,(hnew c hc).2,List.append_nil,List.nil_append,hst]⟩
  · intro c hc
    rw [streamOf_append,hcl,List.append_nil,h.backward c hc]
  · exact h.forwardPrefix
  · exact h.backwardPrefix

/-- A connection has just been accepted and announced. -/
theorem accepted (chId : UInt8) (slot : Slot) :
    LaneInv n ⟨some (.opened n false),none,[tconnFrame chId slot],[],[],[],[],[]⟩ where
  srcStream := by
    rintro c ⟨⟩
    rfl
  dstStream := nofun
  line := nofun
  opening := by
    intro g q hq _
    cases hq
    exact ⟨rfl,rfl,rfl⟩
  forward := nofun
  backward := by
    rintro c ⟨⟩
    rfl
  forwardPrefix := List.nil_prefix
  backwardPrefix := List.nil_prefix

end LaneInv

end Serialmux.System

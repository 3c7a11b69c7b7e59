import Serialmux.Framework.Machine
import Serialmux.System.Lane

namespace Serialmux.System

open Protocol Framework Channel

/-- A source and a destination channel joined by two frame queues, which refuse nothing, over a link
that stays up. Frames carry the number of the accepted connection they were sent for, streams are
named by that number, and the histories keep what the sockets of a connection have delivered and
taken; the channels see none of this. -/
structure Tunnel where
  src : TcpSourceChannel
  dst : TcpDestChannel
  toDst : List (Nat × Frame)
  toSrc : List (Nat × Frame)
  accepted : Nat
  srcRead : Nat → List UInt8
  srcWrote : Nat → List UInt8
  dstRead : Nat → List UInt8
  dstWrote : Nat → List UInt8

/-- An accept event that takes several connections is as many accepts in a row. -/
inductive TunnelStep where
  | accept (registers : Bool)
  | srcEvent (slot : Slot) (readable writable : Bool) (io : Io)
  | dstEvent (slot : Slot) (readable writable : Bool) (io : Io)
  | deliverDst (connects : Bool)
  | deliverSrc
  | srcPause (paused : Bool)
  | dstPause (paused : Bool)

namespace Tunnel

def start (chId : UInt8) : Tunnel where
  src := ((TcpSourceChannel.new chId).apply ⟨.onLinkConnect,Io.idle⟩).1
  dst := .new chId
  toDst := []
  toSrc := []
  accepted := 0
  srcRead _ := []
  srcWrote _ := []
  dstRead _ := []
  dstWrote _ := []

/-- The connection in a slot, or `n` if there is none. -/
def numberOf (c : Option TcpConn) (n : Nat) : Nat := (c.map TcpConn.stream).getD n

/-- The connection that a frame for connection `n` meets. -/
def numberAt (conns : Slot → Option TcpConn) (f : Frame) (n : Nat) : Nat :=
  match cidOf f with
  | none => n
  | some k => numberOf (conns k) n

def record (h : Nat → List UInt8) (n : Nat) (bs : List UInt8) : Nat → List UInt8 :=
  Function.update h n (h n++bs)

/-- The socket that a successful connect for connection `n` yields bears its number. -/
def connectIo (connects : Bool) (n : Nat) : Io :=
  {Io.idle with connect := if connects then some n else none}

/-- The mio calls of a pause or a resume. -/
def pauseOp (paused : Bool) : ChannelOp := if paused then .pauseSourceReads else .resumeSourceReads

def step (t : Tunnel) : TunnelStep → Tunnel
  | .accept registers =>
    let (s,e) := t.src.apply ⟨.handleEvent (primaryToken t.src.chId) true false,
      {Io.idle with accepts := [⟨t.accepted,registers⟩]}⟩
    {t with src := s, toDst := t.toDst++e.frames.map (t.accepted,·), accepted := t.accepted+1}
  | .srcEvent slot readable writable io =>
    let (s,e) := t.src.apply ⟨.handleEvent (tcpSlotToken t.src.chId slot) readable writable,io⟩
    let n := numberOf (t.src.conns slot) 0
    {t with
      src := s
      toDst := t.toDst++e.frames.map (n,·)
      srcRead := record t.srcRead n e.read
      srcWrote := record t.srcWrote n e.wrote}
  | .dstEvent slot readable writable io =>
    let (d,e) := t.dst.apply ⟨.handleEvent (tcpSlotToken t.dst.chId slot) readable writable,io⟩
    let n := numberOf (t.dst.conns slot) 0
    {t with
      dst := d
      toSrc := t.toSrc++e.frames.map (n,·)
      dstRead := record t.dstRead n e.read
      dstWrote := record t.dstWrote n e.wrote}
  | .deliverDst connects =>
    match t.toDst with
    | [] => t
    | (n,f)::q =>
      let (d,e) := t.dst.apply ⟨.onFrame f.ftype f.payload,connectIo connects n⟩
      {t with dst := d, toDst := q, toSrc := t.toSrc++e.frames.map (numberAt t.dst.conns f n,·)}
  | .deliverSrc =>
    match t.toSrc with
    | [] => t
    | (n,f)::q =>
      let (s,e) := t.src.apply ⟨.onFrame f.ftype f.payload,Io.idle⟩
      {t with src := s, toSrc := q, toDst := t.toDst++e.frames.map (numberAt t.src.conns f n,·)}
  | .srcPause paused => {t with src := (t.src.apply ⟨pauseOp paused,Io.idle⟩).1}
  | .dstPause paused => {t with dst := (t.dst.apply ⟨pauseOp paused,Io.idle⟩).1}

/-- The tunnel as a machine without outputs. -/
def next (t : Tunnel) (s : TunnelStep) : Tunnel × Unit := (t.step s,())

/-- The next frame of a queue never meets a connection it was not sent for. -/
def HeadMeetsOwn (q : List (Nat × Frame)) (conns : Slot → Option TcpConn) : Prop :=
  ∀n f k c,q.head?=some (n,f) → f.ftype=fTdata ∨ f.ftype=fTclose → cidOf f=some k →
    conns k=some c → c.stream=n

/-- Every connection's bytes arrive in order at its own peer and nowhere else. -/
structure Isolated (t : Tunnel) : Prop where
  forward : ∀n,t.dstWrote n <+: t.srcRead n
  backward : ∀n,t.srcWrote n <+: t.dstRead n
  atDst : HeadMeetsOwn t.toDst t.dst.conns
  atSrc : HeadMeetsOwn t.toSrc t.src.conns

/-- A cid is handed out only when the last connection that had it has left no trace: its slot at the
destination is free and no frame for it is in flight. -/
def Clean (t : Tunnel) : TunnelStep → Prop
  | .accept _ => ∀k,t.src.allocSlot.1=some k →
      t.dst.conns k=none ∧ (∀p∈t.toDst,cidOf p.2≠some k) ∧ ∀p∈t.toSrc,cidOf p.2≠some k
  | _ => True

def framesFor (k : Slot) (q : List (Nat × Frame)) : List Frame :=
  (q.filter (fun p => cidOf p.2==some k)).map Prod.snd

def lane (t : Tunnel) (k : Slot) (n : Nat) : Lane :=
  ⟨t.src.conns k,t.dst.conns k,framesFor k t.toDst,framesFor k t.toSrc,
    t.srcRead n,t.srcWrote n,t.dstRead n,t.dstWrote n⟩

/-- The frames of a queue belong to the owner of their slot. -/
def Owned (owner : Slot → Option Nat) (q : List (Nat × Frame)) : Prop :=
  ∀n f,(n,f)∈q → ∃k,cidOf f=some k ∧ owner k=some n

/-- `owner k` is the connection that was last accepted into slot `k`. -/
structure Inv (owner : Slot → Option Nat) (t : Tunnel) : Prop where
  born : ∀k n,owner k=some n → n<t.accepted
  distinct : ∀k k' n,owner k=some n → owner k'=some n → k=k'
  ownDst : Owned owner t.toDst
  ownSrc : Owned owner t.toSrc
  free : ∀k,owner k=none → t.src.conns k=none ∧ t.dst.conns k=none
  lanes : ∀k n,owner k=some n → LaneInv n (t.lane k n)
  unborn : ∀n,t.accepted≤n →
    t.srcRead n=[] ∧ t.srcWrote n=[] ∧ t.dstRead n=[] ∧ t.dstWrote n=[]
  prefixes : ∀n,t.dstWrote n <+: t.srcRead n ∧ t.srcWrote n <+: t.dstRead n

@[simp] theorem framesFor_nil (k : Slot) : framesFor k []=[] := rfl

@[simp] theorem framesFor_append (k : Slot) (p q : List (Nat × Frame)) :
    framesFor k (p++q)=framesFor k p++framesFor k q := by
  simp [framesFor]

theorem framesFor_cons_self {k : Slot} {n : Nat} {f : Frame} (h : cidOf f=some k)
    (q : List (Nat × Frame)) : framesFor k ((n,f)::q)=f::framesFor k q := by
  simp [framesFor,h]

theorem framesFor_cons_other {j k : Slot} {n : Nat} {f : Frame} (h : cidOf f=some j) (hjk : k≠j)
    (q : List (Nat × Frame)) : framesFor k ((n,f)::q)=framesFor k q := by
  simp [framesFor,h,hjk.symm]

theorem framesFor_tagged_self {k : Slot} {fs : List Frame} (n : Nat)
    (h : ∀f∈fs,cidOf f=some k) : framesFor k (fs.map (n,·))=fs := by
  induction fs with
  | nil => rfl
  | cons f fs ih =>
    rw [List.map_cons,framesFor_cons_self (h f (by simp)),ih (fun g hg => h g (by simp [hg]))]

theorem framesFor_tagged_other {j k : Slot} {fs : List Frame} (n : Nat)
    (h : ∀f∈fs,cidOf f=some j) (hjk : k≠j) : framesFor k (fs.map (n,·))=[] := by
  induction fs with
  | nil => rfl
  | cons f fs ih =>
    rw [List.map_cons,framesFor_cons_other (h f (by simp)) hjk,ih (fun g hg => h g (by simp [hg]))]

@[simp] theorem record_self (h : Nat → List UInt8) (n : Nat) (bs : List UInt8) :
    record h n bs n=h n++bs := by
  simp [record]

theorem record_other (h : Nat → List UInt8) {m n : Nat} (bs : List UInt8) (hmn : m≠n) :
    record h n bs m=h m := by
  simp [record,hmn]

@[simp] theorem record_nil (h : Nat → List UInt8) (n : Nat) : record h n []=h := by
  simp [record]

theorem inv_start (chId : UInt8) : Inv (fun _ => none) (start chId) where
  born := nofun
  distinct := nofun
  ownDst := nofun
  ownSrc := nofun
  free _ _ := ⟨rfl,rfl⟩
  lanes := nofun
  unborn _ _ := ⟨rfl,rfl,rfl,rfl⟩
  prefixes _ := ⟨List.nil_prefix,List.nil_prefix⟩

/-- What a step at one slot has to show: its own lane is in order, the others are as before. -/
structure Touches (k : Slot) (n : Nat) (t t' : Tunnel) : Prop where
  accepted : t'.accepted=t.accepted
  own : LaneInv n (t'.lane k n)
  others : ∀k' n',k'≠k → n'≠n → t'.lane k' n'=t.lane k' n'
  histories : ∀n',n'≠n → t'.srcRead n'=t.srcRead n' ∧ t'.srcWrote n'=t.srcWrote n' ∧
    t'.dstRead n'=t.dstRead n' ∧ t'.dstWrote n'=t.dstWrote n'
  sentDst : ∀p∈t'.toDst,p∈t.toDst ∨ p.1=n ∧ cidOf p.2=some k
  sentSrc : ∀p∈t'.toSrc,p∈t.toSrc ∨ p.1=n ∧ cidOf p.2=some k

variable {owner : Slot → Option Nat} {t t' : Tunnel}

theorem Owned.of_sent {q q' : List (Nat × Frame)} {k : Slot} {n : Nat} (h : Owned owner q)
    (hk : owner k=some n) (hq : ∀p∈q',p∈q ∨ p.1=n ∧ cidOf p.2=some k) : Owned owner q' := by
  intro m f hf
  rcases hq (m,f) hf with hf|⟨rfl,hc⟩
  · exact h m f hf
  · exact ⟨k,hc,hk⟩

theorem Inv.touch {k : Slot} {n : Nat} (h : Inv owner t) (hk : owner k=some n)
    (ht : Touches k n t t') : Inv owner t' := by
  have hlane := ht.own
  constructor
  · rw [ht.accepted]
    exact h.born
  · exact h.distinct
  · exact h.ownDst.of_sent hk ht.sentDst
  · exact h.ownSrc.of_sent hk ht.sentSrc
  · intro k' hk'
    have hne : k'≠k := by
      rintro rfl
      simp [hk] at hk'
    -- Any number other than `n` shows the slots of another lane.
    have hsame := ht.others k' (n+1) hne (by omega)
    have hfree := h.free k' hk'
    exact ⟨(congrArg Lane.src hsame).trans hfree.1,(congrArg Lane.dst hsame).trans hfree.2⟩
  · intro k' n' hk'
    by_cases hkk : k'=k
    · subst hkk
      cases hk.symm.trans hk'
      exact hlane
    · have hn : n'≠n := by
        rintro rfl
        exact hkk (h.distinct _ _ _ hk' hk)
      rw [ht.others k' n' hkk hn]
      exact h.lanes k' n' hk'
  · intro m hm
    rw [ht.accepted] at hm
    have hb := h.born k n hk
    obtain ⟨h₁,h₂,h₃,h₄⟩ := ht.histories m (by omega)
    rw [h₁,h₂,h₃,h₄]
    exact h.unborn m hm
  · intro m
    by_cases hm : m=n
    · subst hm
      exact ⟨hlane.forwardPrefix,hlane.backwardPrefix⟩
    · obtain ⟨h₁,h₂,h₃,h₄⟩ := ht.histories m hm
      rw [h₁,h₂,h₃,h₄]
      exact h.prefixes m

/-- An occupied slot belongs to the connection it was opened for. -/
theorem Inv.srcOwner (h : Inv owner t) {k : Slot} {c : TcpConn} (hc : t.src.conns k=some c) :
    owner k=some c.stream := by
  cases ho : owner k with
  | none => simp [(h.free k ho).1] at hc
  | some n => rw [(h.lanes k n ho).srcStream c hc]

theorem Inv.dstOwner (h : Inv owner t) {k : Slot} {c : TcpConn} (hc : t.dst.conns k=some c) :
    owner k=some c.stream := by
  cases ho : owner k with
  | none => simp [(h.free k ho).2] at hc
  | some n => rw [(h.lanes k n ho).dstStream c hc]

theorem mem_tagged {k : Slot} {n : Nat} {q : List (Nat × Frame)} {fs : List Frame}
    (h : ∀f∈fs,cidOf f=some k) :
    ∀p∈q++fs.map (n,·),p∈q ∨ p.1=n ∧ cidOf p.2=some k := by
  intro p hp
  rcases List.mem_append.mp hp with hp|hp
  · exact .inl hp
  · obtain ⟨f,hf,rfl⟩ := List.mem_map.mp hp
    exact .inr ⟨rfl,h f hf⟩

theorem srcEvent_inv (h : Inv owner t) (slot : Slot) (readable writable : Bool) (io : Io) :
    Inv owner (t.step (.srcEvent slot readable writable io)) := by
  have hop := t.src.slotEvent_local slot readable writable io
  have hcid : ∀f∈(t.src.slotEvent slot readable writable io (t.src.conns slot)).2.frames,
      cidOf f=some slot :=
    fun f hf => (t.src.slotEvent_sends slot readable writable io _ f hf).cid
  simp only [step,TcpSourceChannel.apply_slotEvent]
  cases hc : t.src.conns slot with
  | none =>
    have hconns : (atSlot t.src.conns slot (t.src.slotEvent slot readable writable io)).1=
        t.src.conns := by
      rw [atSlot,hc,hop.empty]
      exact Function.update_eq_self_iff.mpr hc.symm
    simpa only [hconns,hop.empty,Effect.quiet_frames,Effect.quiet_read,Effect.quiet_wrote,
      record_nil,List.map_nil,List.append_nil] using h
  | some c =>
    have ho := h.srcOwner hc
    rw [hc] at hcid
    refine h.touch ho ⟨rfl,?_,?_,?_,mem_tagged hcid,fun p hp => .inl hp⟩
    · have hl := (h.lanes slot c.stream ho).srcLocal hop
      simpa [lane,Lane.srcLocal,hc,numberOf,framesFor_tagged_self _ hcid] using hl
    · intro k' n' hk hn
      simp [lane,numberOf,atSlot_other _ hk,framesFor_tagged_other _ hcid hk,record_other _ _ hn]
    · intro n' hn
      simp [numberOf,record_other _ _ hn]

theorem dstEvent_inv (h : Inv owner t) (slot : Slot) (readable writable : Bool) (io : Io) :
    Inv owner (t.step (.dstEvent slot readable writable io)) := by
  have hop := t.dst.slotEvent_local slot readable writable io
  have hcid : ∀f∈(t.dst.slotEvent slot readable writable io (t.dst.conns slot)).2.frames,
      cidOf f=some slot :=
    fun f hf => (t.dst.slotEvent_sends slot readable writable io _ f hf).cid
  simp only [step,TcpDestChannel.apply_slotEvent]
  cases hc : t.dst.conns slot with
  | none =>
    have hconns : (atSlot t.dst.conns slot (t.dst.slotEvent slot readable writable io)).1=
        t.dst.conns := by
      rw [atSlot,hc,hop.empty]
      exact Function.update_eq_self_iff.mpr hc.symm
    simpa only [hconns,hop.empty,Effect.quiet_frames,Effect.quiet_read,Effect.quiet_wrote,
      record_nil,List.map_nil,List.append_nil] using h
  | some c =>
    have ho := h.dstOwner hc
    rw [hc] at hcid
    refine h.touch ho ⟨rfl,?_,?_,?_,fun p hp => .inl hp,mem_tagged hcid⟩
    · have hl := (h.lanes slot c.stream ho).dstLocal hop
      simpa [lane,Lane.dstLocal,hc,numberOf,framesFor_tagged_self _ hcid] using hl
    · intro k' n' hk hn
      simp [lane,numberOf,atSlot_other _ hk,framesFor_tagged_other _ hcid hk,record_other _ _ hn]
    · intro n' hn
      simp [numberOf,record_other _ _ hn]

/-- A frame in flight meets its own connection or an empty slot. -/
theorem Inv.numberAt_dst (h : Inv owner t) {f : Frame} {k : Slot} {n : Nat} (hf : cidOf f=some k)
    (hk : owner k=some n) : numberAt t.dst.conns f n=n := by
  simp only [numberAt,hf]
  cases hc : t.dst.conns k with
  | none => rfl
  | some c => simp [numberOf,(h.lanes k n hk).dstStream c hc]

theorem Inv.numberAt_src (h : Inv owner t) {f : Frame} {k : Slot} {n : Nat} (hf : cidOf f=some k)
    (hk : owner k=some n) : numberAt t.src.conns f n=n := by
  simp only [numberAt,hf]
  cases hc : t.src.conns k with
  | none => rfl
  | some c => simp [numberOf,(h.lanes k n hk).srcStream c hc]

theorem deliverSrc_inv (h : Inv owner t) : Inv owner (t.step .deliverSrc) := by
  simp only [step]
  cases hq : t.toSrc with
  | nil => exact h
  | cons p q =>
    obtain ⟨n,f⟩ := p
    obtain ⟨k,hf,hk⟩ := h.ownSrc n f (by simp [hq])
    obtain ⟨data,hp⟩ := slotOfPayload_of_cid hf
    have hop := t.src.slotFrame_deliver hp
    have hcid : ∀g∈(t.src.slotFrame k f.ftype data (t.src.conns k)).2.frames,cidOf g=some k :=
      fun g hg => (t.src.slotFrame_sends k f.ftype data _ g hg).cid
    simp only [TcpSourceChannel.apply_slotFrame t.src hp,h.numberAt_src hf hk]
    refine h.touch hk ⟨rfl,?_,?_,fun _ _ => ⟨rfl,rfl,rfl,rfl⟩,mem_tagged hcid,?_⟩
    · have hl := (h.lanes k n hk).srcDeliver (q := framesFor k q) hop
        (by simp only [lane,hq,framesFor_cons_self hf])
      simpa [lane,Lane.srcDeliver,framesFor_tagged_self _ hcid] using hl
    · intro k' n' hkk hn
      simp [lane,hq,atSlot_other _ hkk,framesFor_tagged_other _ hcid hkk,
        framesFor_cons_other hf hkk]
    · exact fun p hp => .inl (by simp [hq,hp])

theorem deliverDst_inv (h : Inv owner t) (connects : Bool) :
    Inv owner (t.step (.deliverDst connects)) := by
  simp only [step]
  cases hq : t.toDst with
  | nil => exact h
  | cons p q =>
    obtain ⟨n,f⟩ := p
    obtain ⟨k,hf,hk⟩ := h.ownDst n f (by simp [hq])
    obtain ⟨data,hp⟩ := slotOfPayload_of_cid hf
    have hcid : ∀g∈(t.dst.slotFrame k f.ftype data (connectIo connects n)
        (t.dst.conns k)).2.frames,cidOf g=some k :=
      fun g hg => (t.dst.slotFrame_sends k f.ftype data (connectIo connects n) _ g hg).cid
    have hqk : (t.lane k n).toDst=f::framesFor k q := by
      simp only [lane,hq,framesFor_cons_self hf]
    have hlane : LaneInv n ((t.lane k n).dstDeliver (framesFor k q)
        (t.dst.slotFrame k f.ftype data (connectIo connects n))) := by
      by_cases hconn : f.ftype=fTconn
      · have hop : t.dst.slotFrame k f.ftype data (connectIo connects n)=
            TcpDestChannel.openConn t.dst.chId k (connectIo connects n) := by
          rw [TcpDestChannel.slotFrame,if_pos hconn]
        rw [hop]
        refine (h.lanes k n hk).dstOpen ?_ hqk hconn
        intro stream hs
        cases connects <;> simp [connectIo,Io.idle] at hs
        exact hs.symm
      · exact (h.lanes k n hk).dstDeliver (t.dst.slotFrame_deliver _ hp hconn) hqk
    simp only [TcpDestChannel.apply_slotFrame t.dst hp,h.numberAt_dst hf hk]
    refine h.touch hk ⟨rfl,?_,?_,fun _ _ => ⟨rfl,rfl,rfl,rfl⟩,?_,mem_tagged hcid⟩
    · simpa [lane,Lane.dstDeliver,framesFor_tagged_self _ hcid] using hlane
    · intro k' n' hkk hn
      simp [lane,hq,atSlot_other _ hkk,framesFor_tagged_other _ hcid hkk,
        framesFor_cons_other hf hkk]
    · exact fun p hp => .inl (by simp [hq,hp])

/-- A change of the slots that every lane survives. -/
theorem Inv.reslot {s : TcpSourceChannel} {d : TcpDestChannel} (h : Inv owner t)
    (hs : ∀k,t.src.conns k=none → s.conns k=none) (hd : ∀k,t.dst.conns k=none → d.conns k=none)
    (hl : ∀k n,LaneInv n (t.lane k n) → LaneInv n ({t with src := s, dst := d}.lane k n)) :
    Inv owner {t with src := s, dst := d} where
  born := h.born
  distinct := h.distinct
  ownDst := h.ownDst
  ownSrc := h.ownSrc
  free k hk := ⟨hs k (h.free k hk).1,hd k (h.free k hk).2⟩
  lanes k n hk := hl k n (h.lanes k n hk)
  unborn := h.unborn
  prefixes := h.prefixes

theorem srcPause_inv (h : Inv owner t) (paused : Bool) : Inv owner (t.step (.srcPause paused)) := by
  have hset : ∀p,Inv owner {t with src := t.src.setPaused p} := by
    intro p
    unfold TcpSourceChannel.setPaused
    split_ifs
    · exact h
    · refine h.reslot (fun k hk => ?_) (fun _ hk => hk) (fun k n hl => ?_)
      · simp [hk,updateConnInterest]
      · have hl' := hl.srcLocal
          (updateConnInterest_local (TcpSourceChannel.srcConnInterest p))
        simpa [lane,Lane.srcLocal,updateConnInterest] using hl'
  cases paused with
  | false => exact hset false
  | true => exact hset true

theorem dstPause_inv (h : Inv owner t) (paused : Bool) : Inv owner (t.step (.dstPause paused)) := by
  have hset : ∀p,Inv owner {t with dst := t.dst.setPaused p} := by
    intro p
    unfold TcpDestChannel.setPaused
    split_ifs
    · exact h
    · refine h.reslot (fun _ hk => hk) (fun k hk => ?_) (fun k n hl => ?_)
      · simp [hk,updateConnInterest]
      · have hl' := hl.dstLocal (updateConnInterest_local (TcpDestChannel.dstConnInterest p))
        simpa [lane,Lane.dstLocal,updateConnInterest] using hl'
  cases paused with
  | false => exact hset false
  | true => exact hset true

/-- Without a trace of its last connection a slot shows no frame. -/
theorem framesFor_clean {k : Slot} {q : List (Nat × Frame)} (h : ∀p∈q,cidOf p.2≠some k) :
    framesFor k q=[] := by
  simp only [framesFor,List.map_eq_nil_iff,List.filter_eq_nil_iff,beq_iff_eq]
  exact h

theorem Owned.reassign {q : List (Nat × Frame)} {k : Slot} (n : Nat) (h : Owned owner q)
    (hclean : ∀p∈q,cidOf p.2≠some k) : Owned (Function.update owner k (some n)) q := by
  intro m f hf
  obtain ⟨j,hj,ho⟩ := h m f hf
  have hjk : j≠k := by
    rintro rfl
    exact hclean (m,f) hf hj
  exact ⟨j,hj,by rw [Function.update_of_ne hjk,ho]⟩

/-- A connection that gets no slot leaves everything as it is but the count. -/
theorem Inv.uncounted (h : Inv owner t) (m : Nat) :
    Inv owner {t with src := {t.src with nextSlot := m}, accepted := t.accepted+1} where
  born k n hk := Nat.lt_succ_of_lt (h.born k n hk)
  distinct := h.distinct
  ownDst := h.ownDst
  ownSrc := h.ownSrc
  free := h.free
  lanes := h.lanes
  unborn n hn := h.unborn n (Nat.le_of_succ_le hn)
  prefixes := h.prefixes

/-- The next connection takes a slot without a trace and is announced. -/
theorem Inv.taken (h : Inv owner t) (m : Nat) {k : Slot} (hs : t.src.conns k=none)
    (hd : t.dst.conns k=none) (hDst : ∀p∈t.toDst,cidOf p.2≠some k)
    (hSrc : ∀p∈t.toSrc,cidOf p.2≠some k) :
    Inv (Function.update owner k (some t.accepted))
      {t with
        src := {t.src with
          nextSlot := m
          conns := Function.update t.src.conns k (some (.opened t.accepted false))}
        toDst := t.toDst++[(t.accepted,tconnFrame t.src.chId k)]
        accepted := t.accepted+1} := by
  have hold : ∀{j n},j≠k → Function.update owner k (some t.accepted) j=some n →
      owner j=some n ∧ n<t.accepted := by
    intro j n hj hn
    rw [Function.update_of_ne hj] at hn
    exact ⟨hn,h.born j n hn⟩
  constructor
  · intro j n hn
    by_cases hj : j=k
    · subst hj
      simp at hn
      simp [← hn]
    · exact Nat.lt_succ_of_lt (hold hj hn).2
  · intro j j' n hn hn'
    by_cases hj : j=k <;> by_cases hj' : j'=k
    · rw [hj,hj']
    · subst hj
      have hlt := (hold hj' hn').2
      simp at hn
      omega
    · subst hj'
      have hlt := (hold hj hn).2
      simp at hn'
      omega
    · exact h.distinct j j' n (hold hj hn).1 (hold hj' hn').1
  · intro n f hf
    rcases List.mem_append.mp hf with hf|hf
    · exact h.ownDst.reassign t.accepted hDst n f hf
    · obtain ⟨rfl,rfl⟩ := Prod.mk.inj (List.mem_singleton.mp hf)
      exact ⟨k,by simp,by simp⟩
  · exact h.ownSrc.reassign t.accepted hSrc
  · intro j hj
    have hjk : j≠k := by
      rintro rfl
      simp at hj
    rw [Function.update_of_ne hjk] at hj
    obtain ⟨h₁,h₂⟩ := h.free j hj
    exact ⟨by simpa [hjk] using h₁,h₂⟩
  · intro j n hn
    by_cases hj : j=k
    · subst hj
      simp at hn
      subst hn
      obtain ⟨h₁,h₂,h₃,h₄⟩ := h.unborn t.accepted le_rfl
      have hl := LaneInv.accepted (n := t.accepted) t.src.chId j
      have hfr : framesFor j [(t.accepted,tconnFrame t.src.chId j)]=[tconnFrame t.src.chId j] := by
        rw [framesFor_cons_self (cidOf_tconnFrame _ _),framesFor_nil]
      simpa [lane,hd,h₁,h₂,h₃,h₄,framesFor_clean hDst,framesFor_clean hSrc,hfr] using hl
    · have hl := h.lanes j n (hold hj hn).1
      have hfr : framesFor j [(t.accepted,tconnFrame t.src.chId k)]=[] := by
        rw [framesFor_cons_other (cidOf_tconnFrame _ _) hj,framesFor_nil]
      simpa [lane,hj,hfr] using hl
  · exact fun n hn => h.unborn n (Nat.le_of_succ_le hn)
  · exact h.prefixes

theorem accept_inv (h : Inv owner t) (registers : Bool) (hc : Clean t (.accept registers)) :
    ∃owner',Inv owner' (t.step (.accept registers)) := by
  have hcall : ∀as,t.src.apply ⟨.handleEvent (primaryToken t.src.chId) true false,
      {Io.idle with accepts := as}⟩=t.src.accept as := by
    intro as
    simp [TcpSourceChannel.apply,TcpSourceChannel.handleEvent]
  have hone : ∀a,t.src.accept [a]=t.src.acceptOne a := by
    intro a
    simp [TcpSourceChannel.accept]
  simp only [step,hcall,hone]
  rcases TcpSourceChannel.acceptOne_cases t.src ⟨t.accepted,registers⟩ with ⟨m,ha⟩|⟨m,k,hk,hs,ha⟩
  · refine ⟨owner,?_⟩
    simpa only [ha,Effect.quiet_frames,List.map_nil,List.append_nil] using h.uncounted m
  · obtain ⟨hd,hDst,hSrc⟩ := hc k hk
    refine ⟨Function.update owner k (some t.accepted),?_⟩
    simpa only [ha,Effect.sends_frames,List.map_cons,List.map_nil] using h.taken m hs hd hDst hSrc

theorem step_inv (s : TunnelStep) (h : ∃owner,Inv owner t) (hc : Clean t s) :
    ∃owner,Inv owner (t.step s) := by
  obtain ⟨owner,h⟩ := h
  cases s with
  | accept registers => exact accept_inv h registers hc
  | srcEvent slot readable writable io => exact ⟨owner,srcEvent_inv h slot readable writable io⟩
  | dstEvent slot readable writable io => exact ⟨owner,dstEvent_inv h slot readable writable io⟩
  | deliverDst connects => exact ⟨owner,deliverDst_inv h connects⟩
  | deliverSrc => exact ⟨owner,deliverSrc_inv h⟩
  | srcPause paused => exact ⟨owner,srcPause_inv h paused⟩
  | dstPause paused => exact ⟨owner,dstPause_inv h paused⟩

theorem Inv.isolated (h : Inv owner t) : Isolated t where
  forward n := (h.prefixes n).1
  backward n := (h.prefixes n).2
  atDst := by
    intro n f k c hf _ hk hc
    obtain ⟨j,hj,ho⟩ := h.ownDst n f (List.mem_of_head? hf)
    cases hk.symm.trans hj
    exact (h.lanes k n ho).dstStream c hc
  atSrc := by
    intro n f k c hf _ hk hc
    obtain ⟨j,hj,ho⟩ := h.ownSrc n f (List.mem_of_head? hf)
    cases hk.symm.trans hj
    exact (h.lanes k n ho).srcStream c hc

/-- Isolation: in every run that hands out a cid only after its last connection has left no trace,
every connection's bytes arrive in order at its own peer, and no frame meets a connection it was not
sent for. -/
theorem tunnel_isolation (chId : UInt8) (steps : List TunnelStep)
    (hc : Always next Clean (start chId) steps) : Isolated (after next (start chId) steps) := by
  obtain ⟨owner,h⟩ := after_of_always next (P := fun t => ∃owner,Inv owner t)
    (fun t s h hc => step_inv s h hc) ⟨_,inv_start chId⟩ hc
  exact h.isolated

/-- One connection carries one byte from its client to its destination. -/
def oneByte : List TunnelStep :=
  [.accept true,.deliverDst true,
    .srcEvent 0 true false {Io.idle with reads := [.data [0x61] (by decide)]},
    .deliverDst true,
    .dstEvent 0 false true {Io.idle with peerAddr := true, write := .wrote 1}]

theorem tunnel_isolation_oneByte :
    Isolated (after next (start 0) oneByte) ∧
      (after next (start 0) oneByte).dstWrote 0=[0x61] :=
  ⟨tunnel_isolation 0 oneByte
    ⟨fun _ _ => ⟨rfl,nofun,nofun⟩,trivial,trivial,trivial,trivial,trivial⟩,by decide +kernel⟩

/-- The destination of connection 0 has answered when its client goes; 256 connections later the
answer reaches the client that has been given its cid. -/
def staleAnswer : List TunnelStep :=
  [.accept true,.deliverDst true,
    .dstEvent 0 true true {Io.idle with peerAddr := true, reads := [.data [0x61] (by decide)]},
    .srcEvent 0 true false {Io.idle with reads := [.data [] eof_fits]}]++
  List.replicate 256 (.accept true)++
  [.deliverSrc,.srcEvent 0 false true {Io.idle with write := .wrote 1}]

theorem tunnel_stale_answer :
    ¬∀chId steps,Isolated (after next (start chId) steps) := by
  intro h
  have hb := (h 0 staleAnswer).backward 256
  have hw : (after next (start 0) staleAnswer).srcWrote 256=[0x61] ∧
      (after next (start 0) staleAnswer).dstRead 256=[] := by decide +kernel
  rw [hw.1,hw.2] at hb
  simp at hb

end Tunnel

end Serialmux.System

import Serialmux.Channel.McuProtocol
import Serialmux.Channel.TcpLive
import Serialmux.Channel.TcpMoves

namespace Serialmux.Channel

open Protocol Framework

/-- The reads of a round that bring bytes, up to the first answer that does not. -/
def successes : List (ReadResult 65536) → List (List UInt8)
  | .data (b::bs) _::rs => (b::bs)::successes rs
  | _ => []

/-- The successful reads of a round, from what is in the slot. -/
def readsOf (blocked : TcpConn → Bool) (rs : List (ReadResult 65536)) :
    Option TcpConn → List (List UInt8)
  | none => []
  | some c => if blocked c then [] else successes rs

theorem successes_sized {rs : List (ReadResult 65536)} {bs : List UInt8} (h : bs∈successes rs) :
    1 ≤ bs.length ∧ bs.length≤65536 := by
  induction rs with
  | nil => simp [successes] at h
  | cons r rs ih =>
    cases r with
    | wouldBlock => simp [successes] at h
    | error e => simp [successes] at h
    | data data hn =>
      cases data with
      | nil => simp [successes] at h
      | cons b data =>
        rw [successes,List.mem_cons] at h
        rcases h with rfl|h
        · exact ⟨Nat.le_add_left 1 _,hn⟩
        · exact ih h

theorem readsOf_sized {blocked : TcpConn → Bool} {rs : List (ReadResult 65536)}
    {c : Option TcpConn} {bs : List UInt8} (h : bs∈readsOf blocked rs c) :
    1 ≤ bs.length ∧ bs.length≤65536 := by
  cases c with
  | none => simp [readsOf] at h
  | some c =>
    rw [readsOf] at h
    split_ifs at h
    · simp at h
    · exact successes_sized h

/-- The F_TDATA frames among some. -/
def dataFrames (fs : List Frame) : List Frame := fs.filter (fun f => f.ftype=fTdata)

@[simp] theorem dataFrames_nil : dataFrames []=[] := rfl

@[simp] theorem dataFrames_append (fs gs : List Frame) :
    dataFrames (fs++gs)=dataFrames fs++dataFrames gs := List.filter_append ..

theorem dataFrames_tdataFrames (chId : UInt8) (k : Slot) (bs : List UInt8) :
    dataFrames (tdataFrames chId k bs)=tdataFrames chId k bs := by
  apply List.filter_eq_self.mpr
  intro f hf
  simpa using tdataFrames_ftype hf

/-- An effect whose F_TDATA frames are the successful reads `reads` it made, cut into frames. -/
structure Framed (chId : UInt8) (k : Slot) (reads : List (List UInt8)) (e : Effect) : Prop where
  framed : dataFrames e.frames=reads.flatMap (tdataFrames chId k)
  taken : e.read=reads.flatten

namespace Framed

variable {chId : UInt8} {k : Slot} {reads reads' : List (List UInt8)} {e e' : Effect}

theorem none (h : dataFrames e.frames=[]) (hr : e.read=[]) : Framed chId k [] e := ⟨h,hr⟩

theorem next (h : Framed chId k reads e) (h' : Framed chId k reads' e') :
    Framed chId k (reads++reads') (e.next e') := by
  constructor
  · simp [h.framed,h'.framed]
  · simp [h.taken,h'.taken]

/-- One more read goes before the rest. -/
theorem received (bs : List UInt8) (h : Framed chId k reads e) :
    Framed chId k (bs::reads) (Effect.next ⟨tdataFrames chId k bs,bs,[]⟩ e) := by
  have hone : Framed chId k [bs] ⟨tdataFrames chId k bs,bs,[]⟩ :=
    ⟨by simp [dataFrames_tdataFrames],by simp⟩
  exact hone.next h

end Framed

/-- An operation that frames the reads it makes of a slot. -/
def ReadsOp (chId : UInt8) (k : Slot) (reads : Option TcpConn → List (List UInt8))
    (op : SlotOp) : Prop := ∀c,Framed chId k (reads c) (op c).2

namespace ReadsOp

variable {chId : UInt8} {k : Slot} {reads reads' : Option TcpConn → List (List UInt8)}
  {op op' : SlotOp}

theorem skip : ReadsOp chId k (fun _ => []) .skip := fun _ => .none rfl rfl

theorem seq (h : ReadsOp chId k reads op) (h' : ReadsOp chId k reads' op') :
    ReadsOp chId k (fun c => reads c++reads' (op c).1) (.seq op op') :=
  fun c => (h c).next (h' (op c).1)

theorem guard (b : Bool) (h : ReadsOp chId k reads op) :
    ReadsOp chId k (fun c => if b then reads c else []) (.guard b op) := by
  cases b with
  | false => exact skip
  | true => exact h

end ReadsOp

section Slot

variable (chId : UInt8) (k : Slot)

theorem closeSlot_unread (notify : Bool) :
    ReadsOp chId k (fun _ => []) (closeSlot chId k notify) := by
  intro c
  cases c with
  | none => exact .none rfl rfl
  | some c =>
    cases notify with
    | false => exact .none rfl rfl
    | true => exact .none (by simp [closeSlot,dataFrames,tcloseFrame,fTclose,fTdata]) rfl

theorem updateConnInterest_unread (interest : TcpConn → Option Interest) :
    ReadsOp chId k (fun _ => []) (updateConnInterest interest) := fun _ => .none rfl rfl

theorem writeSlot_unread (notify : Bool) (ready : TcpConn → Bool) (w : WriteResult) :
    ReadsOp chId k (fun _ => []) (writeSlot chId k notify ready w) := by
  intro c
  cases c with
  | none => exact .none rfl rfl
  | some c =>
    rw [writeSlot]
    split
    · exact closeSlot_unread chId k notify (some c)
    · split_ifs
      · exact .none rfl rfl
      · exact .none rfl rfl

theorem onTdata_unread (notify : Bool) (interest : TcpConn → Option Interest)
    (data : List UInt8) : ReadsOp chId k (fun _ => []) (onTdata chId k notify interest data) := by
  intro c
  cases c with
  | none => exact .none rfl rfl
  | some c =>
    rw [onTdata]
    split_ifs
    · exact .none rfl rfl
    · exact closeSlot_unread chId k notify (some c)
    · exact .none rfl rfl

theorem onTclose_unread (interest : TcpConn → Option Interest) :
    ReadsOp chId k (fun _ => []) (onTclose chId k interest) := by
  intro c
  rw [onTclose_quiet]
  exact .none rfl rfl

/-- The read loop frames every successful read, and none but these. -/
theorem readLoop_reads (notify : Bool) (blocked : TcpConn → Bool)
    (rs : List (ReadResult 65536)) :
    ReadsOp chId k (readsOf blocked rs) (readLoop chId k notify blocked rs) := by
  intro c
  cases c with
  | none => cases rs <;> exact .none rfl rfl
  | some c =>
    induction rs with
    | nil => simpa [readLoop,readsOf,successes] using .none rfl rfl
    | cons r rs ih =>
      rw [readsOf] at ih
      simp only [readLoop,readsOf]
      split_ifs with hb
      · exact .none rfl rfl
      · rw [if_neg hb] at ih
        cases r with
        | wouldBlock => exact .none rfl rfl
        | error e => exact closeSlot_unread chId k notify (some c)
        | data bs hn =>
          cases bs with
          | nil => exact closeSlot_unread chId k notify (some c)
          | cons b bs => exact ih.received (b::bs)

end Slot

namespace TcpSourceChannel

/-- The successful reads of one event of a slot. -/
def slotReads (readable : Bool) (io : Io) (c : Option TcpConn) : List (List UInt8) :=
  if readable then readsOf TcpConn.closePending io.reads c else []

/-- The successful reads a call makes for slot `k`. -/
def readsAt (k : Slot) (s : TcpSourceChannel) (call : Call) : List (List UInt8) :=
  match call.op with
  | .handleEvent _ readable _ =>
    if s.target call.op=some k then slotReads readable call.io (s.conns k) else []
  | _ => []

theorem slotEvent_reads (s : TcpSourceChannel) (k : Slot) (readable writable : Bool) (io : Io) :
    ReadsOp s.chId k (slotReads readable io) (s.slotEvent k readable writable io) := by
  have h := ReadsOp.seq (.guard readable (readLoop_reads s.chId k s.linkUp TcpConn.closePending
      io.reads)) (.guard writable (.seq (writeSlot_unread s.chId k s.linkUp (fun _ => true)
      io.write) (updateConnInterest_unread s.chId k (srcConnInterest s.bpPaused))))
  intro c
  have hc := h c
  simp only [ite_self,List.append_nil] at hc
  exact hc

theorem slotFrame_unread (s : TcpSourceChannel) (k : Slot) (ftype : UInt8) (data : List UInt8) :
    ReadsOp s.chId k (fun _ => []) (s.slotFrame k ftype data) := by
  unfold slotFrame
  split_ifs
  · exact onTdata_unread _ _ _ _ _
  · exact onTclose_unread _ _ _
  · exact .skip

/-- The data frames of a call for slot `k` are its reads of that slot. -/
theorem apply_reads (k : Slot) (s : TcpSourceChannel) (call : Call) :
    dataFrames (framesFor k (s.apply call).2.frames)=
      (s.readsAt k call).flatMap (tdataFrames s.chId k) := by
  have hm := s.apply_moves call k
  unfold readsAt
  generalize (s.apply call).1.conns k=c' at hm
  generalize framesFor k (s.apply call).2.frames=fs at hm ⊢
  generalize s.wroteTo k call=out at hm
  cases hm with
  | rest ht => split <;> simp [ht]
  | accepted stream hup hfree ho =>
    obtain ⟨writable,ho⟩ := ho
    simp [ho,target,dataFrames,tconnFrame,fTconn,fTdata]
  | event token readable writable ho ht =>
    rw [ho] at ht
    rw [ho]
    simp only [ht,if_true]
    exact (slotEvent_reads s k readable writable call.io _).framed
  | frame ftype payload data ho hp =>
    rw [ho]
    exact (slotFrame_unread s k ftype data _).framed
  | paused p ho => cases p <;> simp [ho]
  | cleared ho => simp [ho]

end TcpSourceChannel

namespace TcpDestChannel

/-- The successful reads of one event of a slot: they follow the connect and the write. -/
def slotReads (d : TcpDestChannel) (k : Slot) (readable writable : Bool) (io : Io)
    (c : Option TcpConn) : List (List UInt8) :=
  if readable then
    readsOf (fun c => c.connecting || c.closePending) io.reads
      (SlotOp.seq (finishConnect d.chId k writable io)
        (.guard writable (writeSlot d.chId k true (fun c => !c.connecting) io.write)) c).1
  else []

/-- The successful reads a call makes for slot `k`. -/
def readsAt (k : Slot) (d : TcpDestChannel) (call : Call) : List (List UInt8) :=
  match call.op with
  | .handleEvent token readable writable =>
    if slotOfToken token=k then d.slotReads k readable writable call.io (d.conns k) else []
  | _ => []

theorem finishConnect_unread (chId : UInt8) (k : Slot) (writable : Bool) (io : Io) :
    ReadsOp chId k (fun _ => []) (finishConnect chId k writable io) := by
  intro c
  cases c with
  | none => exact .none rfl rfl
  | some c =>
    rw [finishConnect]
    split_ifs
    · exact .none rfl rfl
    · exact closeSlot_unread chId k true (some c)
    · exact .none rfl rfl

theorem openConn_unread (chId : UInt8) (k : Slot) (io : Io) :
    ReadsOp chId k (fun _ => []) (openConn chId k io) := by
  intro c
  cases c with
  | some c => exact .none rfl rfl
  | none =>
    rw [openConn]
    split
    · exact .none (by simp [dataFrames,tcloseFrame,fTclose,fTdata]) rfl
    · exact .none rfl rfl

theorem slotEvent_reads (d : TcpDestChannel) (k : Slot) (readable writable : Bool) (io : Io) :
    ReadsOp d.chId k (d.slotReads k readable writable io)
      (d.slotEvent k readable writable io) := by
  have h := ReadsOp.seq (finishConnect_unread d.chId k writable io) (.seq
    (.guard writable (writeSlot_unread d.chId k true (fun c => !c.connecting) io.write))
    (.seq (.guard readable (readLoop_reads d.chId k true
      (fun c => c.connecting || c.closePending) io.reads))
      (updateConnInterest_unread d.chId k (dstConnInterest d.bpPaused))))
  intro c
  have hc := h c
  simp only [ite_self,List.append_nil,List.nil_append] at hc
  exact hc

theorem slotFrame_unread (d : TcpDestChannel) (k : Slot) (ftype : UInt8) (data : List UInt8)
    (io : Io) : ReadsOp d.chId k (fun _ => []) (d.slotFrame k ftype data io) := by
  unfold slotFrame
  split_ifs
  · exact openConn_unread _ _ _
  · exact onTdata_unread _ _ _ _ _
  · exact onTclose_unread _ _ _
  · exact .skip

/-- The data frames of a call for slot `k` are its reads of that slot. -/
theorem apply_reads (k : Slot) (d : TcpDestChannel) (call : Call) :
    dataFrames (framesFor k (d.apply call).2.frames)=
      (d.readsAt k call).flatMap (tdataFrames d.chId k) := by
  have hm := d.apply_moves call k
  unfold readsAt
  generalize (d.apply call).1.conns k=c' at hm
  generalize framesFor k (d.apply call).2.frames=fs at hm ⊢
  generalize d.wroteTo k call=out at hm
  cases hm with
  | rest ht =>
    split
    · next token readable writable ho =>
      have hne : slotOfToken token≠k := by simpa [target,ho] using ht
      simp [hne]
    · rfl
  | event token readable writable ho hk =>
    rw [ho]
    simp only [hk,if_true]
    exact (slotEvent_reads d k readable writable call.io _).framed
  | frame ftype payload data ho hp =>
    rw [ho]
    exact (slotFrame_unread d k ftype data call.io _).framed
  | paused p ho => cases p <;> simp [ho]
  | cleared ho => rcases ho with ho|ho <;> simp [ho]

end TcpDestChannel

section Sending

variable {σ : Type} (apply : σ → Call → σ × Effect) (readsAt : σ → Call → List (List UInt8))

def readsIn : σ → List Call → List (List UInt8)
  | _,[] => []
  | s,call::calls => readsAt s call++readsIn (apply s call).1 calls

/-- What a side sends in a run for the reads of slot `k`: every data frame is one that can be built,
and those of the slot carry its reads. -/
structure Carries (chId : UInt8) (k : Slot) (reads : List (List UInt8)) (fs : List Frame) :
    Prop where
  sized : ∀bs∈reads,1 ≤ bs.length ∧ bs.length≤65536
  built : ∀f∈fs,f.ftype=fTdata → f.channel=chId ∧ 3 ≤ f.payload.length ∧
    f.payload.length ≤ maxPayload ∧ ∀crc,f.build crc≠[]
  framed : dataFrames (framesFor k fs)=reads.flatMap (tdataFrames chId k)
  stream : streamOf (dataFrames (framesFor k fs))=reads.flatten

theorem streamOf_flatMap (chId : UInt8) (k : Slot) (reads : List (List UInt8)) :
    streamOf (reads.flatMap (tdataFrames chId k))=reads.flatten := by
  induction reads with
  | nil => rfl
  | cons bs reads ih => simp [streamOf_tdataFrames,ih]

theorem TcpFrame.built {chId : UInt8} {k : Slot} {f : Frame} (h : TcpFrame chId k f)
    (ht : f.ftype=fTdata) : f.channel=chId ∧ 3 ≤ f.payload.length ∧
      f.payload.length ≤ maxPayload ∧ ∀crc,f.build crc≠[] := by
  refine ⟨h.channel,?_,h.fits,?_⟩
  · cases h with
    | tconn => exact absurd ht (by decide : fTconn≠fTdata)
    | tclose => exact absurd ht (by decide : fTclose≠fTdata)
    | tdata data hd =>
      have hpos := List.length_pos_iff.mpr hd
      simp only [tdataFrame,packCid,u16ToLe,List.length_append,List.length_cons,List.length_nil]
      omega
  · intro crc
    rw [Frame.build,buildFrame_fits crc _ _ _ h.fits]
    exact List.cons_ne_nil _ _

variable {apply readsAt}

/-- Where every call frames its reads of slot `k`, so does every run. -/
theorem run_carries {chId : UInt8} {k : Slot} {P : σ → Prop}
    (hstep : ∀s call,P s → P (apply s call).1 ∧
      (∀bs∈readsAt s call,1 ≤ bs.length ∧ bs.length≤65536) ∧
      (∀f∈(apply s call).2.frames,∃j,TcpFrame chId j f) ∧
      dataFrames (framesFor k (apply s call).2.frames)=
        (readsAt s call).flatMap (tdataFrames chId k))
    {s : σ} (hs : P s) (calls : List Call) :
    Carries chId k (readsIn apply readsAt s calls) (framesOf (outs apply s calls)) := by
  have hrun : (∀bs∈readsIn apply readsAt s calls,1 ≤ bs.length ∧ bs.length≤65536) ∧
      (∀f∈framesOf (outs apply s calls),∃j,TcpFrame chId j f) ∧
      dataFrames (framesFor k (framesOf (outs apply s calls)))=
        (readsIn apply readsAt s calls).flatMap (tdataFrames chId k) := by
    induction calls generalizing s with
    | nil => exact ⟨nofun,nofun,rfl⟩
    | cons call calls ih =>
      obtain ⟨hn,hsized,htcp,hframed⟩ := hstep s call hs
      obtain ⟨hsized',htcp',hframed'⟩ := ih hn
      refine ⟨?_,?_,?_⟩
      · intro bs hbs
        rcases List.mem_append.mp hbs with hbs|hbs
        · exact hsized bs hbs
        · exact hsized' bs hbs
      · intro f hf
        rcases List.mem_append.mp hf with hf|hf
        · exact htcp f hf
        · exact htcp' f hf
      · simp [readsIn,hframed,hframed']
  obtain ⟨hsized,htcp,hframed⟩ := hrun
  refine ⟨hsized,?_,hframed,?_⟩
  · intro f hf ht
    obtain ⟨j,hj⟩ := htcp f hf
    exact hj.built ht
  · rw [hframed,streamOf_flatMap]

end Sending

theorem TcpSourceChannel.readsAt_sized {k : Slot} {s : TcpSourceChannel} {call : Call}
    {bs : List UInt8} (h : bs∈s.readsAt k call) : 1 ≤ bs.length ∧ bs.length≤65536 := by
  unfold readsAt at h
  split at h
  · unfold slotReads at h
    split_ifs at h
    · exact readsOf_sized h
    · simp at h
    · simp at h
  · simp at h

theorem TcpDestChannel.readsAt_sized {k : Slot} {d : TcpDestChannel} {call : Call}
    {bs : List UInt8} (h : bs∈d.readsAt k call) : 1 ≤ bs.length ∧ bs.length≤65536 := by
  unfold readsAt at h
  split at h
  · unfold slotReads at h
    split_ifs at h
    · exact readsOf_sized h
    · simp at h
    · simp at h
  · simp at h

theorem TcpSourceChannel.carries (k : Slot) (s : TcpSourceChannel) (calls : List Call) :
    Carries s.chId k (readsIn apply (readsAt k) s calls) (framesOf (outs apply s calls)) := by
  refine run_carries (P := fun x => x.chId=s.chId) (fun x call hid => ?_) rfl calls
  obtain ⟨hkept,htcp⟩ := x.apply_sends call
  rw [← hid]
  exact ⟨hkept,fun _ => readsAt_sized,htcp,x.apply_reads k call⟩

theorem TcpDestChannel.carries (k : Slot) (d : TcpDestChannel) (calls : List Call) :
    Carries d.chId k (readsIn apply (readsAt k) d calls) (framesOf (outs apply d calls)) := by
  refine run_carries (P := fun x => x.chId=d.chId) (fun x call hid => ?_) rfl calls
  obtain ⟨hkept,htcp⟩ := x.apply_sends call
  rw [← hid]
  exact ⟨hkept,fun _ => readsAt_sized,htcp,x.apply_reads k call⟩

/-- A connection with more bytes pending. -/
def TcpConn.queued (c : TcpConn) (bs : List UInt8) : TcpConn := {c with txbuf := c.txbuf++bs}

/-- Every one of the frames arrives within the limit of a connection that takes them in turn. -/
def Within (c : TcpConn) : List Frame → Prop
  | [] => True
  | f::fs => overLimit c (streamBytes f)=false ∧ Within (c.queued (streamBytes f)) fs

theorem overLimit_congr {c c' : TcpConn} (h : c'.txbuf=c.txbuf) (data : List UInt8) :
    overLimit c' data=overLimit c data := by
  simp only [overLimit,h]

/-- Only the pending bytes count. -/
theorem within_congr {c c' : TcpConn} (h : c'.txbuf=c.txbuf) (fs : List Frame) :
    Within c' fs ↔ Within c fs := by
  induction fs generalizing c c' with
  | nil => exact Iff.rfl
  | cons f fs ih =>
    have hq : (c'.queued (streamBytes f)).txbuf=(c.queued (streamBytes f)).txbuf := by
      simp [TcpConn.queued,h]
    simp only [Within,overLimit_congr h,ih hq]

/-- A frame on its way, with the kernel's answers while it is handled. -/
abbrev Arrival := Frame × Io

/-- The bytes that a sequence of arrivals brings. -/
def brings (arrivals : List Arrival) : List UInt8 := streamOf (arrivals.map Prod.fst)

@[simp] theorem brings_nil : brings []=[] := rfl

@[simp] theorem brings_cons (a : Arrival) (arrivals : List Arrival) :
    brings (a::arrivals)=streamBytes a.1++brings arrivals := rfl

section Receiving

variable {σ : Type} (apply : σ → Call → σ × Effect) (conns : σ → Slot → Option TcpConn)

def deliver (s : σ) (a : Arrival) : σ × Effect := apply s ⟨.onFrame a.1.ftype a.1.payload,a.2⟩

/-- What becomes of slot `k`, where connection `c` is open, with a sequence of arrivals: within the
limit the bytes queue up behind what is pending; the first frame beyond it ends the connection with
one F_TCLOSE. -/
structure Delivers (chId : UInt8) (k : Slot) (s : σ) (c : TcpConn) (arrivals : List Arrival) :
    Prop where
  others : ∀j≠k,conns (after (deliver apply) s arrivals) j=conns s j
  appended : Within c (arrivals.map Prod.fst) →
    framesOf (outs (deliver apply) s arrivals)=[] ∧
      ∃c',conns (after (deliver apply) s arrivals) k=some c' ∧ c'.stream=c.stream ∧
        c'.txbuf=c.txbuf++brings arrivals
  exceeded : ∀pre a post,arrivals=pre++a::post → Within c (pre.map Prod.fst) →
    overLimit (c.queued (brings pre)) (streamBytes a.1)=true →
      (∃c',conns (after (deliver apply) s pre) k=some c' ∧ c'.txbuf=c.txbuf++brings pre) ∧
      conns (after (deliver apply) s (pre++[a])) k=none ∧
      conns (after (deliver apply) s arrivals) k=none ∧
      framesOf (outs (deliver apply) s arrivals)=[tcloseFrame chId k]

/-- A side that treats the data frames of slot `k` as F_TDATA, and says so when it closes. -/
def TakesData (chId : UInt8) (k : Slot) (P : σ → Prop) : Prop :=
  ∀s data io,P s → P (deliver apply s (tdataFrame chId k data,io)).1 ∧
    ∃interest,conns (deliver apply s (tdataFrame chId k data,io)).1=
        (atSlot (conns s) k (onTdata chId k true interest data)).1 ∧
      (deliver apply s (tdataFrame chId k data,io)).2=
        (onTdata chId k true interest data (conns s k)).2

/-- An arrival of some data for slot `k`. -/
def Piece (chId : UInt8) (k : Slot) (a : Arrival) : Prop := ∃data,data≠[] ∧ a.1=tdataFrame chId k data

theorem onTdata_within (chId : UInt8) (k : Slot) (notify : Bool)
    (interest : TcpConn → Option Interest) {c : TcpConn} {data : List UInt8} (hd : data≠[])
    (h : overLimit c data=false) :
    ∃c',onTdata chId k notify interest data (some c)=(some c',.quiet) ∧ c'.stream=c.stream ∧
      c'.txbuf=c.txbuf++data := by
  rw [onTdata,if_neg hd,h]
  exact ⟨_,rfl,rfl,rfl⟩

theorem onTdata_exceeded (chId : UInt8) (k : Slot) (interest : TcpConn → Option Interest)
    {c : TcpConn} {data : List UInt8} (hd : data≠[]) (h : overLimit c data=true) :
    onTdata chId k true interest data (some c)=(none,.sends [tcloseFrame chId k]) := by
  rw [onTdata,if_neg hd,h]
  rfl

variable {apply conns} {chId : UInt8} {k : Slot} {P : σ → Prop}

namespace TakesData

/-- One arrival, as an operation at its slot. -/
theorem arrival (h : TakesData apply conns chId k P) {s : σ} (hs : P s) {a : Arrival}
    (ha : Piece chId k a) :
    P (deliver apply s a).1 ∧ streamBytes a.1≠[] ∧
      ∃interest,conns (deliver apply s a).1=
          (atSlot (conns s) k (onTdata chId k true interest (streamBytes a.1))).1 ∧
        (deliver apply s a).2=(onTdata chId k true interest (streamBytes a.1) (conns s k)).2 := by
  obtain ⟨f,io⟩ := a
  obtain ⟨data,hd,hf⟩ := ha
  dsimp only at hf
  rw [hf,streamBytes_tdata]
  obtain ⟨hp,hstep⟩ := h s data io hs
  exact ⟨hp,hd,hstep⟩

theorem run (h : TakesData apply conns chId k P) {s : σ} (hs : P s) {arrivals : List Arrival}
    (ha : ∀a∈arrivals,Piece chId k a) : P (after (deliver apply) s arrivals) :=
  after_of_always (deliver apply) (P := P) (G := fun _ a => Piece chId k a)
    (fun _ _ hs ha => (h.arrival hs ha).1) hs (always_of_forall (deliver apply) ha)

theorem others (h : TakesData apply conns chId k P) {s : σ} (hs : P s)
    {arrivals : List Arrival} (ha : ∀a∈arrivals,Piece chId k a) {j : Slot} (hj : j≠k) :
    conns (after (deliver apply) s arrivals) j=conns s j := by
  induction arrivals generalizing s with
  | nil => rfl
  | cons a arrivals ih =>
    obtain ⟨ha,hrest⟩ := List.forall_mem_cons.mp ha
    obtain ⟨hn,-,interest,hconns,-⟩ := h.arrival hs ha
    rw [after_cons,ih hn hrest,hconns,atSlot_other _ hj]

/-- Data for a slot that is empty come to nothing. -/
theorem closed (h : TakesData apply conns chId k P) {s : σ} (hs : P s)
    {arrivals : List Arrival} (ha : ∀a∈arrivals,Piece chId k a) (hc : conns s k=none) :
    framesOf (outs (deliver apply) s arrivals)=[] ∧
      conns (after (deliver apply) s arrivals) k=none := by
  induction arrivals generalizing s with
  | nil => exact ⟨rfl,hc⟩
  | cons a arrivals ih =>
    obtain ⟨ha,hrest⟩ := List.forall_mem_cons.mp ha
    obtain ⟨hn,-,interest,hconns,heff⟩ := h.arrival hs ha
    have hnone : conns (deliver apply s a).1 k=none := by
      rw [hconns,atSlot_self,hc]
      rfl
    obtain ⟨hframes,hafter⟩ := ih hn hrest hnone
    refine ⟨?_,hafter⟩
    rw [outs_cons,framesOf_cons,hframes,heff,hc]
    rfl

theorem appended (h : TakesData apply conns chId k P) {s : σ} (hs : P s) {c : TcpConn}
    {arrivals : List Arrival} (ha : ∀a∈arrivals,Piece chId k a) (hc : conns s k=some c)
    (hw : Within c (arrivals.map Prod.fst)) :
    framesOf (outs (deliver apply) s arrivals)=[] ∧
      ∃c',conns (after (deliver apply) s arrivals) k=some c' ∧ c'.stream=c.stream ∧
        c'.txbuf=c.txbuf++brings arrivals := by
  induction arrivals generalizing s c with
  | nil => exact ⟨rfl,c,hc,rfl,by simp⟩
  | cons a arrivals ih =>
    obtain ⟨ha,hrest⟩ := List.forall_mem_cons.mp ha
    obtain ⟨hlimit,hw⟩ := hw
    obtain ⟨hn,hd,interest,hconns,heff⟩ := h.arrival hs ha
    obtain ⟨c₁,hop,hstream,htx⟩ := onTdata_within chId k true interest hd hlimit
    have hc₁ : conns (deliver apply s a).1 k=some c₁ := by rw [hconns,atSlot_self,hc,hop]
    obtain ⟨hframes,c',hc',hs',htx'⟩ := ih hn hrest hc₁ ((within_congr htx _).mpr hw)
    refine ⟨?_,c',hc',hs'.trans hstream,?_⟩
    · rw [outs_cons,framesOf_cons,hframes,heff,hc,hop]
      rfl
    · rw [htx',htx,brings_cons,List.append_assoc]

/-- The frame that breaks the limit ends the connection, and the frames after it find none. -/
theorem exceeded (h : TakesData apply conns chId k P) {s : σ} (hs : P s) {c : TcpConn}
    {a : Arrival} {post : List Arrival} (ha : Piece chId k a) (hpost : ∀a∈post,Piece chId k a)
    (hc : conns s k=some c) (ho : overLimit c (streamBytes a.1)=true) :
    conns (deliver apply s a).1 k=none ∧ conns (after (deliver apply) s (a::post)) k=none ∧
      framesOf (outs (deliver apply) s (a::post))=[tcloseFrame chId k] := by
  obtain ⟨hn,hd,interest,hconns,heff⟩ := h.arrival hs ha
  have hop := onTdata_exceeded chId k interest hd ho
  have hnone : conns (deliver apply s a).1 k=none := by rw [hconns,atSlot_self,hc,hop]
  obtain ⟨hframes,hafter⟩ := h.closed hn hpost hnone
  refine ⟨hnone,hafter,?_⟩
  rw [outs_cons,framesOf_cons,hframes,heff,hc,hop]
  rfl

theorem delivers (h : TakesData apply conns chId k P) {s : σ} (hs : P s) {c : TcpConn}
    {arrivals : List Arrival} (ha : ∀a∈arrivals,Piece chId k a) (hc : conns s k=some c) :
    Delivers apply conns chId k s c arrivals where
  others _ hj := h.others hs ha hj
  appended hw := h.appended hs ha hc hw
  exceeded := by
    rintro pre a post rfl hw ho
    obtain ⟨hpre,hrest⟩ := List.forall_mem_append.mp ha
    obtain ⟨ha,hpost⟩ := List.forall_mem_cons.mp hrest
    obtain ⟨hframes,c',hc',-,htx⟩ := h.appended hs hpre hc hw
    have ho' : overLimit c' (streamBytes a.1)=true := by
      rw [overLimit_congr (c := c.queued (brings pre)) htx]
      exact ho
    obtain ⟨hnone,hafter,hclose⟩ := h.exceeded (h.run hs hpre) ha hpost hc' ho'
    refine ⟨⟨c',hc',htx⟩,?_,?_,?_⟩
    · rw [after_append]
      exact hnone
    · rw [after_append]
      exact hafter
    · rw [outs_append,framesOf_append,hframes,hclose]
      rfl

end TakesData

end Receiving

namespace TcpSourceChannel

/-- A source has connections only while its link is up. -/
def Linked (s : TcpSourceChannel) : Prop := ∀k c,s.conns k=some c → s.linkUp=true

theorem Linked.new (chId : UInt8) : (TcpSourceChannel.new chId).Linked :=
  fun _ c h => nomatch (h : none=some c)

theorem Linked.apply {s : TcpSourceChannel} (h : s.Linked) (call : Call) :
    (s.apply call).1.Linked := by
  intro k c hc
  by_cases hdown : call.op=.onLinkDisconnect
  · simp [TcpSourceChannel.apply,hdown] at hc
  by_cases hup : call.op=.onLinkConnect
  · simp [TcpSourceChannel.apply,hup]
  rw [s.apply_linkUp ⟨hup,hdown⟩]
  have hm := s.apply_moves call k
  rw [hc] at hm
  generalize hnew : some c=c' at hm
  generalize framesFor k (s.apply call).2.frames=fs at hm
  generalize s.wroteTo k call=out at hm
  -- Outside the accept loop a connection comes only from one that was there.
  have hold : ∀{r : Option TcpConn},(s.conns k=none → r=none) → r=c' → s.linkUp=true := by
    intro r hr hrc
    cases hk : s.conns k with
    | none => exact absurd (hnew.trans (hrc.symm.trans (hr hk))) (by simp)
    | some c₀ => exact h k c₀ hk
  cases hm with
  | rest => exact hold id rfl
  | accepted _ hlink => exact hlink
  | event token readable writable =>
    refine hold (fun hk => ?_) rfl
    rw [hk,(s.slotEvent_local k readable writable call.io).empty]
  | frame ftype payload data _ hp =>
    refine hold (fun hk => ?_) rfl
    have hframe := s.slotFrame_deliver (f := ⟨ftype,s.chId,payload⟩) hp
    rw [hk,hframe.empty]
  | paused p =>
    refine hold (fun hk => ?_) rfl
    rw [hk]
    rfl
  | cleared ho => exact absurd ho hdown

theorem Linked.history (chId : UInt8) (calls : List Call) :
    (after TcpSourceChannel.apply (.new chId) calls).Linked ∧
      (after TcpSourceChannel.apply (.new chId) calls).chId=chId :=
  after_of_step TcpSourceChannel.apply (P := fun s => s.Linked ∧ s.chId=chId)
    (fun s call h => ⟨h.1.apply call,(s.apply_sends call).1.trans h.2⟩) ⟨.new chId,rfl⟩ calls

theorem takesData (chId : UInt8) (k : Slot) :
    TakesData TcpSourceChannel.apply TcpSourceChannel.conns chId k
      (fun s => s.Linked ∧ s.chId=chId) := by
  rintro s data io ⟨hl,rfl⟩
  have hp := slotOfPayload_packCid k data
  refine ⟨⟨hl.apply _,(s.apply_sends _).1⟩,srcConnInterest s.bpPaused,?_⟩
  have hop : s.slotFrame k fTdata data (s.conns k)=
      onTdata s.chId k true (srcConnInterest s.bpPaused) data (s.conns k) := by
    rw [slotFrame,if_pos rfl]
    cases hk : s.conns k with
    | none => rfl
    | some c => rw [hl k c hk]
  simp only [deliver,tdataFrame,apply_slotFrame s hp,atSlot,hop,and_self]

end TcpSourceChannel

theorem TcpDestChannel.takesData (chId : UInt8) (k : Slot) :
    TakesData TcpDestChannel.apply TcpDestChannel.conns chId k (fun d => d.chId=chId) := by
  rintro d data io rfl
  have hp := slotOfPayload_packCid k data
  refine ⟨(d.apply_sends _).1,dstConnInterest d.bpPaused,?_⟩
  have hop : d.slotFrame k fTdata data io=
      onTdata d.chId k true (dstConnInterest d.bpPaused) data := by
    rw [slotFrame,if_neg (by decide),if_pos rfl]
  simp only [deliver,tdataFrame,apply_slotFrame d hp,atSlot,hop,and_self]

/-- The data frames of a run are pieces of the slot's stream. -/
theorem Carries.pieces {chId : UInt8} {k : Slot} {reads : List (List UInt8)} {fs : List Frame}
    (h : Carries chId k reads fs) {arrivals : List Arrival}
    (ha : arrivals.map Prod.fst=dataFrames (framesFor k fs)) :
    (∀a∈arrivals,Piece chId k a) ∧ brings arrivals=reads.flatten := by
  constructor
  · intro a hmem
    have hf : a.1∈arrivals.map Prod.fst := List.mem_map_of_mem hmem
    rw [ha,h.framed] at hf
    obtain ⟨bs,-,hbs⟩ := List.mem_flatMap.mp hf
    obtain ⟨data,hdata,he⟩ := List.mem_map.mp hbs
    exact ⟨data,(mem_chunksOf (by decide) hdata).1,he.symm⟩
  · rw [brings,ha,h.stream]

/-- Either side frames what it reads of a slot, and the other side queues exactly that, in order, up
to its limit. -/
theorem tcp_stream_kept (chId : UInt8) (k : Slot) (calls : List Call) :
    (∀s : TcpSourceChannel,s.chId=chId →
      Carries chId k (readsIn TcpSourceChannel.apply (TcpSourceChannel.readsAt k) s calls)
        (framesOf (outs TcpSourceChannel.apply s calls)) ∧
      ∀(d : TcpDestChannel) (c : TcpConn) (arrivals : List Arrival),d.chId=chId →
        d.conns k=some c →
        arrivals.map Prod.fst=
          dataFrames (framesFor k (framesOf (outs TcpSourceChannel.apply s calls))) →
        brings arrivals=
          (readsIn TcpSourceChannel.apply (TcpSourceChannel.readsAt k) s calls).flatten ∧
        Delivers TcpDestChannel.apply TcpDestChannel.conns chId k d c arrivals) ∧
    (∀d : TcpDestChannel,d.chId=chId →
      Carries chId k (readsIn TcpDestChannel.apply (TcpDestChannel.readsAt k) d calls)
        (framesOf (outs TcpDestChannel.apply d calls)) ∧
      ∀(history : List Call) (c : TcpConn) (arrivals : List Arrival),
        (after TcpSourceChannel.apply (.new chId) history).conns k=some c →
        arrivals.map Prod.fst=
          dataFrames (framesFor k (framesOf (outs TcpDestChannel.apply d calls))) →
        brings arrivals=
          (readsIn TcpDestChannel.apply (TcpDestChannel.readsAt k) d calls).flatten ∧
        Delivers TcpSourceChannel.apply TcpSourceChannel.conns chId k
          (after TcpSourceChannel.apply (.new chId) history) c arrivals) := by
  constructor
  · rintro s rfl
    have hsent := TcpSourceChannel.carries k s calls
    refine ⟨hsent,?_⟩
    intro d c arrivals hid hc ha
    obtain ⟨hpieces,hstream⟩ := hsent.pieces ha
    exact ⟨hstream,(TcpDestChannel.takesData s.chId k).delivers hid hpieces hc⟩
  · rintro d rfl
    have hsent := TcpDestChannel.carries k d calls
    refine ⟨hsent,?_⟩
    intro history c arrivals hc ha
    obtain ⟨hpieces,hstream⟩ := hsent.pieces ha
    exact ⟨hstream,(TcpSourceChannel.takesData d.chId k).delivers
      (TcpSourceChannel.Linked.history d.chId history) hpieces hc⟩

/-- A client of the exporter sends three bytes, which wait at the host for its side to write. -/
theorem tcp_stream_kept_three :
    ∃c,(after (deliver TcpDestChannel.apply)
      ({TcpDestChannel.new 0 with conns := fun _ => some (.opened 7 false)} : TcpDestChannel)
      [(tdataFrame 0 0 [1,2,3],.idle)]).conns 0=some c ∧ c.txbuf=[1,2,3] := by
  have hcarried := ((tcp_stream_kept 0 0 [⟨.handleEvent (tcpSlotToken 0 0) true false,
    {Io.idle with reads := [.data [1,2,3] (by decide)]}⟩]).1
      {TcpSourceChannel.new 0 with conns := fun _ => some (.opened 3 false), linkUp := true} rfl).2
      {TcpDestChannel.new 0 with conns := fun _ => some (.opened 7 false)} (.opened 7 false)
      [(tdataFrame 0 0 [1,2,3],.idle)] rfl rfl (by decide +kernel)
  obtain ⟨-,c,hc,-,htx⟩ := hcarried.2.appended ⟨by decide +kernel,trivial⟩
  exact ⟨c,hc,htx⟩

end Serialmux.Channel

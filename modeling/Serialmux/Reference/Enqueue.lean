import Serialmux.Reference.Calls

namespace Serialmux.Reference

open Framework Protocol Channel

section Queue

variable (crc : List UInt8 → UInt32) (t : TxQueue) (f : Frame)

/-- A whole frame. -/
def frameBytes : List UInt8 := header f++f.payload++trailer crc f

def framesBytes (fs : List Frame) : List UInt8 := fs.flatMap (frameBytes crc)

/-- The queue holds what it held, or that and the whole frame. -/
def Atomic : Prop :=
  (pushFrame crc t f).contents=t.contents ∨ (pushFrame crc t f).contents=t.contents++frameBytes crc f

/-- With `used` bytes in the queue there is space for a frame with a payload of `len` bytes. -/
def Fits (used len : Nat) : Prop := used+10+len≤linkTxbufSize-1

/-- There is not even space for one of its three parts. -/
def Refused (used len : Nat) : Prop :=
  linkTxbufSize-1<used+4 ∧ (len=0 ∨ linkTxbufSize-1<used+len)

instance (used len : Nat) : Decidable (Fits used len) := inferInstanceAs (Decidable (_≤_))

instance (used len : Nat) : Decidable (Refused used len) := inferInstanceAs (Decidable (_∧_))

theorem enqueue_contents_eq (data : List UInt8) :
    (t.enqueue data).contents=
      if t.used+data.length≤linkTxbufSize-1 then t.contents++data else t.contents := by
  have hu := t.used_lt
  split_ifs with hfit
  · exact t.enqueue_contents data (decide_eq_false (by omega))
  · rw [t.enqueue_overflow data (decide_eq_true (by omega))]

theorem enqueue_used_eq (data : List UInt8) :
    (t.enqueue data).used=
      if t.used+data.length≤linkTxbufSize-1 then t.used+data.length else t.used := by
  rw [← TxQueue.contents_length,enqueue_contents_eq]
  split_ifs <;> simp

theorem header_length : (header f).length=6 := rfl

theorem trailer_length : (trailer crc f).length=4 := rfl

theorem frameBytes_length : (frameBytes crc f).length=10+f.payload.length := by
  rw [frameBytes,List.length_append,List.length_append,header_length,trailer_length]
  omega

theorem pushFrame_used : (pushFrame crc t f).used=
    let h := if t.used+6≤linkTxbufSize-1 then t.used+6 else t.used
    let p := if h+f.payload.length≤linkTxbufSize-1 then h+f.payload.length else h
    if p+4≤linkTxbufSize-1 then p+4 else p := by
  rw [pushFrame,enqueue_used_eq,enqueue_used_eq,enqueue_used_eq,header_length,trailer_length]

variable {f t}

theorem Fits.contents (h : Fits t.used f.payload.length) :
    (pushFrame crc t f).contents=t.contents++frameBytes crc f := by
  unfold Fits at h
  have h₁ : (t.enqueue (header f)).used=t.used+6 := by
    rw [enqueue_used_eq,header_length,if_pos (by omega)]
  have h₂ : ((t.enqueue (header f)).enqueue f.payload).used=t.used+6+f.payload.length := by
    rw [enqueue_used_eq,h₁,if_pos (by omega)]
  rw [pushFrame,enqueue_contents_eq,h₂,trailer_length,if_pos (by omega),enqueue_contents_eq,h₁,
    if_pos (by omega),enqueue_contents_eq,header_length,if_pos (by omega),frameBytes]
  simp only [List.append_assoc]

theorem Refused.contents (h : Refused t.used f.payload.length) : (pushFrame crc t f).contents=t.contents := by
  have hu := t.used_lt
  obtain ⟨hcrc,hpayload⟩ := h
  have h₁ : (t.enqueue (header f)).contents=t.contents ∧ (t.enqueue (header f)).used=t.used := by
    rw [enqueue_used_eq,enqueue_contents_eq,header_length,if_neg (by omega),if_neg (by omega)]
    exact ⟨rfl,rfl⟩
  have h₂ : ((t.enqueue (header f)).enqueue f.payload).contents=t.contents := by
    rw [enqueue_contents_eq,h₁.1,h₁.2]
    split_ifs
    · rcases hpayload with hnil|hfull
      · rw [List.eq_nil_of_length_eq_zero hnil,List.append_nil]
      · omega
    · rfl
  have h₂' : ((t.enqueue (header f)).enqueue f.payload).used=t.used := by
    rw [← TxQueue.contents_length,h₂,TxQueue.contents_length]
  rw [pushFrame,enqueue_contents_eq,h₂',trailer_length,if_neg (by omega),h₂]

/-- A frame is torn exactly if there is space for some of its parts and not for all. -/
theorem atomic_iff : Atomic crc t f ↔ Fits t.used f.payload.length ∨ Refused t.used f.payload.length := by
  refine ⟨fun h => ?_,fun h => ?_⟩
  · have hu := t.used_lt
    have hlen : (pushFrame crc t f).used=t.used ∨
        (pushFrame crc t f).used=t.used+(10+f.payload.length) := by
      refine h.imp (fun he => ?_) (fun he => ?_)
      · rw [← TxQueue.contents_length,he,TxQueue.contents_length]
      · rw [← TxQueue.contents_length,he,List.length_append,TxQueue.contents_length,frameBytes_length]
    rw [pushFrame_used] at hlen
    dsimp only at hlen
    unfold Fits Refused
    split_ifs at hlen <;> omega
  · exact h.elim (fun h => .inr (h.contents crc)) (fun h => .inl (h.contents crc))

end Queue

section Sequence

variable (crc : List UInt8 → UInt32)

/-- One call after the other is atomic. -/
def AllAtomic : TxQueue → List Frame → Prop
  | _,[] => True
  | t,f::fs => Atomic crc t f ∧ AllAtomic (pushFrame crc t f) fs

/-- What matters of frames to the queue. -/
def sizes (fs : List Frame) : List Nat := fs.map (fun f => f.payload.length)

/-- Each frame of a sequence with payloads of these sizes finds space, or finds none. -/
def RoomFor : Nat → List Nat → Prop
  | _,[] => True
  | used,len::lens => (Fits used len ∨ Refused used len) ∧
      RoomFor (if Fits used len then used+(10+len) else used) lens

instance : ∀used lens,Decidable (RoomFor used lens)
  | _,[] => inferInstanceAs (Decidable True)
  | _,_::lens => @instDecidableAnd _ _ _ (instDecidableRoomFor _ lens)

variable {t : TxQueue}

theorem pushFrame_used_of_room {f : Frame} (h : Fits t.used f.payload.length ∨ Refused t.used f.payload.length) :
    (pushFrame crc t f).used=if Fits t.used f.payload.length then t.used+(10+f.payload.length) else t.used := by
  rw [← TxQueue.contents_length]
  split_ifs with hfits
  · rw [hfits.contents crc,List.length_append,TxQueue.contents_length,frameBytes_length]
  · rw [(h.resolve_left hfits).contents crc,TxQueue.contents_length]

theorem allAtomic_iff (fs : List Frame) : AllAtomic crc t fs ↔ RoomFor t.used (sizes fs) := by
  induction fs generalizing t with
  | nil => exact Iff.rfl
  | cons f fs ih =>
    rw [AllAtomic,atomic_iff]
    refine and_congr_right (fun hroom => ?_)
    rw [ih,pushFrame_used_of_room crc hroom]
    rfl

/-- A sequence of frames that find room leaves whole frames behind. -/
theorem pushFrames_whole {fs : List Frame} (h : RoomFor t.used (sizes fs)) :
    ∃gs,gs.Sublist fs ∧ (pushFrames crc t fs).contents=t.contents++framesBytes crc gs := by
  induction fs generalizing t with
  | nil => exact ⟨[],.refl [],(List.append_nil _).symm⟩
  | cons f fs ih =>
    obtain ⟨hroom,hrest⟩ := h
    change RoomFor (if Fits t.used f.payload.length then _ else _) (sizes fs) at hrest
    rw [← pushFrame_used_of_room crc hroom] at hrest
    obtain ⟨gs,hsub,hgs⟩ := ih hrest
    rw [pushFrames_cons,hgs]
    rcases hroom with hfits|href
    · refine ⟨f::gs,hsub.cons_cons f,?_⟩
      rw [hfits.contents crc,framesBytes,framesBytes,List.flatMap_cons,List.append_assoc]
    · exact ⟨gs,hsub.cons f,by rw [href.contents crc]⟩

/-- The bytes are whole frames, with lengths that their headers can hold. -/
def WholeFrames (bs : List UInt8) : Prop :=
  ∃fs,(∀f∈fs,f.payload.length<2^16) ∧ bs=framesBytes crc fs

variable {crc}

theorem WholeFrames.append {bs cs : List UInt8} (hb : WholeFrames crc bs) (hc : WholeFrames crc cs) :
    WholeFrames crc (bs++cs) := by
  obtain ⟨fs,hfs,rfl⟩ := hb
  obtain ⟨gs,hgs,rfl⟩ := hc
  refine ⟨fs++gs,fun f hf => (List.mem_append.mp hf).elim (hfs f) (hgs f),?_⟩
  rw [framesBytes,framesBytes,framesBytes,List.flatMap_append]

theorem length_of_header {f g : Frame} (hf : f.payload.length<2^16) (hg : g.payload.length<2^16)
    (h : header f=header g) : f.payload.length=g.payload.length := by
  simp only [header,List.cons.injEq,and_true,true_and] at h
  obtain ⟨-,-,hlo,hhi⟩ := h
  have hlo := congrArg UInt8.toNat hlo
  have hhi := congrArg UInt8.toNat hhi
  simp only [UInt8.toNat_ofNat',Nat.shiftRight_eq_div_pow,Nat.and_two_pow_sub_one_eq_mod _ 8] at hlo hhi
  omega

/-- Bytes that begin as a frame does, but end before it could be over, are not whole frames,
whatever whole frames come before them. -/
theorem WholeFrames.not_torn {fs : List Frame} (hfs : ∀f∈fs,f.payload.length<2^16) {f : Frame}
    (hf : f.payload.length<2^16) {bs : List UInt8} (hbs : bs.length<f.payload.length+4) :
    ¬WholeFrames crc (framesBytes crc fs++(header f++bs)) := by
  rintro ⟨gs,hgs,h⟩
  induction fs generalizing gs with
  | nil =>
    cases gs with
    | nil => cases h
    | cons g gs =>
      rw [framesBytes,framesBytes,List.flatMap_nil,List.nil_append,List.flatMap_cons,frameBytes,
        List.append_assoc,List.append_assoc] at h
      obtain ⟨hhead,hrest⟩ := List.append_inj h rfl
      have hlen := length_of_header hf (hgs g List.mem_cons_self) hhead
      have hsize := congrArg List.length hrest
      simp only [List.length_append,trailer_length] at hsize
      omega
  | cons f' fs ih =>
    cases gs with
    | nil => cases h
    | cons g gs =>
      rw [framesBytes,framesBytes,List.flatMap_cons,List.flatMap_cons,List.append_assoc] at h
      have hhead : header f'=header g := by
        simp only [frameBytes,List.append_assoc] at h
        exact (List.append_inj h rfl).1
      have hlen := length_of_header (hfs f' List.mem_cons_self) (hgs g List.mem_cons_self) hhead
      obtain ⟨-,hrest⟩ := List.append_inj h (by rw [frameBytes_length,frameBytes_length,hlen])
      exact ih (fun f hf => hfs f (List.mem_cons_of_mem f' hf)) gs
        (fun f hf => hgs f (List.mem_cons_of_mem g hf)) hrest

theorem enqueue_keeps (t : TxQueue) (data : List UInt8) : t.contents <+: (t.enqueue data).contents := by
  rw [enqueue_contents_eq]
  split_ifs
  · exact List.prefix_append _ _
  · exact List.prefix_refl _

/-- All that an `enqueue_frame` does comes after its header. -/
theorem header_keeps (crc : List UInt8 → UInt32) (t : TxQueue) (f : Frame) :
    (t.enqueue (header f)).contents <+: (pushFrame crc t f).contents :=
  (enqueue_keeps _ _).trans (enqueue_keeps _ _)

theorem pushFrames_keeps (crc : List UInt8 → UInt32) (t : TxQueue) (fs : List Frame) :
    t.contents <+: (pushFrames crc t fs).contents := by
  induction fs generalizing t with
  | nil => exact List.prefix_refl _
  | cons f fs ih =>
    rw [pushFrames_cons]
    exact ((enqueue_keeps t _).trans (header_keeps crc t f)).trans (ih _)

/-- A frame of which the header finds space and not all of the rest leaves no whole frames behind,
whatever is enqueued after it. -/
theorem pushFrames_torn {wire : List UInt8} (hw : WholeFrames crc (wire++t.contents)) {f : Frame}
    (hf : f.payload.length<2^16) (hhead : t.used+6≤linkTxbufSize-1)
    (htorn : linkTxbufSize-1<t.used+(10+f.payload.length)) (fs : List Frame) :
    ¬WholeFrames crc (wire++(pushFrames crc t (f::fs)).contents) := by
  obtain ⟨whole,hsized,hwhole⟩ := hw
  have hheader : (t.enqueue (header f)).contents=t.contents++header f := by
    rw [enqueue_contents_eq,header_length,if_pos hhead]
  obtain ⟨bs,hbs⟩ := (header_keeps crc t f).trans (pushFrames_keeps crc (pushFrame crc t f) fs)
  have hlen := congrArg List.length hbs
  have hused := (pushFrames crc (pushFrame crc t f) fs).used_lt
  rw [hheader] at hbs hlen
  simp only [List.length_append,TxQueue.contents_length,header_length] at hlen
  rw [pushFrames_cons,← hbs,List.append_assoc,← List.append_assoc,hwhole]
  exact WholeFrames.not_torn hsized hf (by omega)

end Sequence

namespace LinkTxq

def used (q : LinkTxq) : Nat := (q.tail+linkTxbufSize-q.head)%linkTxbufSize

/-- The bytes of the ring, oldest first. -/
def contents (q : LinkTxq) : List UInt8 := window q.buf q.head q.used

theorem Rep.used_eq {q : LinkTxq} {t : TxQueue} (h : q.Rep t) : q.used=t.used := by
  rw [LinkTxq.used,h.head,h.tail,TxQueue.used]

theorem Rep.contents {q : LinkTxq} {t : TxQueue} (h : q.Rep t) : q.contents=t.contents := by
  rw [LinkTxq.contents,h.used_eq,h.buf,h.head,TxQueue.contents]

end LinkTxq

/-- What the loop head starts with: a link that is down is opened when it is time. -/
def reopenLink (crc : List UInt8 → UInt32) (d : Daemon) (nowMs clock : Millis) (dev : Option RawFd) :
    Option Daemon :=
  if d.disconnected=true ∧ d.reopenAtMs≤nowMs then openLink crc d clock dev else some d

/-- The link is silent for too long. -/
def Daemon.lost (d : Daemon) (nowMs : Millis) : Bool :=
  0<d.lastRxMs && kaTimeoutMs<nowMs-d.lastRxMs

/-- The link is idle and it is time for a PING. -/
def Daemon.pings (d : Daemon) (nowMs : Millis) : Bool :=
  !d.disconnected && !d.lost nowMs && d.linkUp && txqEmpty d.txq && 0<d.lastTxMs &&
    kaIntervalMs≤nowMs-d.lastTxMs

theorem tickKeepalive_eq (crc : List UInt8 → UInt32) (d : Daemon) (nowMs clock : Millis) :
    tickKeepalive crc d nowMs clock=
      if d.disconnected then some d
      else if d.lost nowMs then some (closeLink d clock)
      else if d.pings nowMs then enqueueFrame crc d clock fPing 0 []
      else some d := by
  have hlost : (0 < d.lastRxMs ∧ kaTimeoutMs<nowMs-d.lastRxMs) ↔ d.lost nowMs=true := by
    simp [Daemon.lost]
  unfold tickKeepalive
  by_cases hdis : d.disconnected=true
  · rw [if_pos hdis,if_pos hdis]
  rw [if_neg hdis,if_neg hdis]
  by_cases hl : d.lost nowMs=true
  · rw [if_pos hl,if_pos (hlost.mpr hl)]
  rw [if_neg hl,if_neg (hl∘hlost.mp)]
  have hpings : (d.linkUp=true ∧ txqEmpty d.txq=true ∧ 0 < d.lastTxMs ∧
      kaIntervalMs≤nowMs-d.lastTxMs) ↔ d.pings nowMs=true := by
    have hdis' : d.disconnected=false := by simpa using hdis
    have hl' : d.lost nowMs=false := by simpa using hl
    simp [Daemon.pings,hdis',hl',and_assoc]
  by_cases hp : d.pings nowMs=true
  · rw [if_pos hp,if_pos (hpings.mpr hp)]
  · rw [if_neg hp,if_neg (hp∘hpings.mp)]

namespace Daemon

variable (crc : List UInt8 → UInt32)

/-- The frames that an event of a channel makes it hand to `daemon_send`. -/
def eventCalls (d : Daemon) (tag : Tag) (readable writable : Bool) (io : Io) : List Frame :=
  let kind := tag.encode>>>32
  let info := tag.encode&&&0xFFFFFFFF
  let id := UInt8.ofNat (if kind=5 then (info>>>16)&&&0xFF else info)
  (d.channels id).elim [] (fun ch => chEventFrames id ch kind info readable writable io)

/-- Every call of `enqueue_frame` in a step meets `G`, as to the ring that it finds; calls in a row
are taken together. -/
def EachCall (G : LinkTxq → List Frame → Prop) (d : Daemon) : LoopStep → Prop
  | .head nowMs clock dev _ =>
    (d.disconnected=true → d.reopenAtMs≤nowMs → dev≠none → G .zero [⟨fHello,0,[]⟩]) ∧
    ∀d₁,reopenLink crc d nowMs clock dev=some d₁ →
      (d₁.pings nowMs=true → G d₁.txq [⟨fPing,0,[]⟩]) ∧
      ∀d₂,tickKeepalive crc d₁ nowMs clock=some d₂ →
        G d₂.txq (d₂.offered (d₂.gather (tickFrames nowMs) channelIds))
  | .event .link readable _ _ lio =>
    d.linkFd≠none → readable=true → ∀bs hbs,lio.read=.data bs hbs →
      Throughout (linkFrame crc lio) (fun s f => G s.1.txq (s.1.frameCalls f (lio.ios s.2)))
        ({d with lastRxMs := lio.clock},0) (fpFrames crc d.parser bs)
  | .event tag readable writable io _ => G d.txq (d.offered (d.eventCalls tag readable writable io))

/-- Every frame that the step hands over finds room, or none at all. -/
def Roomy (d : Daemon) (step : LoopStep) : Prop :=
  d.EachCall crc (fun q fs => RoomFor q.used (sizes fs)) step

/-- Every frame that the step hands over is put into the ring whole, or not at all. -/
def AtomicStep (d : Daemon) (step : LoopStep) : Prop :=
  d.EachCall crc (fun q fs => ∃t,q.Rep t ∧ AllAtomic crc t fs) step

variable {crc} {d : Daemon}

theorem EachCall.mono {G H : LinkTxq → List Frame → Prop} (hGH : ∀q fs,G q fs → H q fs)
    {step : LoopStep} (h : d.EachCall crc G step) : d.EachCall crc H step := by
  cases step with
  | head nowMs clock dev ios =>
    refine ⟨fun h₁ h₂ h₃ => hGH _ _ (h.1 h₁ h₂ h₃),fun d₁ hd₁ => ?_⟩
    obtain ⟨hping,htick⟩ := h.2 d₁ hd₁
    exact ⟨fun hp => hGH _ _ (hping hp),fun d₂ hd₂ => hGH _ _ (htick d₂ hd₂)⟩
  | event tag readable writable io lio =>
    cases tag with
    | link =>
      exact fun hfd hr bs hbs he => (h hfd hr bs hbs he).mono (fun s f hs => hGH _ _ hs)
    | mcu id => exact hGH _ _ h
    | pty id => exact hGH _ _ h
    | server id => exact hGH _ _ h
    | tcpConn id cid => exact hGH _ _ h

/-- Wherever a frame is enqueued the ring is in order. -/
theorem EachCall.keep {specs : UInt8 → Option Spec} (hd : Sound False crc specs d)
    {G : LinkTxq → List Frame → Prop} {step : LoopStep} (h : d.EachCall crc G step) :
    d.EachCall crc (fun q fs => (∃t,q.Rep t) ∧ G q fs) step := by
  cases step with
  | head nowMs clock dev ios =>
    refine ⟨fun h₁ h₂ h₃ => ⟨⟨_,.zero⟩,h.1 h₁ h₂ h₃⟩,fun d₁ hd₁ => ?_⟩
    have hopen : Yields (Sound False crc specs) (reopenLink crc d nowMs clock dev) :=
      .when (fun _ => hd.openLink clock dev) hd
    have hsound := hopen.get hd₁
    obtain ⟨hping,htick⟩ := h.2 d₁ hd₁
    refine ⟨fun hp => ⟨hsound.ring,hping hp⟩,fun d₂ hd₂ => ⟨?_,htick d₂ hd₂⟩⟩
    exact ((Sound.kept.tickKeepalive hsound nowMs clock).get hd₂).ring
  | event tag readable writable io lio =>
    cases tag with
    | link =>
      intro hfd hr bs hbs he
      have hrx : Sound False crc specs {d with lastRxMs := lio.clock} :=
        ⟨hd.parser,hd.ring,hd.kinds,hd.channels⟩
      refine (Throughout.keep (I := fun s => Sound False crc specs s.1) ?_ hrx
        (h hfd hr bs hbs he)).mono (fun s f hs => ⟨hs.1.ring,hs.2⟩)
      intro (d',k) f h'
      have hframe : Yields (fun s : Daemon × Nat => Sound False crc specs s.1)
          (linkFrame crc lio (d',k) f) :=
        (Sound.onFrame h' f (lio.ios k) nofun).bind (fun d'' h'' => .some h'')
      exact hframe.allows
    | mcu id => exact ⟨hd.ring,h⟩
    | pty id => exact ⟨hd.ring,h⟩
    | server id => exact ⟨hd.ring,h⟩
    | tcpConn id cid => exact ⟨hd.ring,h⟩

theorem AtomicStep.roomy {step : LoopStep} (h : d.AtomicStep crc step) : d.Roomy crc step := by
  refine EachCall.mono ?_ h
  intro q fs ⟨t,ht,hall⟩
  rw [ht.used_eq]
  exact (allAtomic_iff crc fs).mp hall

theorem Roomy.atomicStep {specs : UInt8 → Option Spec} (hd : Sound False crc specs d)
    {step : LoopStep} (h : d.Roomy crc step) : d.AtomicStep crc step := by
  refine (EachCall.keep hd h).mono ?_
  intro q fs ⟨⟨t,ht⟩,hroom⟩
  rw [ht.used_eq] at hroom
  exact ⟨t,ht,(allAtomic_iff crc fs).mpr hroom⟩

/-- An event of a channel hands over its frames. -/
theorem dispatchEvent_calls (d : Daemon) {tag : Tag} (htag : tag≠.link) (readable writable : Bool)
    (io : Io) (lio : LinkIo) :
    Allows (fun d' => d'.session=d.session ∧
        Pushed crc (d.offered (d.eventCalls tag readable writable io)) d d')
      (dispatchEvent crc d tag.encode readable writable io lio) := by
  obtain ⟨hlo,hhi,-⟩ := tag.encode_parts htag
  unfold dispatchEvent eventCalls
  rw [if_neg (by omega),if_pos ⟨hlo,hhi⟩]
  refine .check (fun _ => ?_)
  dsimp only
  generalize UInt8.ofNat (if tag.encode>>>32=5 then ((tag.encode&&&0xFFFFFFFF)>>>16)&&&0xFF
    else tag.encode&&&0xFFFFFFFF)=id
  cases hget : d.channels id with
  | none =>
    rw [chHandleEvent_none hget]
    refine .some ⟨rfl,?_⟩
    rw [Option.elim_none,offered_nil]
    exact .nil rfl
  | some ch =>
    refine (chHandleEvent_hands hget _ _ readable writable io).mono (fun d' h => ?_)
    exact ⟨session_of_link h.link,h.pushed⟩

end Daemon

section Wire

variable (crc : List UInt8 → UInt32)

/-- The bytes that `txq_drain` writes. -/
def drainedBytes (q : LinkTxq) (w : WriteResult) : List UInt8 :=
  if txqEmpty q then []
  else
    match w with
    | .again => []
    | .error => []
    | .wrote n => (q.buf.drop q.head).take (min n (q.avail.getD 0))

/-- The bytes that an event of the link writes to it. -/
def writtenBytes (d : Daemon) (readable writable : Bool) (lio : LinkIo) : List UInt8 :=
  if d.linkFd=none then []
  else
    match (if readable then linkRead crc d lio else some d) with
    | none => []
    | some d => if d.linkFd=none ∨ writable=false then [] else drainedBytes d.txq lio.write

/-- A step, with all that was written to the link since it was opened. -/
def wireStep : Daemon × List UInt8 → LoopStep → Option (Daemon × List UInt8)
  | (d,wire),.head nowMs clock dev ios => do
    let d' ← loopHead crc d nowMs clock dev ios
    let opens := d.disconnected=true ∧ d.reopenAtMs≤nowMs ∧ dev≠none
    return (d',if opens then [] else wire)
  | (d,wire),.event tag readable writable io lio => do
    let d' ← dispatchEvent crc d tag.encode readable writable io lio
    return (d',if tag=.link then wire++writtenBytes crc d readable writable lio else wire)

/-- No frame on an open link is torn: what was written to it and what waits for it are whole
frames. -/
def Whole (s : Daemon × List UInt8) : Prop :=
  s.1.disconnected=false → WholeFrames crc (s.2++s.1.txq.contents)

variable {crc} {d : Daemon} {wire : List UInt8}

/-- Frames that find room keep what is on the link whole. -/
theorem Whole.push (h : Whole crc (d,wire)) {d' : Daemon} (hs : d'.session=d.session)
    (hring : ∃t,d.txq.Rep t) {fs : List Frame} (hp : Pushed crc fs d d')
    (hroom : RoomFor d.txq.used (sizes fs)) : Whole crc (d',wire) := by
  intro hdis
  obtain ⟨t,ht⟩ := hring
  rw [ht.used_eq] at hroom
  obtain ⟨gs,hsub,hgs⟩ := pushFrames_whole crc hroom
  have hup : d.disconnected=false := (congrArg Prod.fst hs).symm.trans hdis
  have hcontents : d'.txq.contents=d.txq.contents++framesBytes crc gs := by
    rw [(hp.ring t ht).contents,hgs,ht.contents]
  change WholeFrames crc (wire++d'.txq.contents)
  rw [hcontents,← List.append_assoc]
  exact (h hup).append ⟨gs,fun f hf => hp.sized f (hsub.subset hf),rfl⟩

theorem drainedBytes_eq {q : LinkTxq} {t : TxQueue} (h : q.Rep t) (w : WriteResult) :
    drainedBytes q w=(t.drainToFd w).written := by
  rw [drainedBytes.eq_def,h.empty,TxQueue.drainToFd.eq_def]
  split_ifs
  · rfl
  · cases w with
    | again => rfl
    | error => rfl
    | wrote n => simp only [h.avail,h.buf,h.head,Option.getD_some]

theorem closeLink_disconnected (d : Daemon) (clock : Millis) :
    (closeLink d clock).disconnected=true := by
  unfold closeLink
  by_cases hdis : d.disconnected=true
  · rw [if_pos hdis]
    exact hdis
  · rw [if_neg hdis]
    rfl

theorem Whole.of_disconnected (h : d.disconnected=true) : Whole crc (d,wire) :=
  fun hup => nomatch h.symm.trans hup

variable {specs : UInt8 → Option Spec}

theorem linkRead_whole (hd : d.Sound False crc specs) (h : Whole crc (d,wire)) (lio : LinkIo)
    (hroom : ∀bs hbs,lio.read=.data bs hbs → Throughout (linkFrame crc lio)
      (fun s f => RoomFor s.1.txq.used (sizes (s.1.frameCalls f (lio.ios s.2))))
      ({d with lastRxMs := lio.clock},0) (fpFrames crc d.parser bs)) :
    Yields (fun d' => d'.Sound False crc specs ∧ Whole crc (d',wire)) (linkRead crc d lio) := by
  unfold linkRead
  cases hread : lio.read with
  | wouldBlock => exact .some ⟨hd,h⟩
  | error e => exact .some ⟨hd.closeLink lio.clock,.of_disconnected (closeLink_disconnected d _)⟩
  | data bs hbs =>
    cases bs with
    | nil => exact .some ⟨hd,h⟩
    | cons b bs =>
      have hrx : Daemon.Sound False crc specs {d with lastRxMs := lio.clock} :=
        ⟨hd.parser,hd.ring,hd.kinds,hd.channels⟩
      have hfeed := fpFeed_yields crc (linkFrame crc lio)
        (I := fun s => s.1.Sound False crc specs ∧ Whole crc (s.1,wire)) hd.parser
        (fun (d',k) f ⟨h',hw⟩ hr => by
          refine ((h'.onFrame f (lio.ios k) nofun).and_allows (onFrame_calls crc d' f _)).bind ?_
          intro d'' ⟨h'',hs,hpushed⟩
          exact .some ⟨h'',hw.push hs h'.ring hpushed hr⟩)
        ⟨hrx,h⟩ (hroom (b::bs) hbs hread)
      refine hfeed.bind ?_
      intro ⟨parser,d',k⟩ ⟨hparser,h',hw⟩
      exact .some ⟨⟨hparser,h'.ring,h'.kinds,h'.channels⟩,hw⟩

theorem linkWrite_whole (hd : d.Sound False crc specs) (h : Whole crc (d,wire)) (lio : LinkIo) :
    Allows (fun d' => Whole crc (d',wire++drainedBytes d.txq lio.write)) (linkWrite d lio) := by
  obtain ⟨t,ht⟩ := hd.ring
  refine (ht.drain lio.write).allows.bind ?_
  intro (txq,rc) ⟨htxq,_⟩
  dsimp only at htxq ⊢
  -- What is written moves from the ring to the link.
  have hmoved : Whole crc ({d with txq := txq},wire++drainedBytes d.txq lio.write) := by
    intro hup
    have hsame : wire++drainedBytes d.txq lio.write++txq.contents=wire++d.txq.contents := by
      rw [htxq.contents,drainedBytes_eq ht,List.append_assoc,t.drainToFd_contents lio.write,
        ht.contents]
    change WholeFrames crc (wire++drainedBytes d.txq lio.write++txq.contents)
    rw [hsame]
    exact h hup
  by_cases hrc : rc=none
  · rw [if_pos hrc]
    exact .some (.of_disconnected (closeLink_disconnected _ _))
  rw [if_neg hrc]
  refine .next htxq.used ?_
  have hlow (used : Nat) : (resumeIfLow {d with txq := txq} used).disconnected=d.disconnected ∧
      (resumeIfLow {d with txq := txq} used).txq=txq := by
    unfold resumeIfLow
    split_ifs <;> exact ⟨rfl,rfl⟩
  have hresumed (used : Nat) : Whole crc (resumeIfLow {d with txq := txq} used,
      wire++drainedBytes d.txq lio.write) := by
    intro hup
    have hwhole := hmoved ((hlow used).1.symm.trans hup)
    rwa [← (hlow used).2] at hwhole
  split_ifs
  · exact .some (hresumed _)
  · exact .some (hresumed _)

theorem handleLinkEvent_whole (hd : d.Sound False crc specs) (h : Whole crc (d,wire))
    (readable writable : Bool) (lio : LinkIo)
    (hroom : d.linkFd≠none → readable=true → ∀bs hbs,lio.read=.data bs hbs →
      Throughout (linkFrame crc lio) (fun s f => RoomFor s.1.txq.used (sizes (s.1.frameCalls f (lio.ios s.2))))
        ({d with lastRxMs := lio.clock},0) (fpFrames crc d.parser bs)) :
    Allows (fun d' => Whole crc (d',wire++writtenBytes crc d readable writable lio))
      (handleLinkEvent crc d readable writable lio) := by
  unfold handleLinkEvent writtenBytes
  by_cases hfd : d.linkFd=none
  · rw [if_pos hfd,if_pos hfd,List.append_nil]
    exact .some h
  rw [if_neg hfd,if_neg hfd]
  have hread : Yields (fun d' => d'.Sound False crc specs ∧ Whole crc (d',wire))
      (if readable then linkRead crc d lio else some d) :=
    .when (fun hr => linkRead_whole hd h lio (hroom hfd hr)) ⟨hd,h⟩
  obtain ⟨d₁,hd₁,hsound,hwhole⟩ := hread
  rw [hd₁]
  refine .next rfl ?_
  dsimp only
  by_cases hfd₁ : d₁.linkFd=none
  · rw [if_pos hfd₁,if_pos (.inl hfd₁),List.append_nil]
    exact .some hwhole
  rw [if_neg hfd₁]
  cases writable with
  | false =>
    rw [if_pos (.inr rfl),List.append_nil]
    exact .some hwhole
  | true =>
    rw [if_neg (by simp [hfd₁])]
    exact linkWrite_whole hsound hwhole lio

/-- A link that has just been opened: a HELLO is all that is in the ring. -/
theorem openLink_whole (d : Daemon) (clock : Millis) (fd : RawFd) :
    Allows (fun d' => Whole crc (d',[])) (openLink crc d clock (some fd)) := by
  refine (enqueueFrame_allows clock fHello 0 []).mono ?_
  intro d' ⟨_,_,_,hpushed⟩ _
  have hfits : Fits TxQueue.new.used (⟨fHello,0,[]⟩ : Frame).payload.length := by decide
  refine ⟨[⟨fHello,0,[]⟩],hpushed.sized,?_⟩
  rw [(hpushed.ring _ .zero).contents,pushFrames_one,hfits.contents crc,TxQueue.new_contents,
    framesBytes,List.flatMap_cons,List.flatMap_nil,List.append_nil]
  rfl

theorem tickKeepalive_whole (hd : d.Sound False crc specs) (h : Whole crc (d,wire))
    (nowMs clock : Millis) (hroom : d.pings nowMs=true → RoomFor d.txq.used (sizes [⟨fPing,0,[]⟩])) :
    Allows (fun d' => Whole crc (d',wire)) (tickKeepalive crc d nowMs clock) := by
  rw [tickKeepalive_eq]
  split_ifs with hdis hlost hping
  · exact .some h
  · exact .some (.of_disconnected (closeLink_disconnected _ _))
  · refine (enqueueFrame_allows clock fPing 0 []).mono ?_
    intro d' ⟨_,hl,_,hpushed⟩
    exact h.push (Daemon.session_of_link hl) hd.ring hpushed (hroom hping)
  · exact .some h

theorem loopHead_whole (hd : d.Sound False crc specs) (h : Whole crc (d,wire)) (nowMs clock : Millis)
    (dev : Option RawFd) (ios : UInt8 → Io) (hroom : d.Roomy crc (.head nowMs clock dev ios)) :
    Allows (fun d' => Whole crc (d',if d.disconnected=true ∧ d.reopenAtMs≤nowMs ∧ dev≠none then []
      else wire)) (loopHead crc d nowMs clock dev ios) := by
  generalize hwire : (if d.disconnected=true ∧ d.reopenAtMs≤nowMs ∧ dev≠none then [] else wire)=wire'
  have hopen : Allows (fun d₁ => reopenLink crc d nowMs clock dev=some d₁ ∧
      d₁.Sound False crc specs ∧ Whole crc (d₁,wire')) (reopenLink crc d nowMs clock dev) := by
    intro d₁ hd₁
    have hsound : Yields (Daemon.Sound False crc specs) (reopenLink crc d nowMs clock dev) :=
      .when (fun _ => hd.openLink clock dev) hd
    refine ⟨hd₁,hsound.get hd₁,?_⟩
    unfold reopenLink at hd₁
    split_ifs at hd₁ with hdue
    · cases dev with
      | none =>
        obtain rfl := Option.some.inj hd₁
        exact .of_disconnected rfl
      | some fd =>
        rw [if_pos ⟨hdue.1,hdue.2,nofun⟩] at hwire
        exact hwire ▸ openLink_whole d clock fd d₁ hd₁
    · obtain rfl := Option.some.inj hd₁
      rw [if_neg (fun h => hdue ⟨h.1,h.2.1⟩)] at hwire
      exact hwire ▸ h
  refine hopen.bind ?_
  intro d₁ ⟨hd₁,hsound₁,hwhole₁⟩
  obtain ⟨hping,htick⟩ := hroom.2 d₁ hd₁
  intro d' hd'
  obtain ⟨d₂,hd₂,hd'⟩ := Option.bind_eq_some_iff.mp hd'
  have hwhole₂ := tickKeepalive_whole hsound₁ hwhole₁ nowMs clock hping d₂ hd₂
  have hsound₂ := (Daemon.Sound.kept.tickKeepalive hsound₁ nowMs clock).get hd₂
  have hloop := tick_loops d₂ nowMs ios d' hd'
  exact hwhole₂.push (Daemon.session_of_link hloop.link) hsound₂.ring hloop.pushed (htick d₂ hd₂)

theorem wireStep_whole (hd : d.Sound False crc specs) (h : Whole crc (d,wire)) (step : LoopStep)
    (hroom : d.Roomy crc step) :
    Yields (fun s => s.1.Sound False crc specs ∧ Whole crc s) (wireStep crc (d,wire) step) := by
  cases step with
  | head nowMs clock dev ios =>
    refine ((Daemon.Sound.kept.loopHead hd nowMs clock dev ios).and_allows
      (loopHead_whole hd h nowMs clock dev ios hroom)).bind ?_
    exact fun d' hd' => .some hd'
  | event tag readable writable io lio =>
    have hsound : Yields (Daemon.Sound False crc specs)
        (dispatchEvent crc d tag.encode readable writable io lio) :=
      hd.loopStep (.event tag readable writable io lio) nofun
    refine (hsound.and_allows (Q := fun d' => Whole crc (d',if tag=.link then
      wire++writtenBytes crc d readable writable lio else wire)) ?_).bind (fun d' hd' => .some hd')
    by_cases htag : tag=.link
    · subst htag
      rw [if_pos rfl]
      exact handleLinkEvent_whole hd h readable writable lio hroom
    · rw [if_neg htag]
      refine (Daemon.dispatchEvent_calls d htag readable writable io lio).mono ?_
      intro d' ⟨hs,hpushed⟩
      refine h.push hs hd.ring hpushed ?_
      cases tag with
      | link => exact absurd rfl htag
      | mcu id => exact hroom
      | pty id => exact hroom
      | server id => exact hroom
      | tcpConn id cid => exact hroom

theorem wireStep_loopStep (s : Daemon × List UInt8) (step : LoopStep) (s' : Daemon × List UInt8)
    (h : wireStep crc s step=some s') : loopStep crc s.1 step=some s'.1 := by
  cases step with
  | head nowMs clock dev ios =>
    obtain ⟨d',hd',h⟩ := Option.bind_eq_some_iff.mp h
    obtain rfl := Option.some.inj h
    exact hd'
  | event tag readable writable io lio =>
    obtain ⟨d',hd',h⟩ := Option.bind_eq_some_iff.mp h
    obtain rfl := Option.some.inj h
    exact hd'

/-- A step that writes nothing to the link. -/
def LoopStep.quiet : LoopStep → Bool
  | .head .. => false
  | .event .link _ writable _ _ => !writable
  | .event .. => true

theorem wireStep_quiet {step : LoopStep} (h : step.quiet=true) :
    wireStep crc (d,wire) step=(loopStep crc d step).map (·,wire) := by
  cases step with
  | head nowMs clock dev ios => cases h
  | event tag readable writable io lio =>
    have hwire : (if tag=.link then wire++writtenBytes crc d readable writable lio else wire)=wire := by
      split_ifs with htag
      · subst htag
        have hw : writable=false := by simpa [LoopStep.quiet] using h
        unfold writtenBytes
        generalize (if readable then linkRead crc d lio else some d)=read
        cases read <;> simp [hw]
      · rfl
    unfold wireStep loopStep
    dsimp only
    rw [hwire]
    cases dispatchEvent crc d tag.encode readable writable io lio <;> rfl

theorem wireRun_quiet {steps : List LoopStep} (h : ∀s∈steps,s.quiet=true) :
    steps.foldlM (wireStep crc) (d,wire)=(steps.foldlM (loopStep crc) d).map (·,wire) := by
  induction steps generalizing d with
  | nil => rfl
  | cons s steps ih =>
    rw [List.foldlM_cons,List.foldlM_cons,wireStep_quiet (h s List.mem_cons_self)]
    cases loopStep crc d s with
    | none => rfl
    | some d' => exact ih (fun s' hs' => h s' (List.mem_cons_of_mem s hs'))

end Wire

/-- In every run: each frame is put into the ring whole or not at all if and only if each finds room
or none at all; and then, in every state that is reached, what was written to the link and what waits
for it are whole frames. -/
theorem enqueue_atomic (crc : List UInt8 → UInt32) (specs : UInt8 → Option Spec) (ios : UInt8 → Io)
    (clock : Millis) (dev : Option RawFd) (steps : List LoopStep) :
    ∃d,openLink crc (daemonInit specs ios) clock dev=some d ∧
      (Throughout (loopStep crc) (Daemon.AtomicStep crc) d steps ↔
        Throughout (loopStep crc) (Daemon.Roomy crc) d steps) ∧
      (Throughout (loopStep crc) (Daemon.Roomy crc) d steps → ∀n,
        Yields (Whole crc) ((steps.take n).foldlM (wireStep crc) (d,[]))) := by
  obtain ⟨d,hd,hsound⟩ := (Daemon.Sound.init (w := False) crc specs ios).openLink clock dev
  have hstep (d : Daemon) (s : LoopStep) (h : d.Sound False crc specs) :
      Yields (Daemon.Sound False crc specs) (loopStep crc d s) := h.loopStep s nofun
  refine ⟨d,hd,⟨fun h => ?_,fun h => ?_⟩,fun h n => ?_⟩
  · exact h.mono (fun _ _ hs => hs.roomy)
  · exact (h.keep (fun d s hs => (hstep d s hs).allows) hsound).mono (fun _ _ hs => hs.2.atomicStep hs.1)
  · have hwhole : Whole crc (d,[]) := by
      cases dev with
      | none =>
        obtain rfl := Option.some.inj hd
        exact .of_disconnected rfl
      | some fd => exact openLink_whole _ clock fd d hd
    have hall : Throughout (wireStep crc) (fun s i => Daemon.Roomy crc s.1 i) (d,[]) (steps.take n) :=
      (h.take n).lift Prod.fst wireStep_loopStep
    refine (Yields.run (I := fun s => s.1.Sound False crc specs ∧ Whole crc s) ?_ ⟨hsound,hwhole⟩
      hall).mono (fun s hs => hs.2)
    intro (d,wire) i ⟨hs,hw⟩ hr
    exact wireStep_whole hs hw i hr

section Tear

/-- The sizes of the frames that a read is split into. -/
def chunkSizes : Nat → Nat → List Nat
  | fuel,n =>
    if n=0 then []
    else
      match fuel with
      | 0 => []
      | fuel+1 => (2+min n (maxPayload-2))::chunkSizes fuel (n-min n (maxPayload-2))

theorem sizes_tdataFrames (id : UInt8) (cid : Slot) (fuel : Nat) (rest : List UInt8) :
    sizes (tdataFrames id cid fuel rest)=chunkSizes fuel rest.length := by
  have hcid : ((cidBytes cid).getD []).length=2 := by
    obtain ⟨bs,hbs,hlen⟩ := cidBytes_yields cid
    rw [hbs,Option.getD_some,hlen]
  induction fuel generalizing rest with
  | zero =>
    rw [tdataFrames,chunkSizes]
    split_ifs <;> rfl
  | succ fuel ih =>
    rw [tdataFrames,chunkSizes]
    split_ifs
    · rfl
    · rw [sizes,List.map_cons,← sizes,ih,List.length_append,hcid,List.length_drop,List.length_take,
        Nat.min_eq_left (Nat.min_le_left _ _)]

theorem roomFor_of_sum {used : Nat} {lens : List Nat}
    (h : used+(lens.map (10+·)).sum≤linkTxbufSize-1) : RoomFor used lens := by
  induction lens generalizing used with
  | nil => exact trivial
  | cons len lens ih =>
    simp only [List.map_cons,List.sum_cons] at h
    have hfits : Fits used len := by
      unfold Fits
      omega
    refine ⟨.inl hfits,?_⟩
    rw [if_pos hfits]
    exact ih (by omega)

/-- Frames that all fit take their place. -/
theorem pushFrames_used (crc : List UInt8 → UInt32) {t : TxQueue} {fs : List Frame}
    (h : t.used+((sizes fs).map (10+·)).sum≤linkTxbufSize-1) :
    (pushFrames crc t fs).used=t.used+((sizes fs).map (10+·)).sum := by
  induction fs generalizing t with
  | nil => exact (Nat.add_zero _).symm
  | cons f fs ih =>
    simp only [sizes,List.map_cons,List.sum_cons] at h ih ⊢
    have hfits : Fits t.used f.payload.length := by
      unfold Fits
      omega
    have hused := pushFrame_used_of_room crc (.inl hfits)
    rw [if_pos hfits] at hused
    rw [pushFrames_cons,ih (by rw [hused]; omega),hused]
    omega

variable {crc : List UInt8 → UInt32} {d : Daemon} {s : TcpSrc}

/-- Bytes of the first client of channel 1. -/
def clientEvent (bs : List UInt8) (h : bs.length≤65536) : LoopStep :=
  .event (.tcpConn 1 0) true false {Io.idle with recv := .data bs h}
    ⟨0,.wouldBlock,fun _ => .idle,.again⟩

theorem eventCalls_client (hget : d.channels 1=some (.src s)) (hfd : (s.conns 0).fd≠none)
    (hpend : (s.conns 0).closePending=false) {bs : List UInt8} (hne : bs≠[]) (h : bs.length≤65536) :
    d.eventCalls (.tcpConn 1 0) true false {Io.idle with recv := .data bs h}=
      tdataFrames 1 0 bs.length bs := by
  obtain ⟨b,bs,rfl⟩ := List.exists_cons_of_ne_nil hne
  change (d.channels 1).elim [] (fun ch => chEventFrames 1 ch 5 65536 true false
    {Io.idle with recv := .data (b::bs) h})=_
  rw [hget]
  change srcEventFrames 1 0 s true false {Io.idle with recv := .data (b::bs) h}=_
  rw [srcEventFrames,if_neg hfd,if_pos ⟨rfl,hpend⟩]
  exact List.append_nil _

theorem clientEvent_hands (hget : d.channels 1=some (.src s)) (hfd : (s.conns 0).fd≠none)
    (hpend : (s.conns 0).closePending=false) {bs : List UInt8} (hne : bs≠[]) (h : bs.length≤65536) :
    Allows (Hands crc 1 (tdataFrames 1 0 bs.length bs) (·.settled=(ChannelT.src s).settled) d)
      (loopStep crc d (clientEvent bs h)) := by
  obtain ⟨b,bs,rfl⟩ := List.exists_cons_of_ne_nil hne
  have hevent : loopStep crc d (clientEvent (b::bs) h)=
      srcOnConnEvent crc d 1 0 true false {Io.idle with recv := .data (b::bs) h} := by
    change chHandleEvent crc d 1 5 65536 true false {Io.idle with recv := .data (b::bs) h}=_
    unfold chHandleEvent
    rw [hget]
    rfl
  rw [hevent]
  refine .next (Daemon.conn_of_get hget) ?_
  rw [if_neg hfd,if_pos ⟨rfl,hpend⟩]
  exact Hands.close (sendTdata_hands hget rfl 0 _ _) (fun d₁ ch hget₁ hch => .some (.rest hget₁ hch))

/-- A client from which `n` bytes are read. -/
def clientSends (n : Fin 65537) : LoopStep :=
  clientEvent (List.replicate n.val 0) (List.length_replicate.trans_le (Nat.le_of_lt_succ n.isLt))

/-- The place that a read takes in the ring. -/
def cost (n : Fin 65537) : Nat := ((chunkSizes n.val n.val).map (10+·)).sum

/-- The client can be read, and `used` bytes wait in the ring, whole frames with nothing written
before them. -/
structure Ready (crc : List UInt8 → UInt32) (specs : UInt8 → Option Spec) (used : Nat) (d : Daemon) :
    Prop where
  sound : d.Sound False crc specs
  up : d.disconnected=false
  whole : Whole crc (d,[])
  waits : d.txq.used=used
  client : ∃s,d.channels 1=some (.src s) ∧ (s.conns 0).fd≠none ∧ (s.conns 0).closePending=false

namespace Ready

variable {specs : UInt8 → Option Spec} {used : Nat}

theorem ne_nil {n : Fin 65537} (h0 : 0<n.val) : List.replicate n.val (0 : UInt8)≠[] :=
  List.ne_nil_of_length_pos (List.length_replicate ▸ h0)

theorem sizes_eq (n : Nat) :
    sizes (tdataFrames 1 0 (List.replicate n (0 : UInt8)).length (List.replicate n 0))=
      chunkSizes n n := by rw [sizes_tdataFrames,List.length_replicate]

/-- A read that fits. -/
theorem sends (h : Ready crc specs used d) {n : Fin 65537} (h0 : 0<n.val)
    (hfits : used+cost n≤linkTxbufSize-1) :
    Yields (Ready crc specs (used+cost n)) (loopStep crc d (clientSends n)) := by
  obtain ⟨s,hget,hfd,hpend⟩ := h.client
  refine ((h.sound.loopStep _ (by simp)).and_allows
    (clientEvent_hands hget hfd hpend (ne_nil h0) _)).mono ?_
  rintro d' ⟨hsound,hhands⟩
  obtain ⟨t,ht⟩ := h.sound.ring
  have hwaits : t.used=used := ht.used_eq.symm.trans h.waits
  have hpushed := hhands.pushed
  rw [Daemon.offered,h.up,if_neg (by decide)] at hpushed
  refine ⟨hsound,(Daemon.disconnected_of_link hhands.link).trans h.up,?_,?_,?_⟩
  · refine h.whole.push (Daemon.session_of_link hhands.link) ⟨t,ht⟩ hpushed ?_
    rw [sizes_eq,h.waits]
    exact roomFor_of_sum hfits
  · rw [(hpushed.ring t ht).used_eq,
      pushFrames_used crc (by rw [sizes_eq,hwaits]; exact hfits),sizes_eq,hwaits,cost]
  · obtain ⟨ch,hget',hch⟩ := hhands.own
    cases ch with
    | mcu m => cases hch
    | pty p => cases hch
    | src s' =>
      have hconn : (s'.conns 0).settled=(s.conns 0).settled :=
        congrFun (congrArg TcpSrc.conns (ChannelT.src.inj hch)) 0
      have hfd' : (s'.conns 0).fd=(s.conns 0).fd := (congrArg TcpConn.fd hconn :)
      have hpend' : (s'.conns 0).closePending=(s.conns 0).closePending :=
        (congrArg TcpConn.closePending hconn :)
      exact ⟨s',hget',hfd' ▸ hfd,hpend'.trans hpend⟩
    | dst t => cases hch

theorem run (h : Ready crc specs used d) (ns : List (Fin 65537)) (h0 : ∀n∈ns,0<n.val)
    (hfits : used+(ns.map cost).sum≤linkTxbufSize-1) :
    Yields (Ready crc specs (used+(ns.map cost).sum))
      ((ns.map clientSends).foldlM (loopStep crc) d) := by
  induction ns generalizing used d with
  | nil => exact .some h
  | cons n ns ih =>
    rw [List.map_cons,List.sum_cons] at hfits ⊢
    rw [List.map_cons,List.foldlM_cons,← Nat.add_assoc]
    refine (h.sends (h0 n List.mem_cons_self) (by omega)).bind (fun d₁ h₁ => ?_)
    exact ih h₁ (fun m hm => h0 m (List.mem_cons_of_mem n hm)) (by omega)

/-- A read of whose frames the first finds room, and of the second only the header. -/
theorem torn (h : Ready crc specs used d) {n : Fin 65537} (h0 : 0<n.val) {a b : Nat} {lens : List Nat}
    (hsizes : chunkSizes n.val n.val=a::b::lens) (hfits : Fits used a)
    (hhead : used+(10+a)+6≤linkTxbufSize-1) (htorn : linkTxbufSize-1<used+(10+a)+(10+b)) :
    Yields (fun d' => ¬Whole crc (d',[])) (loopStep crc d (clientSends n)) := by
  obtain ⟨s,hget,hfd,hpend⟩ := h.client
  refine ((h.sound.loopStep _ (by simp)).and_allows
    (clientEvent_hands hget hfd hpend (ne_nil h0) _)).mono ?_
  rintro d' ⟨-,hhands⟩
  obtain ⟨t,ht⟩ := h.sound.ring
  have hwaits : t.used=used := ht.used_eq.symm.trans h.waits
  obtain ⟨hsized,hring⟩ := hhands.pushed
  rw [Daemon.offered,h.up,if_neg (by decide)] at hsized hring
  have hlens := sizes_eq n.val
  rw [hsizes] at hlens
  generalize tdataFrames 1 0 (List.replicate n.val (0 : UInt8)).length (List.replicate n.val 0)=fs at *
  obtain ⟨f₁,fs,rfl,rfl,hfs⟩ := List.map_eq_cons_iff.mp hlens
  obtain ⟨f₂,fs,rfl,rfl,-⟩ := List.map_eq_cons_iff.mp hfs
  rw [← hwaits] at hfits hhead htorn
  have hused := pushFrame_used_of_room crc (.inl hfits)
  rw [if_pos hfits] at hused
  have hone : WholeFrames crc ([]++(pushFrame crc t f₁).contents) := by
    rw [hfits.contents crc,← ht.contents,← List.append_assoc]
    refine (h.whole h.up).append ⟨[f₁],?_,(List.append_nil _).symm⟩
    exact fun f hf => hsized f (List.mem_singleton.mp hf ▸ List.mem_cons_self)
  have hbroken := pushFrames_torn hone (hsized f₂ (List.mem_cons_of_mem f₁ List.mem_cons_self))
    (by rw [hused]; exact hhead) (by rw [hused]; exact htorn) fs
  rw [← pushFrames_cons,← (hring t ht).contents] at hbroken
  exact fun hwhole => hbroken (hwhole ((Daemon.disconnected_of_link hhands.link).trans h.up))

/-- A read that does not find room. -/
theorem tears (h : Ready crc specs used d) {n : Fin 65537} (h0 : 0<n.val)
    (hroom : ¬RoomFor used (chunkSizes n.val n.val)) : ¬d.AtomicStep crc (clientSends n) := by
  obtain ⟨s,hget,hfd,hpend⟩ := h.client
  intro hatomic
  have hall : RoomFor d.txq.used (sizes (d.offered (d.eventCalls (.tcpConn 1 0) true false _))) :=
    hatomic.roomy
  rw [Daemon.offered,h.up,if_neg (by decide),eventCalls_client hget hfd hpend (ne_nil h0),sizes_eq,
    h.waits] at hall
  exact hroom hall

end Ready

/-- One TCP server, as channel 1. -/
def oneServer (id : UInt8) : Option Spec := if id=1 then some .tcpSrc else none

theorem ack_fits : (buildFrame crc32 fAck 0 []).length≤65536 := by decide +kernel

/-- The link comes up and a client connects. -/
def clientSteps : List LoopStep :=
  [.event .link true false .idle
      ⟨2,.data (buildFrame crc32 fAck 0 []) ack_fits,fun _ => .idle,.again⟩,
    .event (.server 1) true false {Io.idle with accept := some 5, malloc := true}
      ⟨0,.wouldBlock,fun _ => .idle,.again⟩]

/-- A connection of channel 1 that can be read. -/
def ChannelT.readable : ChannelT → Bool
  | src s => (s.conns 0).fd.isSome && !(s.conns 0).closePending
  | _ => false

theorem ChannelT.src_of_readable {ch : ChannelT} (h : ch.readable=true) :
    ∃s,ch=src s ∧ (s.conns 0).fd≠none ∧ (s.conns 0).closePending=false := by
  cases ch with
  | mcu m => exact nomatch h
  | pty p => exact nomatch h
  | src s =>
    simp only [readable,Bool.and_eq_true,Bool.not_eq_true',Option.isSome_iff_ne_none] at h
    exact ⟨s,rfl,h⟩
  | dst t => exact nomatch h

theorem clientSteps_ready : ∃d₀ d,
    openLink crc32 (daemonInit oneServer (fun _ => .idle)) 1 (some 3)=some d₀ ∧
    clientSteps.foldlM (loopStep crc32) d₀=some d ∧ Ready crc32 oneServer 22 d := by
  have heval : (daemonRun crc32 oneServer (fun _ => .idle) 1 (some 3) clientSteps).any
      (fun d => d.txq.head==0 &&
        d.txq.buf.take 22==framesBytes crc32 [⟨fHello,0,[]⟩,⟨fTconn,1,[0,0]⟩] &&
        d.txq.used==22 && !d.disconnected && (d.channels 1).any ChannelT.readable)=true := by
    decide +kernel
  obtain ⟨d,hd,hstate⟩ := (Option.any_eq_true _ _).mp heval
  have hsound : d.Sound False crc32 oneServer :=
    (Daemon.Sound.run crc32 oneServer (fun _ => .idle) 1 (some 3) clientSteps nofun).get hd
  unfold daemonRun at hd
  obtain ⟨d₀,hd₀,hd⟩ := Option.bind_eq_some_iff.mp hd
  simp only [Bool.and_eq_true,beq_iff_eq,Bool.not_eq_true'] at hstate
  obtain ⟨⟨⟨⟨hhead,hbuf⟩,hused⟩,hdis⟩,hch⟩ := hstate
  obtain ⟨ch,hget,hch⟩ := (Option.any_eq_true _ _).mp hch
  obtain ⟨s,rfl,hclient⟩ := ChannelT.src_of_readable hch
  have hcontents : d.txq.contents=framesBytes crc32 [⟨fHello,0,[]⟩,⟨fTconn,1,[0,0]⟩] := by
    rw [LinkTxq.contents,hhead,window,List.rotate_zero,hused,hbuf]
  exact ⟨d₀,d,hd₀,hd,hsound,hdis,fun _ => ⟨_,by decide,(List.nil_append _).trans hcontents⟩,
    hused,s,hget,hclient⟩

def eightReads : List (Fin 65537) := [65536,65536,65536,65536,65536,65536,65536,50000]

/-- Nine reads of a client while the link takes nothing. After the eighth the queue is still below
the high-water mark, and the second frame of the ninth finds space for its header and its CRC
only. What the run leaves in the ring is torn. -/
theorem read_tears_frame : ∃d₀,
    openLink crc32 (daemonInit oneServer (fun _ => .idle)) 1 (some 3)=some d₀ ∧
    ¬Throughout (loopStep crc32) (Daemon.AtomicStep crc32) d₀
      (clientSteps++(eightReads.map clientSends++[clientSends 65536])) ∧
    Yields (fun s => ¬Whole crc32 s)
      ((clientSteps++(eightReads.map clientSends++[clientSends 65536])).foldlM (wireStep crc32)
        (d₀,[])) := by
  obtain ⟨d₀,d,hd₀,hd,hready⟩ := clientSteps_ready
  have hcost : (eightReads.map cost).sum=509220 := by decide +kernel
  have hpos : eightReads.all (fun n => 0<n.val)=true := by decide +kernel
  obtain ⟨d₁,hd₁,hready₁⟩ := hready.run eightReads
    (fun n hn => of_decide_eq_true (List.all_eq_true.mp hpos n hn)) (by rw [hcost]; decide)
  rw [hcost] at hready₁
  have hlast : chunkSizes (65536 : Fin 65537).val (65536 : Fin 65537).val=
      [16384,16384,16384,16384,10] := by decide +kernel
  have hquiet : (clientSteps++(eightReads.map clientSends++[clientSends 65536])).all
      LoopStep.quiet=true := rfl
  refine ⟨d₀,hd₀,fun hall => ?_,?_⟩
  · exact hready₁.tears (by decide +kernel) (by rw [hlast]; decide) ((hall.rest hd).rest hd₁).1
  · obtain ⟨d₂,hd₂,htorn⟩ := hready₁.torn (by decide +kernel) hlast (by decide) (by decide) (by decide)
    rw [wireRun_quiet (List.all_eq_true.mp hquiet),List.foldlM_append,hd]
    change Yields _ (Option.map _ ((eightReads.map clientSends++[clientSends 65536]).foldlM
      (loopStep crc32) d))
    rw [List.foldlM_append,hd₁]
    change Yields _ (Option.map _ ([clientSends 65536].foldlM (loopStep crc32) d₁))
    rw [List.foldlM_cons,hd₂]
    exact .some htorn

end Tear

end Serialmux.Reference

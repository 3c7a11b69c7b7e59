import Serialmux.Framework.Checked
import Serialmux.Protocol.Parser

namespace Serialmux.Reference

open Framework Protocol

section Parser

-- crc32_buf, of which only its being a function of the bytes is used.
variable (crc : List UInt8 → UInt32)

/-- The search for the magic, from index i on. -/
def fpSearch (buf : List UInt8) : Nat → Nat → Nat
  | 0,i => i
  | fuel+1,i =>
    if i+1<buf.length ∧ ¬(buf[i]?=some 0xAA ∧ buf[i+1]?=some 0x55) then fpSearch buf fuel (i+1)
    else i

/-- What one pass of the parse loop comes to: it leaves the loop, starts over, or has a frame of
`total` bytes at the front of the buffer. -/
inductive FpPass where
  | stop (buf : List UInt8)
  | again (buf : List UInt8)
  | frame (f : Frame) (total : Nat) (buf : List UInt8)

/-- The loop body once a magic is at the front of the buffer. -/
def fpHeader (buf : List UInt8) : Option FpPass :=
  if buf.length<hdrSize then some (.stop buf)
  else do
    let ftype ← buf[2]?
    let channel ← buf[3]?
    let l0 ← buf[4]?
    let l1 ← buf[5]?
    let length := (u16OfLe l0 l1).toNat
    -- Bad length: skip the magic and rescan.
    if maxPayload<length then return .again (← slide buf 2)
    else if buf.length<hdrSize+length+crcSize then return .stop buf
    else
      let payload ← slice buf hdrSize length
      let crcRx ← slice buf (hdrSize+length) crcSize
      if crc payload≠u32OfLe crcRx then return .again (← slide buf 2)
      else return .frame ⟨ftype,channel,payload⟩ (hdrSize+length+crcSize) buf

def fpPass (buf : List UInt8) : Option FpPass :=
  let i := fpSearch buf buf.length 0
  if buf.length ≤ i+1 then do
    -- No complete magic found; keep the last byte in case it is 0xAA.
    let last ← buf[← sub? buf.length 1]?
    return .stop [last]
  else do fpHeader crc (← slide buf i)

variable {σ : Type} (onFrame : σ → Frame → Option σ)

/-- The parse loop. The callback runs before its frame leaves the buffer. -/
def fpDrain : Nat → List UInt8 → σ → Option (List UInt8 × σ)
  | 0,_,_ => none
  | fuel+1,buf,s =>
    if buf.length<2 then some (buf,s)
    else do
      match ← fpPass crc buf with
      | .stop buf => return (buf,s)
      | .again buf => fpDrain fuel buf s
      | .frame f total buf =>
        let s ← onFrame s f
        fpDrain fuel (← slide buf total) s

/-- `fp_feed` on the valid bytes of the buffer. Nothing in it stops a pass that finds the buffer
full, so it is the fuel that bounds the passes. -/
def fpFeed (fuel : Nat) (buf data : List UInt8) (s : σ) : Option (List UInt8 × σ) :=
  if data.length=0 then some (buf,s)
  else
    match fuel with
    | 0 => none
    | fuel+1 => do
      -- Fill: copy as much input as fits, then parse all complete frames.
      let space ← sub? parserBufCap buf.length
      let copy := min data.length space
      let buf ← copyTo parserBufCap buf data copy
      let (buf,s) ← fpDrain crc onFrame (buf.length+1) buf s
      fpFeed fuel buf (data.drop copy) s

/-- Chunks fed one after the other. -/
def fpFeedAll (fuel : Nat) (buf : List UInt8) (chunks : List (List UInt8)) (s : σ) :
    Option (List UInt8 × σ) :=
  chunks.foldlM (fun r c => fpFeed crc onFrame fuel r.1 c r.2) (buf,s)

theorem fpSearch_eq (buf : List UInt8) (fuel i : Nat) (h : buf.length ≤ i+fuel) :
    fpSearch buf fuel i=i+findMagic (buf.drop i) := by
  induction fuel generalizing i with
  | zero =>
    rw [List.drop_eq_nil_of_le (by omega)]
    rfl
  | succ fuel ih =>
    rw [fpSearch]
    rcases Nat.lt_or_ge (i+1) buf.length with hi|hi
    · have hdrop : buf.drop i=buf[i]::buf[i+1]::buf.drop (i+2) := by
        rw [List.drop_eq_getElem_cons (by omega),List.drop_eq_getElem_cons hi]
      rw [hdrop,findMagic,List.getElem?_eq_getElem hi,List.getElem?_eq_getElem (by omega : i<buf.length)]
      simp only [Option.some.injEq]
      by_cases hm : buf[i]=0xAA ∧ buf[i+1]=0x55
      · rw [if_neg (fun hn => hn.2 hm),if_pos hm,Nat.add_zero]
      · rw [if_pos ⟨hi,hm⟩,if_neg hm,ih (i+1) (by omega),List.drop_eq_getElem_cons hi,Nat.add_assoc,
          Nat.add_comm 1]
    · rw [if_neg (by omega)]
      have hshort : (buf.drop i).length≤1 := by
        rw [List.length_drop]
        omega
      rcases hb : buf.drop i with _|⟨b,_|⟨b',rest⟩⟩
      · rfl
      · rfl
      · simp [hb] at hshort

theorem u16OfLe_toNat (l0 l1 : UInt8) : (u16OfLe l0 l1).toNat=lengthField l0 l1 := by
  have h0 := l0.toNat_lt
  have h1 := l1.toNat_lt
  rw [lengthField_eq,u16OfLe,UInt16.toNat_ofNat']
  omega

/-- The loop body on a complete header. -/
theorem fpHeader_full (m0 m1 ftype channel l0 l1 : UInt8) (body : List UInt8) :
    fpHeader crc (m0::m1::ftype::channel::l0::l1::body)=
      if maxPayload<lengthField l0 l1 then some (.again (ftype::channel::l0::l1::body))
      else if body.length<lengthField l0 l1+crcSize then
        some (.stop (m0::m1::ftype::channel::l0::l1::body))
      else if crc (body.take (lengthField l0 l1))≠
          u32OfLe ((body.drop (lengthField l0 l1)).take crcSize) then
        some (.again (ftype::channel::l0::l1::body))
      else some (.frame ⟨ftype,channel,body.take (lengthField l0 l1)⟩
        (hdrSize+lengthField l0 l1+crcSize) (m0::m1::ftype::channel::l0::l1::body)) := by
  have hlen : (m0::m1::ftype::channel::l0::l1::body).length=body.length+6 := rfl
  have hslide : slide (m0::m1::ftype::channel::l0::l1::body) 2=some (ftype::channel::l0::l1::body) :=
    slide_eq (by simp)
  rw [fpHeader,if_neg (by simp [hdrSize])]
  simp only [List.getElem?_cons_succ,List.getElem?_cons_zero,Option.bind_eq_bind,Option.bind_some,
    u16OfLe_toNat,hslide,incomplete_iff]
  by_cases h1 : maxPayload<lengthField l0 l1
  · rw [if_pos h1,if_pos h1]
    rfl
  rw [if_neg h1,if_neg h1]
  by_cases h2 : body.length<lengthField l0 l1+crcSize
  · rw [if_pos h2,if_pos h2]
    rfl
  have hpayload : slice (m0::m1::ftype::channel::l0::l1::body) hdrSize (lengthField l0 l1)=
      some (body.take (lengthField l0 l1)) := slice_eq (by rw [hlen,hdrSize]; omega)
  have hcrc : slice (m0::m1::ftype::channel::l0::l1::body) (hdrSize+lengthField l0 l1) crcSize=
      some ((body.drop (lengthField l0 l1)).take crcSize) := by
    rw [slice_eq (by rw [hlen,hdrSize]; omega),Nat.add_comm hdrSize]
    rfl
  rw [if_neg h2,if_neg h2,hpayload,hcrc]
  simp only [Option.bind_some]
  split_ifs <;> rfl

theorem fpPass_none {buf : List UInt8} (h2 : 2≤buf.length) (h : buf.length≤findMagic buf+1) :
    fpPass crc buf=some (.stop (buf.drop (buf.length-1))) := by
  have hlast : buf.drop (buf.length-1)=[buf.get ⟨buf.length-1,by omega⟩] := by
    rw [List.drop_eq_getElem_cons (by omega),List.drop_eq_nil_of_le (by omega)]
    rfl
  rw [fpPass,fpSearch_eq buf _ 0 (by omega),List.drop_zero,Nat.zero_add,if_pos h,
    sub?_eq (by omega),hlast]
  simp [List.getElem?_eq_getElem (show buf.length-1<buf.length by omega)]

theorem fpPass_some {buf : List UInt8} (h : ¬buf.length≤findMagic buf+1) :
    fpPass crc buf=fpHeader crc (buf.drop (findMagic buf)) := by
  rw [fpPass,fpSearch_eq buf _ 0 (by omega),List.drop_zero,Nat.zero_add,if_neg h,
    slide_eq (by omega)]
  rfl

/-- The parse loop comes to an end, and does what the other one does: the callback gets the same
frames and the same bytes stay. -/
theorem fpDrain_eq (buf : List UInt8) {fuel : Nat} (hfuel : buf.length<fuel) (s : σ) :
    fpDrain crc onFrame fuel buf s=
      ((drainFrames crc buf).1.foldlM onFrame s).map (fun s => ((drainFrames crc buf).2,s)) := by
  obtain ⟨k,rfl⟩ := Nat.exists_eq_add_of_lt (Nat.zero_lt_of_lt hfuel)
  rw [Nat.zero_add] at hfuel ⊢
  induction buf using drainFrames.induct crc generalizing k s with
  | case1 buf h =>
    rw [fpDrain,if_pos h,drainFrames,if_pos h]
    rfl
  | case2 buf h h1 =>
    rw [fpDrain,if_neg h,fpPass_none crc (by omega) h1,drainFrames,if_neg h,if_pos h1]
    rfl
  | case3 buf h h1 m0 m1 ftype channel l0 l1 body hb hl ih =>
    have hlen := congrArg List.length hb
    simp only [List.length_drop,List.length_cons] at hlen
    rw [fpDrain,if_neg h,fpPass_some crc h1,hb,fpHeader_full,if_pos hl,
      drainFrames_header crc h h1 hb,if_pos hl]
    obtain ⟨k',rfl⟩ : ∃k',k=k'+1 := ⟨k-1,by omega⟩
    exact ih s k' (by simp only [List.length_cons]; omega)
  | case4 buf h h1 m0 m1 ftype channel l0 l1 body hb hl ht =>
    rw [hb,incomplete_iff] at ht
    rw [fpDrain,if_neg h,fpPass_some crc h1,hb,fpHeader_full,if_neg hl,if_pos ht,
      drainFrames_header crc h h1 hb,if_neg hl,if_pos ht]
    rfl
  | case5 buf h h1 m0 m1 ftype channel l0 l1 body hb hl ht hc ih =>
    have hlen := congrArg List.length hb
    simp only [List.length_drop,List.length_cons] at hlen
    rw [hb,incomplete_iff] at ht
    rw [fpDrain,if_neg h,fpPass_some crc h1,hb,fpHeader_full,if_neg hl,if_neg ht,if_pos hc,
      drainFrames_header crc h h1 hb,if_neg hl,if_neg ht,if_pos hc]
    obtain ⟨k',rfl⟩ : ∃k',k=k'+1 := ⟨k-1,by omega⟩
    exact ih s k' (by simp only [List.length_cons]; omega)
  | case6 buf h h1 m0 m1 ftype channel l0 l1 body hb hl ht hc ih =>
    have hlen := congrArg List.length hb
    simp only [List.length_drop,List.length_cons] at hlen
    rw [hb,incomplete_iff] at ht
    have hslide : slide (m0::m1::ftype::channel::l0::l1::body) (hdrSize+lengthField l0 l1+crcSize)=
        some (body.drop (lengthField l0 l1+crcSize)) := by
      rw [slide_eq (by simp only [List.length_cons,hdrSize]; omega),drop_frame]
    rw [fpDrain,if_neg h,fpPass_some crc h1,hb,fpHeader_full,if_neg hl,if_neg ht,if_neg hc,
      drainFrames_header crc h h1 hb,if_neg hl,if_neg ht,if_neg hc]
    simp only [Option.bind_eq_bind,Option.bind_some,hslide,List.foldlM_cons]
    cases onFrame s ⟨ftype,channel,body.take (lengthField l0 l1)⟩ with
    | none => rfl
    | some s' =>
      obtain ⟨k',rfl⟩ : ∃k',k=k'+1 := ⟨k-1,by omega⟩
      exact ih s' k' (by simp only [List.length_drop]; omega)
  | case7 buf h h1 hn =>
    have hshort : (buf.drop (findMagic buf)).length<hdrSize := by
      rcases hb : buf.drop (findMagic buf) with
        _|⟨m0,_|⟨m1,_|⟨ftype,_|⟨channel,_|⟨l0,_|⟨l1,body⟩⟩⟩⟩⟩⟩
      case cons.cons.cons.cons.cons.cons => exact absurd hb (hn m0 m1 ftype channel l0 l1 body)
      all_goals simp [hdrSize]
    rw [fpDrain,if_neg h,fpPass_some crc h1,fpHeader,if_pos hshort,drainFrames,if_neg h,if_neg h1]
    split
    · rename_i m0 m1 ftype channel l0 l1 body he
      exact absurd he (hn m0 m1 ftype channel l0 l1 body)
    · rfl

/-- A call for which the kept bytes leave room comes to an end within one pass for each byte, and
does what `feed` does. -/
theorem fpFeed_eq (p : FrameParser) (hp : p.Waiting crc) (data : List UInt8) {fuel : Nat}
    (hfuel : data.length≤fuel) (s : σ) :
    fpFeed crc onFrame fuel p.buf data s=
      ((p.feed crc data).frames.foldlM onFrame s).map (fun s => ((p.feed crc data).parser.buf,s)) := by
  induction p,data using FrameParser.feed.induct crc generalizing fuel s with
  | case1 p data h =>
    rw [FrameParser.feed,if_pos h,fpFeed.eq_def,if_pos h]
    rfl
  | case2 p data h hs =>
    -- The buffer is never full: what the parser keeps is shorter than one frame.
    have hl := frameMove_wait_length crc hp
    simp only [parserBufCap] at hs
    omega
  | case3 p data h hs d hd ih =>
    obtain ⟨fuel,rfl⟩ : ∃k,fuel=k+1 := ⟨fuel-1,by omega⟩
    have hfits := p.lenLe
    have hdrain := fpDrain_eq crc onFrame
      (p.buf++data.take (min data.length (parserBufCap-p.buf.length))) (Nat.lt_succ_self _) s
    have hrest : (data.drop (min data.length (parserBufCap-p.buf.length))).length≤fuel := by
      rw [List.length_drop]
      omega
    have hnext := ih (drainFrames_waits crc _) hrest
    rw [FrameParser.feed,if_neg h,if_neg hs,fpFeed,if_neg h,sub?_eq hfits]
    simp only [Option.bind_eq_bind,Option.bind_some]
    rw [copyTo_eq (Nat.min_le_left _ _) (by omega)]
    simp only [Option.bind_some,hdrain,List.foldlM_append]
    cases d.1.foldlM onFrame s with
    | none => rfl
    | some s' => exact hnext s'

theorem fpFeedAll_eq (p : FrameParser) (hp : p.Waiting crc) (chunks : List (List UInt8)) {fuel : Nat}
    (hfuel : chunks.flatten.length≤fuel) (s : σ) :
    fpFeedAll crc onFrame fuel p.buf chunks s=
      ((p.feedAll crc chunks).frames.foldlM onFrame s).map
        (fun s => ((p.feedAll crc chunks).parser.buf,s)) := by
  induction chunks generalizing p s with
  | nil => rfl
  | cons c cs ih =>
    rw [List.flatten_cons,List.length_append] at hfuel
    have hhead := fpFeed_eq crc onFrame p hp c (show c.length≤fuel by omega) s
    have htail := ih (p.feed crc c).parser (FrameParser.feed_waiting crc p hp c) (by omega)
    simp only [fpFeedAll] at htail
    rw [fpFeedAll,List.foldlM_cons,hhead]
    simp only [FrameParser.feedAll,List.foldlM_append]
    cases (p.feed crc c).frames.foldlM onFrame s with
    | none => rfl
    | some s' => exact htail s'

/-- The two parsers agree: on any chunks `fp_feed` comes to an end, with a pass to spare for every
byte, hands its callback the frames that `feed` hands its own, and keeps the same bytes. -/
theorem fp_feed_agrees (onFrame : σ → Frame → σ) (chunks : List (List UInt8)) (more : Nat) (s : σ) :
    fpFeedAll crc (fun s f => some (onFrame s f)) (chunks.flatten.length+more) [] chunks s=
      some ((FrameParser.new.feedAll crc chunks).parser.buf,
        (FrameParser.new.feedAll crc chunks).frames.foldl onFrame s) := by
  have hfold := List.foldlM_pure (m := Option) (f := onFrame) (b := s)
    (l := (FrameParser.new.feedAll crc chunks).frames)
  have hagree := fpFeedAll_eq crc (fun s f => some (onFrame s f)) .new (FrameParser.new_waiting crc)
    chunks (Nat.le_add_right _ more) s
  rw [show (fun s f => some (onFrame s f))=fun s f => pure (onFrame s f) from rfl,hfold] at hagree
  exact hagree

/-- The frames that `fp_feed` hands its callback. -/
def fpFrames (buf data : List UInt8) : List Frame :=
  ((fpFeed crc (fun fs f => some (fs++[f])) data.length buf data []).map Prod.snd).getD []

theorem fpFrames_eq (p : FrameParser) (hp : p.Waiting crc) (data : List UInt8) :
    fpFrames crc p.buf data=(p.feed crc data).frames := by
  have hfold : (p.feed crc data).frames.foldlM (fun fs f => some (fs++[f])) []=
      some (p.feed crc data).frames := by
    refine (List.foldlM_pure (m := Option) (f := fun fs f => fs++[f])).trans ?_
    rw [List.foldl_append_eq_append,← List.flatMap_def,List.flatMap_singleton']
    rfl
  rw [fpFrames,fpFeed_eq crc _ p hp data le_rfl,hfold]
  rfl

/-- The rule for a read: what the handling of a frame keeps, where it meets `G`, the feed keeps. -/
theorem fpFeed_yields {I : σ → Prop} {G : σ → Frame → Prop} {buf data : List UInt8} {s : σ}
    (hbuf : frameMove crc buf=none) (hstep : ∀s f,I s → G s f → Yields I (onFrame s f)) (hs : I s)
    (hG : Throughout onFrame G s (fpFrames crc buf data)) :
    Yields (fun r => frameMove crc r.1=none ∧ I r.2) (fpFeed crc onFrame data.length buf data s) := by
  have hshort := frameMove_wait_length crc hbuf
  have hfits : buf.length≤parserBufCap := by
    simp only [parserBufCap]
    omega
  have hp : (⟨buf,hfits⟩ : FrameParser).Waiting crc := hbuf
  have hrun := Yields.run hstep hs hG
  rw [fpFrames_eq crc ⟨buf,hfits⟩ hp] at hrun
  rw [fpFeed_eq crc onFrame ⟨buf,hfits⟩ hp data le_rfl]
  exact hrun.map (fun s' hs' => ⟨FrameParser.feed_waiting crc _ hp data,hs'⟩)

end Parser

end Serialmux.Reference

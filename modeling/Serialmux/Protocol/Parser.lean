import Serialmux.Framework.Decoder
import Serialmux.Protocol.Frame

namespace Serialmux.Protocol

open Framework

section Parser

variable (crc : List UInt8 → UInt32)

/-- Index at which the magic search stops: the first 0xAA 0x55, or else the last byte. -/
def findMagic : List UInt8 → Nat
  | a::b::rest => if a=0xAA ∧ b=0x55 then 0 else findMagic (b::rest)+1
  | _ => 0

/-- `drain_frames` on the valid bytes of the buffer: the frames passed to the callback, in order,
and the bytes that stay. -/
def drainFrames (buf : List UInt8) : List Frame × List UInt8 :=
  if buf.length<2 then ([],buf)
  -- No complete magic found: keep the last byte, it may be the first of the next magic.
  else if buf.length≤findMagic buf+1 then ([],buf.drop (buf.length-1))
  else
    match _h : buf.drop (findMagic buf) with
    | _::_::ftype::channel::l0::l1::body =>
      -- Bad length field: skip the magic pair and rescan.
      if maxPayload<lengthField l0 l1 then drainFrames (ftype::channel::l0::l1::body)
      else if (buf.drop (findMagic buf)).length<hdrSize+lengthField l0 l1+crcSize then
        ([],buf.drop (findMagic buf))
      else if crc (body.take (lengthField l0 l1))≠
          u32OfLe ((body.drop (lengthField l0 l1)).take crcSize) then
        drainFrames (ftype::channel::l0::l1::body)
      else
        let r := drainFrames (body.drop (lengthField l0 l1+crcSize))
        (⟨ftype,channel,body.take (lengthField l0 l1)⟩::r.1,r.2)
    | slid => ([],slid)
termination_by buf.length
decreasing_by
  all_goals
    have h := congrArg List.length _h
    simp only [List.length_drop,List.length_cons] at h ⊢
    omega

/-- The decision on the bytes at the front of a stream: step over a byte that does not start a
magic, wait for the rest of a frame, skip a magic whose frame is bad, or emit the frame. -/
def frameMove : List UInt8 → Option (Move Unit Frame)
  | a::b::rest =>
    if a=0xAA ∧ b=0x55 then
      match rest with
      | ftype::channel::l0::l1::body =>
        if maxPayload<lengthField l0 l1 then some ⟨(),none,2⟩
        else if body.length<lengthField l0 l1+crcSize then none
        else if crc (body.take (lengthField l0 l1))≠
            u32OfLe ((body.drop (lengthField l0 l1)).take crcSize) then some ⟨(),none,2⟩
        else some ⟨(),some ⟨ftype,channel,body.take (lengthField l0 l1)⟩,
          hdrSize+lengthField l0 l1+crcSize⟩
      | _ => none
    else some ⟨(),none,1⟩
  | _ => none

section Header

variable {buf body : List UInt8} {m0 m1 ftype channel l0 l1 : UInt8}

/-- The decision on a complete header. -/
theorem frameMove_header :
    frameMove crc (0xAA::0x55::ftype::channel::l0::l1::body)=
      if maxPayload<lengthField l0 l1 then some ⟨(),none,2⟩
      else if body.length<lengthField l0 l1+crcSize then none
      else if crc (body.take (lengthField l0 l1))≠
          u32OfLe ((body.drop (lengthField l0 l1)).take crcSize) then some ⟨(),none,2⟩
      else some ⟨(),some ⟨ftype,channel,body.take (lengthField l0 l1)⟩,
        hdrSize+lengthField l0 l1+crcSize⟩ := by
  simp only [frameMove,and_self,if_true]

/-- Behind a complete header, a frame is incomplete when its body is. -/
theorem incomplete_iff :
    (m0::m1::ftype::channel::l0::l1::body).length<hdrSize+lengthField l0 l1+crcSize ↔
      body.length<lengthField l0 l1+crcSize := by
  simp only [List.length_cons,hdrSize]
  omega

/-- The loop's pass over a complete header. -/
theorem drainFrames_header (h : ¬buf.length<2) (h1 : ¬buf.length≤findMagic buf+1)
    (hb : buf.drop (findMagic buf)=m0::m1::ftype::channel::l0::l1::body) :
    drainFrames crc buf=
      if maxPayload<lengthField l0 l1 then drainFrames crc (ftype::channel::l0::l1::body)
      else if body.length<lengthField l0 l1+crcSize then
        ([],m0::m1::ftype::channel::l0::l1::body)
      else if crc (body.take (lengthField l0 l1))≠
          u32OfLe ((body.drop (lengthField l0 l1)).take crcSize) then
        drainFrames crc (ftype::channel::l0::l1::body)
      else
        (⟨ftype,channel,body.take (lengthField l0 l1)⟩::
          (drainFrames crc (body.drop (lengthField l0 l1+crcSize))).1,
          (drainFrames crc (body.drop (lengthField l0 l1+crcSize))).2) := by
  rw [drainFrames,if_neg h,if_neg h1,hb]
  simp only [incomplete_iff]

/-- What is left behind a frame. -/
theorem drop_frame :
    (m0::m1::ftype::channel::l0::l1::body).drop (hdrSize+lengthField l0 l1+crcSize)=
      body.drop (lengthField l0 l1+crcSize) := by
  have hlen : hdrSize+lengthField l0 l1+crcSize=lengthField l0 l1+crcSize+6 := by
    simp only [hdrSize]
    omega
  rw [hlen]
  rfl

end Header

theorem frameMove_len {xs : List UInt8} {m : Move Unit Frame} (h : frameMove crc xs=some m) :
    0 < m.len ∧ m.len≤xs.length := by
  unfold frameMove at h
  split at h
  · split_ifs at h with hm
    · split at h
      · split_ifs at h with h1 h2 h3
        all_goals
          obtain rfl := Option.some.inj h
          simp only [List.length_cons,hdrSize,crcSize] at *
          omega
      · cases h
    · obtain rfl := Option.some.inj h
      simp
  · cases h

theorem frameMove_stable {xs : List UInt8} {m : Move Unit Frame} (ys : List UInt8)
    (h : frameMove crc xs=some m) : frameMove crc (xs++ys)=some m := by
  unfold frameMove at h
  split at h
  · rename_i a b rest
    split_ifs at h with hm
    · split at h
      · rename_i ftype channel l0 l1 body
        simp only [List.cons_append,frameMove,if_pos hm]
        split_ifs at h with h1 h2 h3
        · rw [if_pos h1,h]
        all_goals
          have hlen : lengthField l0 l1+crcSize≤body.length := by omega
          have hp : (body++ys).take (lengthField l0 l1)=body.take (lengthField l0 l1) :=
            List.take_append_of_le_length (by omega)
          have hd : ((body++ys).drop (lengthField l0 l1)).take crcSize=
              (body.drop (lengthField l0 l1)).take crcSize := by
            rw [List.drop_append_of_le_length (by omega),List.take_append_of_le_length
              (by rw [List.length_drop]; omega)]
          rw [if_neg h1,if_neg (by rw [List.length_append]; omega),hp,hd]
        · rw [if_pos h3,h]
        · rw [if_neg h3,h]
      · cases h
    · simp only [List.cons_append,frameMove,if_neg hm,h]
  · cases h

/-- The frame format as an incremental decoder. -/
def frameDecoder : Decoder Unit UInt8 Frame where
  move _ xs := frameMove crc xs
  lenPos h := (frameMove_len crc h).1
  lenLe h := (frameMove_len crc h).2
  stable ys h := frameMove_stable crc ys h

private theorem findMagic_skip {buf : List UInt8} (h : findMagic buf+1<buf.length) :
    (frameDecoder crc).drain () buf=(frameDecoder crc).drain () (buf.drop (findMagic buf)) ∧
    ∃ rest, buf.drop (findMagic buf)=0xAA::0x55::rest := by
  induction buf using findMagic.induct with
  | case1 a b rest hm =>
    simp only [findMagic,if_pos hm,List.drop_zero]
    exact ⟨trivial,rest,by rw [hm.1,hm.2]⟩
  | case2 a b rest hm ih =>
    simp only [findMagic,if_neg hm,List.length_cons,List.drop_succ_cons] at h ⊢
    have hs : (frameDecoder crc).move () (a::b::rest)=some ⟨(),none,1⟩ := by
      simp only [frameDecoder,frameMove,if_neg hm]
    rw [Decoder.drain_move _ hs]
    exact ih (by simp only [List.length_cons]; omega)
  | case3 buf hb =>
    match buf,hb with
    | [],_ => simp at h
    | [a],_ => simp [findMagic] at h
    | a::b::rest,hb => exact absurd rfl (hb a b rest)

private theorem findMagic_front {buf tl : List UInt8} {m0 m1 : UInt8}
    (h : findMagic buf+1<buf.length) (hb : buf.drop (findMagic buf)=m0::m1::tl) :
    (m0=0xAA ∧ m1=0x55) ∧
    (frameDecoder crc).drain () buf=(frameDecoder crc).drain () (m0::m1::tl) := by
  obtain ⟨hd,rest,hr⟩ := findMagic_skip crc h
  have hm : m0=0xAA ∧ m1=0x55 ∧ tl=rest := by simpa [hb] using hr
  exact ⟨⟨hm.1,hm.2.1⟩,hb ▸ hd⟩

private theorem findMagic_none {buf : List UInt8} (h2 : 2≤buf.length)
    (h : buf.length≤findMagic buf+1) :
    (frameDecoder crc).drain () buf=([],(),buf.drop (buf.length-1)) := by
  induction buf using findMagic.induct with
  | case1 a b rest hm =>
    simp only [findMagic,if_pos hm] at h
    omega
  | case2 a b rest hm ih =>
    have hs : (frameDecoder crc).move () (a::b::rest)=some ⟨(),none,1⟩ := by
      simp only [frameDecoder,frameMove,if_neg hm]
    rw [Decoder.drain_move _ hs]
    cases rest with
    | nil => rw [Decoder.drain_wait (frameDecoder crc) (show _=none from rfl)]; rfl
    | cons c rest =>
      simp only [findMagic,if_neg hm,List.length_cons] at h
      simp only [List.drop_one,List.tail_cons]
      rw [ih (by simp) (by simp only [findMagic,List.length_cons]; omega)]
      rfl
  | case3 buf hb =>
    match buf,hb with
    | [],_ => simp at h2
    | [a],_ => simp at h2
    | a::b::rest,hb => exact absurd rfl (hb a b rest)

/-- The buffer loop, with its search, slides and early exits, takes the decoder's moves. -/
theorem drainFrames_eq_drain (buf : List UInt8) :
    drainFrames crc buf=
      (((frameDecoder crc).drain () buf).1,((frameDecoder crc).drain () buf).2.2) := by
  induction buf using drainFrames.induct crc with
  | case1 buf h =>
    rw [drainFrames,if_pos h]
    match buf,h with
    | [],_ => rw [Decoder.drain_wait _ rfl]
    | [a],_ => rw [Decoder.drain_wait _ rfl]
  | case2 buf h h1 =>
    rw [drainFrames,if_neg h,if_pos h1,findMagic_none crc (by omega) h1]
  | case3 buf h h1 m0 m1 ftype channel l0 l1 body hb hl ih =>
    obtain ⟨⟨rfl,rfl⟩,hf⟩ := findMagic_front crc (by omega) hb
    have hm : (frameDecoder crc).move () (0xAA::0x55::ftype::channel::l0::l1::body)=
        some ⟨(),none,2⟩ := by
      simp only [frameDecoder,frameMove_header,if_pos hl]
    rw [drainFrames_header crc h h1 hb,if_pos hl,hf,Decoder.drain_move _ hm,ih]
    rfl
  | case4 buf h h1 m0 m1 ftype channel l0 l1 body hb hl ht =>
    obtain ⟨⟨rfl,rfl⟩,hf⟩ := findMagic_front crc (by omega) hb
    rw [hb,incomplete_iff] at ht
    have hm : (frameDecoder crc).move () (0xAA::0x55::ftype::channel::l0::l1::body)=none := by
      simp only [frameDecoder,frameMove_header,if_neg hl,if_pos ht]
    rw [drainFrames_header crc h h1 hb,if_neg hl,if_pos ht,hf,Decoder.drain_wait _ hm]
  | case5 buf h h1 m0 m1 ftype channel l0 l1 body hb hl ht hc ih =>
    obtain ⟨⟨rfl,rfl⟩,hf⟩ := findMagic_front crc (by omega) hb
    rw [hb,incomplete_iff] at ht
    have hm : (frameDecoder crc).move () (0xAA::0x55::ftype::channel::l0::l1::body)=
        some ⟨(),none,2⟩ := by
      simp only [frameDecoder,frameMove_header,if_neg hl,if_neg ht,if_pos hc]
    rw [drainFrames_header crc h h1 hb,if_neg hl,if_neg ht,if_pos hc,hf,Decoder.drain_move _ hm,ih]
    rfl
  | case6 buf h h1 m0 m1 ftype channel l0 l1 body hb hl ht hc ih =>
    obtain ⟨⟨rfl,rfl⟩,hf⟩ := findMagic_front crc (by omega) hb
    rw [hb,incomplete_iff] at ht
    have hm : (frameDecoder crc).move () (0xAA::0x55::ftype::channel::l0::l1::body)=
        some ⟨(),some ⟨ftype,channel,body.take (lengthField l0 l1)⟩,
          hdrSize+lengthField l0 l1+crcSize⟩ := by
      simp only [frameDecoder,frameMove_header,if_neg hl,if_neg ht,if_neg hc]
    rw [drainFrames_header crc h h1 hb,if_neg hl,if_neg ht,if_neg hc,hf,Decoder.drain_move _ hm,
      drop_frame,ih]
    rfl
  | case7 buf h h1 hn =>
    obtain ⟨hd,rest,hr⟩ := findMagic_skip crc (show findMagic buf+1<buf.length by omega)
    rw [drainFrames,if_neg h,if_neg h1,hd,hr]
    have hm : (frameDecoder crc).move () (0xAA::0x55::rest)=none := by
      simp only [frameDecoder,frameMove,and_self,if_true]
      split
      · rename_i ftype channel l0 l1 body
        exact absurd hr (hn _ _ ftype channel l0 l1 body)
      · rfl
    rw [Decoder.drain_wait _ hm]
    split
    · rename_i m0 m1 ftype channel l0 l1 body he
      exact absurd (hr.trans he) (hn m0 m1 ftype channel l0 l1 body)
    · rfl

theorem drainFrames_length (buf : List UInt8) : (drainFrames crc buf).2.length≤buf.length := by
  rw [drainFrames_eq_drain]
  exact ((frameDecoder crc).drain_rest_suffix () buf).length_le

theorem drainFrames_waits (buf : List UInt8) : frameMove crc (drainFrames crc buf).2=none := by
  rw [drainFrames_eq_drain]
  exact (frameDecoder crc).drain_rest_waits () buf

/-- A buffer on which the decoder waits is shorter than one maximal frame. -/
theorem frameMove_wait_length {xs : List UInt8} (h : frameMove crc xs=none) :
    xs.length < maxFrame := by
  unfold frameMove at h
  simp only [maxFrame,hdrSize,crcSize,maxPayload] at *
  split at h
  · split_ifs at h with hm
    split at h
    · split_ifs at h with h1 h2
      simp only [List.length_cons]
      omega
    · rename_i rest _ hn
      match rest,hn with
      | [],_ | [_],_ | [_,_],_ | [_,_,_],_ => simp
      | f::c::l0::l1::body,hn => exact absurd rfl (hn f c l0 l1 body)
  · rename_i hn
    match xs,hn with
    | [],_ | [_],_ => simp
    | a::b::rest,hn => exact absurd rfl (hn a b rest)

/-- A built frame at the front of the stream is read back whole, whatever follows it. -/
theorem frameMove_build (f : WireFrame) (ys : List UInt8) :
    frameMove crc (f.build crc++ys)=
      some ⟨(),some f.toFrame,(f.build crc).length⟩ := by
  have hp := f.fits
  have hl := lengthField_u16ToLe f.payload.length (by simp only [maxPayload] at hp; omega)
  have hn : ¬maxPayload<f.payload.length := by omega
  have hlen : (u32ToLe (crc f.payload)).length=crcSize := rfl
  rw [Frame.build,buildFrame_length crc _ _ _ hp,buildFrame_fits crc _ _ _ hp]
  simp only [List.cons_append,List.append_assoc,frameMove,and_self,if_true,hl,if_neg hn]
  rw [if_neg (by simp only [List.length_append]; omega),List.take_left,List.drop_left,← hlen,
    List.take_left,u32OfLe_u32ToLe,if_neg (fun h => h rfl)]

/-- What the decoder emits is a frame that fits, and the bytes it consumes are its image. -/
theorem frameMove_emit {xs : List UInt8} {f : Frame} {n : Nat}
    (h : frameMove crc xs=some ⟨(),some f,n⟩) :
    f.payload.length ≤ maxPayload ∧ n=(f.build crc).length ∧ xs.take n=f.build crc := by
  unfold frameMove at h
  split at h
  · split_ifs at h with hm
    · split at h
      · rename_i ftype channel l0 l1 body
        split_ifs at h with h1 h2 h3
        · simp at h
        · simp at h
        · have hk : lengthField l0 l1+crcSize≤body.length := by omega
          have ht : (body.take (lengthField l0 l1)).length=lengthField l0 l1 := by
            rw [List.length_take]; omega
          have hc : ((body.drop (lengthField l0 l1)).take crcSize).length=crcSize := by
            rw [List.length_take,List.length_drop]; omega
          obtain ⟨rfl,rfl⟩ : _=f ∧ _=n := by simpa using h
          have hp : (body.take (lengthField l0 l1)).length ≤ maxPayload := by omega
          refine ⟨hp,by rw [Frame.build,buildFrame_length crc _ _ _ hp,ht],?_⟩
          have hb := u32ToLe_u32OfLe _ hc
          rw [← not_not.mp h3] at hb
          have h16 := u16ToLe_lengthField l0 l1
          simp only [u16ToLe,List.cons.injEq,and_true] at h16
          rw [Frame.build,buildFrame_fits crc _ _ _ hp,ht,hb,h16.1,h16.2,hm.1,hm.2,
            ← List.take_add,show hdrSize+lengthField l0 l1+crcSize=lengthField l0 l1+crcSize+6 by
              simp only [hdrSize]; omega]
          rfl
      · cases h
    · simp at h
  · cases h

/-- Streaming parser; `buf` holds the `len` valid bytes of the fixed staging buffer. -/
@[ext] structure FrameParser where
  buf : List UInt8
  lenLe : buf.length≤parserBufCap

namespace FrameParser

def new : FrameParser := ⟨[],by simp⟩

/-- Reset parser state. Called after a link reconnect. -/
def reset (_p : FrameParser) : FrameParser := new

/-- What `feed` leaves and delivers; `dropped` tells that the buffer-full branch was taken. -/
@[ext] structure Fed where
  parser : FrameParser
  frames : List Frame
  dropped : Bool

/-- Fills the buffer from the input and drains it, pass after pass. -/
def feed (p : FrameParser) (data : List UInt8) : Fed :=
  if data.length=0 then ⟨p,[],false⟩
  else if min data.length (parserBufCap-p.buf.length)=0 then ⟨p,[],true⟩
  else
    let d := drainFrames crc (p.buf++data.take (min data.length (parserBufCap-p.buf.length)))
    have hd : d.2.length≤parserBufCap := by
      refine (drainFrames_length crc _).trans ?_
      have := p.lenLe
      rw [List.length_append,List.length_take]
      omega
    let r := feed ⟨d.2,hd⟩ (data.drop (min data.length (parserBufCap-p.buf.length)))
    ⟨r.parser,d.1++r.frames,r.dropped⟩
termination_by data.length
decreasing_by
  simp only [List.length_drop]
  omega

/-- Chunks fed one after the other. -/
def feedAll (p : FrameParser) : List (List UInt8) → Fed
  | [] => ⟨p,[],false⟩
  | c::cs =>
    let a := p.feed crc c
    let b := feedAll a.parser cs
    ⟨b.parser,a.frames++b.frames,a.dropped||b.dropped⟩

/-- What the parser keeps between two calls: bytes on which the frame decoder waits. -/
def Waiting (p : FrameParser) : Prop := frameMove crc p.buf=none

theorem new_waiting : new.Waiting crc := rfl

/-- One call delivers what the decoder emits on the kept bytes followed by the input, keeps the
decoder's rest, and never finds its buffer full. -/
theorem feed_correct (p : FrameParser) (hp : p.Waiting crc) (data : List UInt8) :
    (p.feed crc data).frames=((frameDecoder crc).drain () (p.buf++data)).1 ∧
    (p.feed crc data).parser.buf=((frameDecoder crc).drain () (p.buf++data)).2.2 ∧
    (p.feed crc data).dropped=false := by
  induction p,data using feed.induct crc with
  | case1 p data h =>
    have hd : data=[] := List.eq_nil_of_length_eq_zero h
    have hw := (frameDecoder crc).drain_wait (s := ()) hp
    rw [feed,if_pos h,hd,List.append_nil,hw]
    exact ⟨rfl,rfl,rfl⟩
  | case2 p data h hs =>
    have hl := frameMove_wait_length crc hp
    simp only [parserBufCap] at hs
    omega
  | case3 p data h hs d hd ih =>
    have he := drainFrames_eq_drain crc
      (p.buf++data.take (min data.length (parserBufCap-p.buf.length)))
    obtain ⟨h1,h2,h3⟩ := ih (drainFrames_waits crc _)
    have hsplit := (frameDecoder crc).drain_append ()
      (p.buf++data.take (min data.length (parserBufCap-p.buf.length)))
      (data.drop (min data.length (parserBufCap-p.buf.length)))
    rw [List.append_assoc,List.take_append_drop] at hsplit
    rw [feed,if_neg h,if_neg hs,hsplit]
    simp only [d,he] at h1 h2 h3 ⊢
    exact ⟨congrArg _ h1,h2,h3⟩

theorem feed_waiting (p : FrameParser) (hp : p.Waiting crc) (data : List UInt8) :
    (p.feed crc data).parser.Waiting crc := by
  rw [Waiting,(feed_correct crc p hp data).2.1]
  exact (frameDecoder crc).drain_rest_waits () _

/-- A run of calls is the decoder on the concatenation, whatever the chunks. -/
theorem feedAll_correct (p : FrameParser) (hp : p.Waiting crc) (cs : List (List UInt8)) :
    (p.feedAll crc cs).frames=((frameDecoder crc).drain () (p.buf++cs.flatten)).1 ∧
    (p.feedAll crc cs).parser.buf=((frameDecoder crc).drain () (p.buf++cs.flatten)).2.2 ∧
    (p.feedAll crc cs).dropped=false := by
  rw [← (frameDecoder crc).drainAll_eq_drain (s := ()) hp]
  induction cs generalizing p with
  | nil => exact ⟨rfl,rfl,rfl⟩
  | cons c cs ih =>
    obtain ⟨h1,h2,h3⟩ := feed_correct crc p hp c
    obtain ⟨k1,k2,k3⟩ := ih (p.feed crc c).parser (feed_waiting crc p hp c)
    rw [h2] at k1 k2
    simp only [feedAll,Decoder.drainAll]
    exact ⟨by rw [h1,k1],k2,by rw [h3,k3]; rfl⟩

end FrameParser

end Parser

end Serialmux.Protocol

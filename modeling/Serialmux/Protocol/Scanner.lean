import Serialmux.Protocol.Parser

namespace Serialmux.Protocol

open Framework

/-- The magic pair stands at position p of the stream s. -/
def MagicAt (s : List UInt8) (p : Nat) : Prop := s.getD p 0=0xAA ∧ s.getD (p+1) 0=0x55

instance (s : List UInt8) (p : Nat) : Decidable (MagicAt s p) :=
  inferInstanceAs (Decidable (_∧_))

/-- The length field, the payload and the CRC field of a header that starts at p. -/
def lengthAt (s : List UInt8) (p : Nat) : Nat := lengthField (s.getD (p+4) 0) (s.getD (p+5) 0)

def payloadAt (s : List UInt8) (p : Nat) : List UInt8 := (s.drop (p+hdrSize)).take (lengthAt s p)

def crcAt (s : List UInt8) (p : Nat) : UInt32 :=
  u32OfLe ((s.drop (p+hdrSize+lengthAt s p)).take crcSize)

section Scanner

variable (crc : List UInt8 → UInt32)

/-- What the frame parser is for: read a whole stream s by position, from p on, and emit each
frame with the position at which it stands. The scanner has no buffer and sees all of s. -/
def scan (s : List UInt8) (p : Nat) : List (Nat × Frame) :=
  if s.length<p+2 then []
  else if ¬MagicAt s p then scan s (p+1)
  else if s.length<p+hdrSize then []
  else if maxPayload<lengthAt s p then scan s (p+2)
  else if s.length<p+hdrSize+lengthAt s p+crcSize then []
  else if crc (payloadAt s p)≠crcAt s p then scan s (p+2)
  else (p,⟨s.getD (p+2) 0,s.getD (p+3) 0,payloadAt s p⟩)::
    scan s (p+hdrSize+lengthAt s p+crcSize)
termination_by s.length-p
decreasing_by all_goals (try simp only [hdrSize,crcSize] at *); omega

private theorem drop_cons {s : List UInt8} {p : Nat} (h : p < s.length) :
    s.drop p=s.getD p 0::s.drop (p+1) := by
  rw [List.drop_eq_getElem_cons h,List.getD_eq_getElem _ _ h]

private theorem drop_header {s : List UInt8} {p : Nat} (h : p+hdrSize ≤ s.length) :
    s.drop p=s.getD p 0::s.getD (p+1) 0::s.getD (p+2) 0::s.getD (p+3) 0::s.getD (p+4) 0::
      s.getD (p+5) 0::s.drop (p+hdrSize) := by
  simp only [hdrSize] at *
  rw [drop_cons (by omega),drop_cons (p := p+1) (by omega),drop_cons (p := p+2) (by omega),
    drop_cons (p := p+3) (by omega),drop_cons (p := p+4) (by omega),drop_cons (p := p+5) (by omega)]

/-- The decoder's decision on the bytes from p on, read off the stream by position. -/
theorem frameMove_drop {s : List UInt8} {p : Nat} (hm : MagicAt s p) (hh : p+hdrSize ≤ s.length) :
    frameMove crc (s.drop p)=
      if maxPayload<lengthAt s p then some ⟨(),none,2⟩
      else if s.length<p+hdrSize+lengthAt s p+crcSize then none
      else if crc (payloadAt s p)≠crcAt s p then some ⟨(),none,2⟩
      else some ⟨(),some ⟨s.getD (p+2) 0,s.getD (p+3) 0,payloadAt s p⟩,
        hdrSize+lengthAt s p+crcSize⟩ := by
  have hlen : (s.drop (p+hdrSize)).length<lengthAt s p+crcSize ↔
      s.length<p+hdrSize+lengthAt s p+crcSize := by rw [List.length_drop]; omega
  rw [drop_header hh]
  simp only [frameMove,hm.1,hm.2,and_self,if_true]
  simp only [← lengthAt.eq_def,hlen,List.drop_drop]
  rfl

theorem frameMove_drop_wait {s : List UInt8} {p : Nat} (h : s.length<p+2) :
    frameMove crc (s.drop p)=none := by
  match hd : s.drop p with
  | [] | [_] => rfl
  | a::b::rest =>
    have := congrArg List.length hd
    simp only [List.length_drop,List.length_cons] at this
    omega

theorem frameMove_drop_skip {s : List UInt8} {p : Nat} (h : ¬s.length<p+2) (hm : ¬MagicAt s p) :
    frameMove crc (s.drop p)=some ⟨(),none,1⟩ := by
  rw [drop_cons (by omega),drop_cons (p := p+1) (by omega)]
  exact if_neg hm

theorem frameMove_drop_short {s : List UInt8} {p : Nat} (h : ¬s.length<p+2) (hm : MagicAt s p)
    (hh : s.length<p+hdrSize) : frameMove crc (s.drop p)=none := by
  rw [drop_cons (by omega),drop_cons (p := p+1) (by omega)]
  simp only [frameMove,hm.1,hm.2,and_self,if_true]
  rcases hd : s.drop (p+1+1) with _|⟨f,_|⟨c,_|⟨l0,_|⟨l1,body⟩⟩⟩⟩
  · rfl
  · rfl
  · rfl
  · rfl
  · have hlen := congrArg List.length hd
    simp only [List.length_drop,List.length_cons,hdrSize] at hlen hh
    omega

/-- The scanner at p and the decoder on the bytes from p on emit the same frames. -/
theorem scan_eq_drain (s : List UInt8) (p : Nat) :
    (scan crc s p).map Prod.snd=((frameDecoder crc).drain () (s.drop p)).1 := by
  induction p using scan.induct crc s with
  | case1 p h =>
    rw [scan,if_pos h,Decoder.drain_wait _ (frameMove_drop_wait crc h)]
    rfl
  | case2 p h hm ih =>
    have hd := frameMove_drop_skip crc h hm
    rw [scan,if_neg h,if_pos hm,ih,Decoder.drain_move (frameDecoder crc) hd,List.drop_drop]
    rfl
  | case3 p h hm hh =>
    rw [scan,if_neg h,if_neg hm,if_pos hh,
      Decoder.drain_wait _ (frameMove_drop_short crc h (not_not.mp hm) hh)]
    rfl
  | case4 p h hm hh hl ih =>
    have hd := frameMove_drop crc (not_not.mp hm) (by omega)
    rw [if_pos hl] at hd
    rw [scan,if_neg h,if_neg hm,if_neg hh,if_pos hl,ih,Decoder.drain_move (frameDecoder crc) hd,
      List.drop_drop]
    rfl
  | case5 p h hm hh hl ht =>
    have hd := frameMove_drop crc (not_not.mp hm) (by omega)
    rw [if_neg hl,if_pos ht] at hd
    rw [scan,if_neg h,if_neg hm,if_neg hh,if_neg hl,if_pos ht,
      Decoder.drain_wait (frameDecoder crc) hd]
    rfl
  | case6 p h hm hh hl ht hc ih =>
    have hd := frameMove_drop crc (not_not.mp hm) (by omega)
    rw [if_neg hl,if_neg ht,if_pos hc] at hd
    rw [scan,if_neg h,if_neg hm,if_neg hh,if_neg hl,if_neg ht,if_pos hc,ih,
      Decoder.drain_move (frameDecoder crc) hd,List.drop_drop]
    rfl
  | case7 p h hm hh hl ht hc ih =>
    have hd := frameMove_drop crc (not_not.mp hm) (by omega)
    rw [if_neg hl,if_neg ht,if_neg hc] at hd
    rw [scan,if_neg h,if_neg hm,if_neg hh,if_neg hl,if_neg ht,if_neg hc,List.map_cons,ih,
      Decoder.drain_move (frameDecoder crc) hd,List.drop_drop,← Nat.add_assoc,← Nat.add_assoc]
    rfl

/-- A position at which the scanner emits carries the image of the emitted frame. -/
theorem frame_at {s : List UInt8} {p : Nat} (hm : MagicAt s p) (hl : lengthAt s p ≤ maxPayload)
    (ht : p+hdrSize+lengthAt s p+crcSize ≤ s.length) (hc : crc (payloadAt s p)=crcAt s p) :
    (payloadAt s p).length ≤ maxPayload ∧
    (buildFrame crc (s.getD (p+2) 0) (s.getD (p+3) 0) (payloadAt s p)).length=
      hdrSize+lengthAt s p+crcSize ∧
    (s.drop p).take (hdrSize+lengthAt s p+crcSize)=
      buildFrame crc (s.getD (p+2) 0) (s.getD (p+3) 0) (payloadAt s p) := by
  have hd := frameMove_drop crc hm (by omega)
  rw [if_neg (by omega),if_neg (by omega),if_neg (not_not.mpr hc)] at hd
  obtain ⟨h1,h2,h3⟩ := frameMove_emit crc hd
  exact ⟨h1,h2.symm,h3⟩

/-- Rule for a property of the scanner's emissions: it must hold of none, survive a move of the
position, and survive an emission, which reports the image of a factor of the stream. -/
theorem scan_rule (s : List UInt8) {P : Nat → List (Nat × Frame) → Prop} (none : ∀p,P p [])
    (skip : ∀p n l,P (p+n) l → P p l)
    (emit : ∀p f l,f.payload.length ≤ maxPayload → (s.drop p).take (f.build crc).length=f.build crc →
      P (p+(f.build crc).length) l → P p ((p,f)::l)) (p : Nat) : P p (scan crc s p) := by
  induction p using scan.induct crc s with
  | case1 p h => rw [scan,if_pos h]; exact none p
  | case2 p h hm ih => rw [scan,if_neg h,if_pos hm]; exact skip p 1 _ ih
  | case3 p h hm hh => rw [scan,if_neg h,if_neg hm,if_pos hh]; exact none p
  | case4 p h hm hh hl ih =>
    rw [scan,if_neg h,if_neg hm,if_neg hh,if_pos hl]
    exact skip p 2 _ ih
  | case5 p h hm hh hl ht =>
    rw [scan,if_neg h,if_neg hm,if_neg hh,if_neg hl,if_pos ht]
    exact none p
  | case6 p h hm hh hl ht hc ih =>
    rw [scan,if_neg h,if_neg hm,if_neg hh,if_neg hl,if_neg ht,if_pos hc]
    exact skip p 2 _ ih
  | case7 p h hm hh hl ht hc ih =>
    obtain ⟨h1,h2,h3⟩ := frame_at crc (not_not.mp hm) (by omega) (by omega) (not_not.mp hc)
    rw [scan,if_neg h,if_neg hm,if_neg hh,if_neg hl,if_neg ht,if_neg hc]
    refine emit p _ _ h1 (by rw [Frame.build,h2,h3]) ?_
    rw [Frame.build,h2,← Nat.add_assoc,← Nat.add_assoc]
    exact ih

/-- Every emission is the image of a factor of the stream that stands where it is reported. -/
theorem scan_factor (s : List UInt8) (p : Nat) :
    ∀e∈scan crc s p,e.2.payload.length ≤ maxPayload ∧
      (s.drop e.1).take (e.2.build crc).length=e.2.build crc := by
  refine scan_rule crc s (P := fun _ l => ∀e∈l,e.2.payload.length ≤ maxPayload ∧
    (s.drop e.1).take (e.2.build crc).length=e.2.build crc) ?_ ?_ ?_ p
  · simp
  · exact fun _ _ _ ih => ih
  · intro p f l hf hs ih e he
    rcases List.mem_cons.mp he with rfl|he
    · exact ⟨hf,hs⟩
    · exact ih e he

/-- The factors lie from p on, are disjoint and in stream order. -/
theorem scan_ordered (s : List UInt8) (p : Nat) :
    (∀e∈scan crc s p,p≤e.1) ∧
    (scan crc s p).Pairwise (fun a b => a.1+(a.2.build crc).length≤b.1) := by
  refine scan_rule crc s (P := fun p l => (∀e∈l,p≤e.1) ∧
    l.Pairwise (fun a b => a.1+(a.2.build crc).length≤b.1)) ?_ ?_ ?_ p
  · exact fun _ => ⟨by simp,List.Pairwise.nil⟩
  · exact fun p n _ ih => ⟨fun e he => (Nat.le_add_right p n).trans (ih.1 e he),ih.2⟩
  · intro p f l hf hs ih
    refine ⟨?_,List.Pairwise.cons ih.1 ih.2⟩
    intro e he
    rcases List.mem_cons.mp he with rfl|he
    · exact le_refl p
    · exact (Nat.le_add_right p _).trans (ih.1 e he)

/-- A new parser fed any chunks delivers exactly what the scanner emits on their concatenation,
ends in a state that only the concatenation determines, and never drops input. -/
theorem feedAll_refines_scan (cs : List (List UInt8)) :
    (FrameParser.new.feedAll crc cs).frames=(scan crc cs.flatten 0).map Prod.snd ∧
    (∀ cs',cs'.flatten=cs.flatten → FrameParser.new.feedAll crc cs'=FrameParser.new.feedAll crc cs) ∧
    (∀e∈scan crc cs.flatten 0,e.2.payload.length ≤ maxPayload ∧
      (cs.flatten.drop e.1).take (e.2.build crc).length=e.2.build crc) ∧
    (scan crc cs.flatten 0).Pairwise (fun a b => a.1+(a.2.build crc).length≤b.1) ∧
    (FrameParser.new.feedAll crc cs).dropped=false := by
  have h := FrameParser.feedAll_correct crc _ (FrameParser.new_waiting crc) cs
  refine ⟨?_,?_,scan_factor crc _ 0,(scan_ordered crc _ 0).2,h.2.2⟩
  · rw [h.1,scan_eq_drain,List.drop_zero]
    rfl
  · intro cs' he
    have h' := FrameParser.feedAll_correct crc _ (FrameParser.new_waiting crc) cs'
    rw [he] at h'
    apply FrameParser.Fed.ext
    · exact FrameParser.ext (h'.2.1.trans h.2.1.symm)
    · exact h'.1.trans h.1.symm
    · exact h'.2.2.trans h.2.2.symm

end Scanner

end Serialmux.Protocol

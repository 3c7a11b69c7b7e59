import Serialmux.Protocol.Scanner

namespace Serialmux.Protocol

open Framework

section Resync

variable (crc : List UInt8 → UInt32)

/-- Position p of s carries a whole frame: magic, an admissible length, and a CRC that matches. -/
def FrameAt (s : List UInt8) (p : Nat) : Prop :=
  MagicAt s p ∧ lengthAt s p ≤ maxPayload ∧ p+hdrSize+lengthAt s p+crcSize ≤ s.length ∧
    crc (payloadAt s p)=crcAt s p

instance (s : List UInt8) (p : Nat) : Decidable (FrameAt crc s p) :=
  inferInstanceAs (Decidable (_∧_∧_∧_))

/-- The bytes of a list of frames that fit. -/
def encodeAll (F : List WireFrame) : List UInt8 := encodeFrames crc (F.map WireFrame.toFrame)

/-- Frames at the front of the stream come out whole and first. -/
theorem drain_encodeAll (F : List WireFrame) (t : List UInt8) :
    ((frameDecoder crc).drain () (encodeAll crc F++t)).1=
        F.map WireFrame.toFrame++((frameDecoder crc).drain () t).1 ∧
    ((frameDecoder crc).drain () (encodeAll crc F++t)).2=((frameDecoder crc).drain () t).2 := by
  have h := (frameDecoder crc).drain_encoded (s := ()) (fun f : WireFrame => f.build crc)
    WireFrame.toFrame (fun f (_ : f∈F) => frameMove_build crc f) t
  rw [encodeAll,encodeFrames,List.map_map]
  change (frameDecoder crc).drain () ((F.map (Frame.build crc∘WireFrame.toFrame)).flatten++t)=_ at h
  rw [h]
  exact ⟨rfl,rfl⟩

/-- A non-empty encoding is longer than a header and starts with the first magic byte. -/
theorem encodeAll_head (F : List WireFrame) (hF : F≠[]) :
    ∃ rest,encodeAll crc F=0xAA::rest ∧ hdrSize ≤ rest.length := by
  obtain ⟨f,fs,rfl⟩ := List.exists_cons_of_ne_nil hF
  have hb := buildFrame_fits crc f.ftype f.channel f.payload f.fits
  have hl := buildFrame_length crc f.ftype f.channel f.payload f.fits
  have he : encodeAll crc (f::fs)=buildFrame crc f.ftype f.channel f.payload++encodeAll crc fs := rfl
  rw [hb] at hl
  refine ⟨_,by rw [he,hb,List.cons_append],?_⟩
  simp only [List.length_append,List.length_cons,hdrSize,crcSize] at hl ⊢
  omega

private theorem getD_append (g e : List UInt8) (a : UInt8) (p : Nat) (hp : p<g.length) :
    (g++a::e).getD p 0=g.getD p 0 := by
  rw [List.getD_eq_getElem?_getD,List.getD_eq_getElem?_getD,List.getElem?_append_left hp]

/-- A magic that starts inside g does not borrow the first byte of the frames behind it. -/
theorem magicAt_inside {g rest : List UInt8} {p : Nat} (hp : p<g.length)
    (hm : MagicAt (g++0xAA::rest) p) : p+1<g.length ∧ MagicAt g p := by
  have hlt : p+1<g.length := by
    by_contra hge
    have he : p+1=g.length := by omega
    have h2 := hm.2
    rw [he,List.getD_eq_getElem?_getD,List.getElem?_append_right (le_refl _),Nat.sub_self] at h2
    exact absurd (show (0xAA : UInt8)=0x55 from h2) (by decide)
  refine ⟨hlt,?_⟩
  have h := hm
  rwa [MagicAt,getD_append g rest _ p hp,getD_append g rest _ (p+1) hlt] at h

/-- Before the good frames the parser only steps over bytes of g, one or two at a time. -/
theorem skips_damage (g t : List UInt8) (F : List WireFrame) (hF : F≠[])
    (h : ∀p<g.length,MagicAt (g++encodeAll crc F++t) p →
      maxFrame≤(encodeAll crc F).length+t.length ∧ ¬FrameAt crc (g++encodeAll crc F++t) p) :
    (frameDecoder crc).drain () (g++encodeAll crc F++t)=
      (frameDecoder crc).drain () (encodeAll crc F++t) := by
  obtain ⟨rest,he,hr⟩ := encodeAll_head crc F hF
  have hlen : (g++encodeAll crc F++t).length=g.length+(encodeAll crc F).length+t.length := by
    simp only [List.length_append]
  have hlong : hdrSize<(encodeAll crc F).length := by rw [he,List.length_cons]; omega
  have hd : (g++encodeAll crc F++t).drop g.length=encodeAll crc F++t := by
    rw [List.append_assoc,List.drop_left]
  have hs : g++encodeAll crc F++t=g++0xAA::(rest++t) := by rw [he]; simp
  rw [← hd]
  apply Decoder.drain_skip_to
  intro p hp
  by_cases hm : MagicAt (g++encodeAll crc F++t) p
  · obtain ⟨hfull,hno⟩ := h p hp hm
    have hin := (magicAt_inside hp (hs ▸ hm)).1
    refine ⟨2,by omega,?_⟩
    refine (frameMove_drop crc hm (by simp only [hdrSize] at *; omega)).trans ?_
    split_ifs with hl ht hc
    · rfl
    · simp only [maxFrame] at hfull
      omega
    · rfl
    · exact absurd ⟨hm,by omega,by omega,not_not.mp hc⟩ hno
  · refine ⟨1,by omega,frameMove_drop_skip crc ?_ hm⟩
    simp only [hdrSize] at hlong
    omega

/-- After any damage g that hides no whole frame, a new parser delivers all frames of F, in order
and before anything else, once a maximal frame's worth of bytes has followed g. Damage without a
magic pair needs no such tail. -/
theorem feedAll_resyncs (g t : List UInt8) (F : List WireFrame) (hF : F≠[])
    (cs : List (List UInt8)) (hcs : cs.flatten=g++encodeAll crc F++t) :
    (maxFrame≤(encodeAll crc F).length+t.length →
      (∀p<g.length,¬FrameAt crc (g++encodeAll crc F++t) p) →
      F.map WireFrame.toFrame <+: (FrameParser.new.feedAll crc cs).frames) ∧
    ((∀p,p+1<g.length → ¬MagicAt g p) →
      F.map WireFrame.toFrame <+: (FrameParser.new.feedAll crc cs).frames) := by
  have hfed := (FrameParser.feedAll_correct crc _ (FrameParser.new_waiting crc) cs).1
  rw [hcs] at hfed
  have done (h : (frameDecoder crc).drain () (g++encodeAll crc F++t)=
      (frameDecoder crc).drain () (encodeAll crc F++t)) :
      F.map WireFrame.toFrame <+: (FrameParser.new.feedAll crc cs).frames := by
    rw [hfed]
    change _ <+: ((frameDecoder crc).drain () (g++encodeAll crc F++t)).1
    rw [h,(drain_encodeAll crc F t).1]
    exact List.prefix_append _ _
  constructor
  · intro ht hg
    exact done (skips_damage crc g t F hF (fun p hp _ => ⟨ht,hg p hp⟩))
  · intro hg
    obtain ⟨rest,he,-⟩ := encodeAll_head crc F hF
    refine done (skips_damage crc g t F hF (fun p hp hm => ?_))
    rw [he,List.append_assoc,List.cons_append] at hm
    have hin := magicAt_inside hp hm
    exact absurd hin.2 (hg p hin.1)

end Resync

/-- The torn header of the parser's own test: magic, then a length field over the maximum. -/
def tornHeader : List UInt8 := [0xAA,0x55,fData,9,0x01,0x80]

def probeFrame : WireFrame := ⟨⟨fData,3,[]⟩,by simp⟩

theorem feedAll_resyncs_tornHeader :
    (∀p<tornHeader.length,
      ¬FrameAt crc32 (tornHeader++encodeAll crc32 [probeFrame]++List.replicate maxFrame 0) p) ∧
    [probeFrame.toFrame] <+: (FrameParser.new.feedAll crc32
      [tornHeader++encodeAll crc32 [probeFrame],List.replicate maxFrame 0]).frames := by
  have hno : ∀p<tornHeader.length,
      ¬FrameAt crc32 (tornHeader++encodeAll crc32 [probeFrame]++List.replicate maxFrame 0) p := by
    decide
  have h := feedAll_resyncs crc32 tornHeader (List.replicate maxFrame 0) [probeFrame] (by simp)
    [tornHeader++encodeAll crc32 [probeFrame],List.replicate maxFrame 0] (by simp)
  exact ⟨hno,h.1 (by rw [List.length_replicate]; omega) hno⟩

end Serialmux.Protocol

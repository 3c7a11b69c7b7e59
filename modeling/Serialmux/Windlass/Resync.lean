import Serialmux.Windlass.Framing

namespace Serialmux.Windlass

open Framework

/-- The length byte of a tunnel frame that starts at p. -/
def lenAt (s : List UInt8) (p : Nat) : UInt8 := s.getD (p+1) 0

/-- A tunnel frame that starts at p lies in the stream and passes both checks of the codec. -/
def PassesAt (s : List UInt8) (p : Nat) : Prop :=
  ¬BadLength (lenAt s p) ∧ p+1+(lenAt s p).toNat ≤ s.length ∧
  s.getD (p+(lenAt s p).toNat) 0=messageValueSync

/-- A tunnel frame that starts at p fails one of the checks. -/
def FailsAt (s : List UInt8) (p : Nat) : Prop :=
  p+2 ≤ s.length ∧ (BadLength (lenAt s p) ∨
    p+1+(lenAt s p).toNat ≤ s.length ∧ s.getD (p+(lenAt s p).toNat) 0≠messageValueSync)

/-- The places the stream leads to from its start: past a frame that passes, or one byte on from one
that fails. -/
inductive Reached (s : List UInt8) : Nat → Prop
  | start : Reached s 0
  | pass {p : Nat} (h : Reached s p) (hp : PassesAt s p) : Reached s (p+(1+(lenAt s p).toNat))
  | fail {p : Nat} (h : Reached s p) (hp : FailsAt s p) : Reached s (p+1)

namespace TunnelCodec

private theorem drop_two {s : List UInt8} {p : Nat} (h : p+2 ≤ s.length) :
    s.drop p=s.getD p 0::lenAt s p::s.drop (p+2) := by
  rw [List.drop_eq_getElem_cons (by omega),List.drop_eq_getElem_cons (by omega),lenAt,
    List.getD_eq_getElem _ _ (by omega),List.getD_eq_getElem _ _ (by omega)]

private theorem drop_checks {s : List UInt8} {p : Nat} (h : p+2 ≤ s.length)
    (hb : ¬BadLength (lenAt s p)) :
    ((lenAt s p::s.drop (p+2)).length<(lenAt s p).toNat ↔ s.length<p+1+(lenAt s p).toNat) ∧
    (lenAt s p::s.drop (p+2)).getD ((lenAt s p).toNat-1) 0=s.getD (p+(lenAt s p).toNat) 0 := by
  have hpos := (not_badLength hb).1
  simp only [messageLengthMin] at hpos
  have hd : lenAt s p::s.drop (p+2)=s.drop (p+1) := by
    have e := drop_two h
    rw [List.drop_eq_getElem_cons (by omega)] at e
    exact (List.cons.inj e).2.symm
  constructor
  · rw [List.length_cons,List.length_drop]
    omega
  · rw [hd,List.getD_eq_getElem?_getD,List.getD_eq_getElem?_getD,List.getElem?_drop]
    congr 2
    omega

/-- The move at p is the one its checks call for. -/
theorem move_drop {s : List UInt8} {p : Nat} {m : Move Unit TunnelFrame}
    (h : decoder.move () (s.drop p)=some m) :
    PassesAt s p ∧ m.len=1+(lenAt s p).toNat ∨ FailsAt s p ∧ m.len=1 := by
  have hlen : p+2 ≤ s.length := by
    by_contra hlt
    have hshort : (s.drop p).length<2 := by
      rw [List.length_drop]
      omega
    match hd : s.drop p,hshort with
    | [],_ => rw [hd] at h; cases h
    | [_],_ => rw [hd] at h; cases h
  change move (s.drop p)=some m at h
  rw [drop_two hlen,move] at h
  by_cases hb : BadLength (lenAt s p)
  · rw [if_pos hb] at h
    obtain rfl := Option.some.inj h
    exact .inr ⟨⟨hlen,.inl hb⟩,rfl⟩
  · obtain ⟨hl,hg⟩ := drop_checks hlen hb
    rw [if_neg hb,hg] at h
    simp only [hl] at h
    split_ifs at h with h1 h2
    · obtain rfl := Option.some.inj h
      exact .inr ⟨⟨hlen,.inr ⟨by omega,h2⟩⟩,rfl⟩
    · obtain rfl := Option.some.inj h
      exact .inl ⟨⟨hb,by omega,not_not.mp h2⟩,rfl⟩

theorem move_fail {s : List UInt8} {p : Nat} (h : FailsAt s p) :
    decoder.move () (s.drop p)=some ⟨(),none,1⟩ := by
  obtain ⟨hlen,hc⟩ := h
  change move (s.drop p)=_
  rw [drop_two hlen,move]
  by_cases hb : BadLength (lenAt s p)
  · rw [if_pos hb]
  · obtain ⟨hl,hg⟩ := drop_checks hlen hb
    obtain ⟨h1,h2⟩ := hc.resolve_left hb
    rw [if_neg hb,if_neg (by rw [hl]; omega),hg,if_pos h2]

theorem move_pass {s : List UInt8} {p : Nat} (h : PassesAt s p) :
    ∃f,decoder.move () (s.drop p)=some ⟨(),some f,1+(lenAt s p).toNat⟩ := by
  obtain ⟨hb,h1,h2⟩ := h
  have hpos := (not_badLength hb).1
  simp only [messageLengthMin] at hpos
  have hlen : p+2 ≤ s.length := by omega
  obtain ⟨hl,hg⟩ := drop_checks hlen hb
  refine ⟨⟨s.getD p 0,(lenAt s p::s.drop (p+2)).take (lenAt s p).toNat⟩,?_⟩
  change move (s.drop p)=_
  rw [drop_two hlen,move,if_neg hb,if_neg (by rw [hl]; omega),hg,if_neg (not_not.mpr h2)]

/-- The places the codec comes to stand at are those the stream leads to. -/
theorem visits_iff_reached (s : List UInt8) (p : Nat) : decoder.Visits () s p () ↔ Reached s p := by
  constructor
  · intro h
    have haux {t t' : Unit} {xs : List UInt8} {n : Nat} (hv : decoder.Visits t xs n t') (q : Nat)
        (hq : Reached s q) (hxs : xs=s.drop q) : Reached s (q+n) := by
      induction hv generalizing q with
      | here => exact hq
      | @move _ _ xs m n hm _ ih =>
        subst hxs
        rw [← Nat.add_assoc]
        refine ih (q+m.len) ?_ List.drop_drop
        rcases move_drop hm with ⟨hp,hl⟩|⟨hp,hl⟩
        · rw [hl]
          exact .pass hq hp
        · rw [hl]
          exact .fail hq hp
    have e := haux h 0 .start rfl
    rwa [Nat.zero_add] at e
  · intro h
    induction h with
    | start => exact .here () s
    | pass _ hp ih =>
      obtain ⟨f,hm⟩ := move_pass hp
      exact ih.snoc hm
    | fail _ hp ih => exact ih.snoc (move_fail hp)

end TunnelCodec

/-- A well-formed tunnel frame. -/
structure TunnelPacket where
  chId : UInt8
  frame : KlipperFrame

namespace TunnelPacket

def toFrame (f : TunnelPacket) : TunnelFrame := ⟨f.chId,f.frame.bytes⟩

def bytes (f : TunnelPacket) : List UInt8 := TunnelCodec.encode f.toFrame []

end TunnelPacket

section Resync

variable (g : List UInt8) (F : List TunnelPacket)

/-- A stream of tunnel frames behind some other bytes. -/
def damaged : List UInt8 := g++(F.map (·.bytes)).flatten

/-- The place at which the k-th frame starts. -/
def boundary (k : Nat) : Nat := g.length+((F.take k).map (·.bytes)).flatten.length

/-- The last that the codec emits are the frames from the k-th on, each from where it stands. -/
def SavedFrom (k : Nat) : Prop :=
  ((Decoder.placed TunnelPacket.bytes g.length F).drop k).map (Prod.map id TunnelPacket.toFrame) <:+
    TunnelCodec.decoder.located () 0 (damaged g F)

/-- There are no more than K frames, or the stream leads to the start of one of the first K+1. -/
def LeadsBack (K : Nat) : Prop := F.length≤K ∨ ∃k≤K,Reached (damaged g F) (boundary g F k)

theorem damaged_drop (k : Nat) :
    (damaged g F).drop (boundary g F k)=((F.drop k).map (·.bytes)).flatten := by
  have hsplit : (F.map (·.bytes)).flatten=
      ((F.take k).map (·.bytes)).flatten++((F.drop k).map (·.bytes)).flatten := by
    rw [← List.flatten_append,← List.map_append,List.take_append_drop]
  rw [damaged,boundary,← List.drop_drop,List.drop_left,hsplit,List.drop_left]

theorem savedFrom_of_reached {k : Nat} (h : Reached (damaged g F) (boundary g F k)) :
    SavedFrom g F k := by
  have hv := (TunnelCodec.visits_iff_reached _ _).mpr h
  have hs := hv.located 0
  have he := TunnelCodec.decoder.located_encoded (s := ()) TunnelPacket.bytes
    TunnelPacket.toFrame (fun f (_ : f∈F.drop k) => TunnelCodec.move_frame f.chId f.frame) rfl
    (boundary g F k)
  rw [damaged_drop,Nat.zero_add,he] at hs
  rw [SavedFrom,Decoder.placed_drop]
  exact hs

theorem reached_of_savedFrom {k : Nat} (hk : k<F.length) (h : SavedFrom g F k) :
    Reached (damaged g F) (boundary g F k) := by
  rw [SavedFrom,Decoder.placed_drop,List.drop_eq_getElem_cons hk,Decoder.placed,
    List.map_cons] at h
  obtain ⟨n,s',hn,hv⟩ := TunnelCodec.decoder.visits_of_located
    (h.subset List.mem_cons_self)
  rw [Nat.zero_add] at hn
  subst hn
  exact (TunnelCodec.visits_iff_reached _ _).mp hv

/-- All but at most the first K frames are saved exactly if the stream leads back to one of their
starts in time. Then, whatever the chunks, the codec's output ends with them. -/
theorem resync_iff (K : Nat) (chunks : List (List UInt8)) (hchunks : chunks.flatten=damaged g F) :
    ((∃k≤K,SavedFrom g F k) ↔ LeadsBack g F K) ∧
    (LeadsBack g F K → ∃k≤K,
      (F.drop k).map TunnelPacket.toFrame <:+ (TunnelCodec.codec.framedRead () [] chunks).1) := by
  have hback : LeadsBack g F K → ∃k≤K,SavedFrom g F k := by
    intro h
    rcases h with h|⟨k,hk,h⟩
    · refine ⟨K,le_rfl,?_⟩
      rw [SavedFrom,Decoder.placed_drop,List.drop_eq_nil_of_le h]
      exact List.nil_suffix
    · exact ⟨k,hk,savedFrom_of_reached g F h⟩
  refine ⟨⟨?_,hback⟩,?_⟩
  · intro ⟨k,hk,h⟩
    by_cases hlen : F.length≤K
    · exact .inl hlen
    · exact .inr ⟨k,hk,reached_of_savedFrom g F (by omega) h⟩
  · intro h
    obtain ⟨k,hk,hsaved⟩ := hback h
    have hread := TunnelCodec.codec_implements.framedRead_eq_drain (s := ()) rfl chunks
    refine ⟨k,hk,?_⟩
    rw [hread,hchunks,← TunnelCodec.decoder.map_located () 0]
    have e := hsaved.map Prod.snd
    rw [List.map_map] at e
    have hval : Prod.snd∘Prod.map id TunnelPacket.toFrame=
        TunnelPacket.toFrame∘(Prod.snd : Nat × TunnelPacket → TunnelPacket) := rfl
    rwa [hval,← List.map_map,List.map_drop,Decoder.map_placed] at e

/-- A frame on channel 5 whose checksum ends with a sync byte. Read one byte too early it still
looks like a frame. -/
def driftPacket : TunnelPacket := ⟨5,[5,0,0,0x7E,0x7E],by decide⟩

theorem resync_iff_undamaged :
    ∃k≤0,([driftPacket].drop k).map TunnelPacket.toFrame <:+
      (TunnelCodec.codec.framedRead () [] [[5,5,0],[0,0x7E,0x7E]]).1 :=
  (resync_iff [] [driftPacket] 0 [[5,5,0],[0,0x7E,0x7E]] rfl).2 (.inr ⟨0,le_rfl,.start⟩)

theorem drift_frames (chId : UInt8) (n : Nat) :
    ∀f∈(TunnelCodec.decoder.drain ()
      (chId::(List.replicate n driftPacket.bytes).flatten)).1,f.frame=[5,5,0,0,0x7E] := by
  induction n generalizing chId with
  | zero =>
    have hnil : TunnelCodec.decoder.drain () [chId]=([],(),[chId]) :=
      TunnelCodec.decoder.drain_wait rfl
    intro f hf
    rw [List.replicate_zero,List.flatten_nil,hnil] at hf
    cases hf
  | succ n ih =>
    have hm := TunnelCodec.move_frame chId ⟨[5,5,0,0,0x7E],by decide⟩
      (0x7E::(List.replicate n driftPacket.bytes).flatten)
    change TunnelCodec.decoder.move ()
      (chId::(List.replicate (n+1) driftPacket.bytes).flatten)=_ at hm
    intro f hf
    rw [TunnelCodec.decoder.drain_move hm] at hf
    rcases List.mem_cons.mp hf with rfl|hf
    · rfl
    · exact ih 0x7E f hf

/-- No bound will do: behind one stray byte the codec stays out of step as long as such frames
come. -/
theorem resync_unbounded :
    ¬∃K,∀(g : List UInt8) (F : List TunnelPacket) (chunks : List (List UInt8)),
      chunks.flatten=damaged g F → ∃k≤K,
        (F.drop k).map TunnelPacket.toFrame <:+ (TunnelCodec.codec.framedRead () [] chunks).1 := by
  intro ⟨K,h⟩
  have hread := TunnelCodec.codec_implements.framedRead_eq_drain (s := ()) rfl
  obtain ⟨k,hk,hsuffix⟩ := h [0] (List.replicate (K+1) driftPacket)
    [damaged [0] (List.replicate (K+1) driftPacket)] (List.flatten_singleton ..)
  rw [hread,List.flatten_singleton,damaged,List.map_replicate] at hsuffix
  have hmem : driftPacket.toFrame∈
      ((List.replicate (K+1) driftPacket).drop k).map TunnelPacket.toFrame := by
    rw [List.drop_replicate,List.map_replicate,List.mem_replicate]
    exact ⟨by omega,rfl⟩
  exact absurd (drift_frames 0 (K+1) _ (hsuffix.subset hmem)) (by decide)

end Resync

end Serialmux.Windlass

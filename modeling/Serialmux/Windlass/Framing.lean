import Serialmux.Framework.Framed
import Mathlib.Data.List.GetD
import Mathlib.Data.UInt

namespace Serialmux.Windlass

open Framework

/-- Minimum Klipper frame size: 2 header bytes and 3 trailer bytes. -/
def messageLengthMin : Nat := 5

/-- Maximum Klipper frame size. -/
def messageLengthMax : Nat := 64

/-- Klipper sync / end-of-frame byte. -/
def messageValueSync : UInt8 := 0x7E

/-- A length byte that no Klipper frame has. -/
def BadLength (len : UInt8) : Prop := len.toNat < messageLengthMin ∨ messageLengthMax<len.toNat

instance (len : UInt8) : Decidable (BadLength len) := inferInstanceAs (Decidable (_∨_))

theorem not_badLength {len : UInt8} (h : ¬BadLength len) :
    messageLengthMin ≤ len.toNat ∧ len.toNat ≤ messageLengthMax := by
  simp only [BadLength,not_or,not_lt] at h
  exact h

/-- A complete Klipper frame: its first byte is its length, its last one the sync byte. What stands
between the two is free. -/
def IsKlipperFrame (f : List UInt8) : Prop :=
  (f.getD 0 0).toNat=f.length ∧ messageLengthMin ≤ f.length ∧ f.length ≤ messageLengthMax ∧
  f.getD (f.length-1) 0=messageValueSync

instance (f : List UInt8) : Decidable (IsKlipperFrame f) := inferInstanceAs (Decidable (_∧_))

structure KlipperFrame where
  bytes : List UInt8
  wf : IsKlipperFrame bytes

private theorem getD_take {xs : List UInt8} {n k : Nat} (h : n<k) :
    (xs.take k).getD n 0=xs.getD n 0 := by
  rw [List.getD_eq_getElem?_getD,List.getD_eq_getElem?_getD,List.getElem?_take_of_lt h]

/-- The bytes the codecs cut out once a length byte and the sync byte at its distance have passed
their checks are a complete frame. -/
theorem isKlipperFrame_take {first : UInt8} {rest : List UInt8} (hb : ¬BadLength first)
    (hl : ¬(first::rest).length<first.toNat)
    (he : (first::rest).getD (first.toNat-1) 0=messageValueSync) :
    IsKlipperFrame ((first::rest).take first.toNat) := by
  obtain ⟨hmin,hmax⟩ := not_badLength hb
  have hlen : ((first::rest).take first.toNat).length=first.toNat := by
    rw [List.length_take]
    omega
  have hpos : 0<first.toNat := lt_of_lt_of_le (by decide) hmin
  refine ⟨?_,by rw [hlen]; exact hmin,by rw [hlen]; exact hmax,?_⟩
  · rw [hlen,getD_take hpos]
    rfl
  · rw [hlen,getD_take (by omega),he]

/-- A complete frame passes those checks whatever follows it. -/
theorem KlipperFrame.checks (f : KlipperFrame) (ys : List UInt8) :
    ∃first rest,f.bytes=first::rest ∧ ¬BadLength first ∧ first.toNat=f.bytes.length ∧
      (f.bytes++ys).getD (first.toNat-1) 0=messageValueSync := by
  obtain ⟨bytes,hfirst,hmin,hmax,hlast⟩ := f
  cases bytes with
  | nil => exact absurd hmin (by decide)
  | cons first rest =>
    change first.toNat=_ at hfirst
    refine ⟨first,rest,rfl,?_,hfirst,?_⟩
    · rw [BadLength,hfirst]
      omega
    · rw [hfirst,List.getD_append _ _ _ _ (by rw [List.length_cons]; omega),hlast]

/-- One complete Klipper frame tagged with a channel id. -/
@[ext] structure TunnelFrame where
  chId : UInt8
  frame : List UInt8
  deriving DecidableEq

/-- Decoded Klipper payload bytes tagged with a channel id. -/
@[ext] structure PayloadTunnelFrame where
  chId : UInt8
  payload : List UInt8
  deriving DecidableEq

structure KlipperFramer where
  synced : Bool
  deriving DecidableEq

namespace KlipperFramer

def new : KlipperFramer := ⟨false⟩

/-- The body of the loop of `decode`. -/
def pass (self : KlipperFramer) (src : List UInt8) : Pass KlipperFramer UInt8 (List UInt8) :=
  match src with
  | [] => .done none self []
  | first::_ =>
    if self.synced=false then
      -- Scan for the sync byte; without one the whole buffer is cleared.
      match src.findIdx? (·==messageValueSync) with
      | some pos => .again ⟨true⟩ (src.drop (pos+1))
      | none => .done none self []
    -- Skip idle sync bytes.
    else if first=messageValueSync then .again self (src.drop 1)
    else if BadLength first then .again ⟨false⟩ (src.drop 1)
    else if src.length<first.toNat then .done none self src
    else if src.getD (first.toNat-1) 0≠messageValueSync then .again ⟨false⟩ (src.drop 1)
    else .done (some (src.take first.toNat)) self (src.drop first.toNat)

/-- The decision on the first bytes of a stream. Unsynced, it steps over one byte at a time. -/
def move (self : KlipperFramer) : List UInt8 → Option (Move KlipperFramer (List UInt8))
  | [] => none
  | first::rest =>
    if self.synced=false then some ⟨⟨first==messageValueSync⟩,none,1⟩
    else if first=messageValueSync then some ⟨self,none,1⟩
    else if BadLength first then some ⟨⟨false⟩,none,1⟩
    else if (first::rest).length<first.toNat then none
    else if (first::rest).getD (first.toNat-1) 0≠messageValueSync then some ⟨⟨false⟩,none,1⟩
    else some ⟨self,some ((first::rest).take first.toNat),first.toNat⟩

theorem pass_again {self s : KlipperFramer} {src rest : List UInt8}
    (h : self.pass src=.again s rest) : rest.length < src.length := by
  unfold pass at h
  split at h
  · cases h
  · split_ifs at h
    · split at h
      · obtain ⟨-,rfl⟩ := Pass.again.inj h
        simp only [List.length_drop,List.length_cons]
        omega
      · cases h
    all_goals
      obtain ⟨-,rfl⟩ := Pass.again.inj h
      simp

theorem pass_item {self s : KlipperFramer} {src rest f : List UInt8}
    (h : self.pass src=.done (some f) s rest) : rest.length < src.length := by
  unfold pass at h
  split at h
  · cases h
  · split_ifs at h with hs hi hb hl he
    · split at h <;> cases h
    · cases h
    · obtain ⟨-,-,rfl⟩ := Pass.done.inj h
      have hpos := (not_badLength hb).1
      simp only [messageLengthMin] at hpos
      simp only [List.length_drop,List.length_cons]
      omega

/-- The framer as the codec a framed reader drives. -/
def codec : Codec KlipperFramer UInt8 (List UInt8) where
  pass := pass
  againLt := pass_again
  itemLt := pass_item

theorem move_len {self : KlipperFramer} {xs : List UInt8}
    {m : Move KlipperFramer (List UInt8)} (h : self.move xs=some m) :
    0 < m.len ∧ m.len ≤ xs.length := by
  unfold move at h
  split at h
  · cases h
  · split_ifs at h with hs hi hb hl he
    all_goals obtain rfl := Option.some.inj h
    case neg =>
      have hpos := (not_badLength hb).1
      simp only [messageLengthMin] at hpos
      exact ⟨by dsimp only; omega,by dsimp only; omega⟩
    all_goals simp

theorem move_stable {self : KlipperFramer} {xs : List UInt8}
    {m : Move KlipperFramer (List UInt8)} (ys : List UInt8) (h : self.move xs=some m) :
    self.move (xs++ys)=some m := by
  unfold move at h
  split at h
  · cases h
  · rename_i first rest
    rw [List.cons_append,move,← List.cons_append]
    split_ifs at h with hs hi hb hl he
    · rw [if_pos hs,h]
    · rw [if_neg hs,if_pos hi,h]
    · rw [if_neg hs,if_neg hi,if_pos hb,h]
    all_goals
      have hpos := (not_badLength hb).1
      simp only [messageLengthMin] at hpos
      have hlen : first.toNat ≤ (first::rest).length := by omega
      have hget : ((first::rest)++ys).getD (first.toNat-1) 0=
          (first::rest).getD (first.toNat-1) 0 := List.getD_append _ _ _ _ (by omega)
      rw [if_neg hs,if_neg hi,if_neg hb,if_neg (by rw [List.length_append]; omega),hget]
    · rw [if_pos he,h]
    · rw [if_neg he,List.take_append_of_le_length hlen,h]

/-- What the framer is for: Klipper frames read off a stream that may start anywhere. -/
def decoder : Decoder KlipperFramer UInt8 (List UInt8) where
  move := move
  lenPos h := (move_len h).1
  lenLe h := (move_len h).2
  stable ys h := move_stable ys h

/-- Scanning for the first sync byte, or clearing the buffer, is stepping over the bytes one at a
time. -/
theorem drain_unsynced (src : List UInt8) :
    decoder.drain ⟨false⟩ src=
      match src.findIdx? (·==messageValueSync) with
      | some pos => decoder.drain ⟨true⟩ (src.drop (pos+1))
      | none => ([],⟨false⟩,[]) := by
  induction src with
  | nil => rw [decoder.drain_wait rfl]; rfl
  | cons first rest ih =>
    have hm : decoder.move ⟨false⟩ (first::rest)=
        some ⟨⟨first==messageValueSync⟩,none,1⟩ := rfl
    rw [decoder.drain_move hm,List.findIdx?_cons]
    cases hf : first==messageValueSync with
    | true => rfl
    | false =>
      simp only [List.drop_one,List.tail_cons,ih]
      cases hi : rest.findIdx? (·==messageValueSync) with
      | none => rfl
      | some pos => rfl

theorem codec_implements : codec.Implements decoder where
  again {self src s rest} h := by
    change self.pass src=.again s rest at h
    unfold pass at h
    split at h
    · cases h
    · rename_i first tail
      split_ifs at h with hs hi hb hl he
      · obtain ⟨synced⟩ := self
        obtain rfl : synced=false := hs
        rw [drain_unsynced]
        split at h
        · obtain ⟨rfl,rfl⟩ := Pass.again.inj h
          rfl
        · cases h
      all_goals
        obtain ⟨rfl,rfl⟩ := Pass.again.inj h
        rw [decoder.drain_move (m := ⟨_,none,1⟩)]
        · rfl
      · simp only [decoder,move,if_neg hs,if_pos hi]
      · simp only [decoder,move,if_neg hs,if_neg hi,if_pos hb]
      · simp only [decoder,move,if_neg hs,if_neg hi,if_neg hb,if_neg hl,if_pos he]
  wait {self src s rest} h := by
    change self.pass src=.done none s rest at h
    unfold pass at h
    split at h
    · obtain ⟨-,rfl,rfl⟩ := Pass.done.inj h
      exact decoder.drain_wait rfl
    · rename_i first tail
      split_ifs at h with hs hi hb hl he
      · obtain ⟨synced⟩ := self
        obtain rfl : synced=false := hs
        rw [drain_unsynced]
        split at h
        · cases h
        · obtain ⟨-,rfl,rfl⟩ := Pass.done.inj h
          rfl
      · obtain ⟨-,rfl,rfl⟩ := Pass.done.inj h
        apply decoder.drain_wait
        simp only [decoder,move,if_neg hs,if_neg hi,if_neg hb,if_pos hl]
      · cases h
  item {self src f s rest} h := by
    change self.pass src=.done (some f) s rest at h
    unfold pass at h
    split at h
    · cases h
    · rename_i first tail
      split_ifs at h with hs hi hb hl he
      · split at h <;> cases h
      · cases h
      · obtain ⟨hf,rfl,rfl⟩ := Pass.done.inj h
        obtain rfl := Option.some.inj hf
        rw [decoder.drain_move
          (m := ⟨_,some ((first::tail).take first.toNat),first.toNat⟩)]
        · rfl
        · simp only [decoder,move,if_neg hs,if_neg hi,if_neg hb,if_neg hl,if_neg he]

theorem move_item {self s : KlipperFramer} {xs f : List UInt8} {n : Nat}
    (h : decoder.move self xs=some ⟨s,some f,n⟩) : IsKlipperFrame f ∧ xs.take n=f := by
  change self.move xs=_ at h
  unfold move at h
  split at h
  · cases h
  · rename_i first rest
    split_ifs at h with hs hi hb hl he
    all_goals simp only [Option.some.injEq,Move.mk.injEq,reduceCtorEq,false_and,and_false] at h
    obtain ⟨rfl,rfl,rfl⟩ := h
    exact ⟨isKlipperFrame_take hb hl (not_not.mp he),rfl⟩

/-- In front of a complete frame the synced framer emits it, whatever follows. -/
theorem move_frame (f : KlipperFrame) (ys : List UInt8) :
    decoder.move ⟨true⟩ (f.bytes++ys)=some ⟨⟨true⟩,some f.bytes,f.bytes.length⟩ := by
  obtain ⟨first,rest,hf,hb,hlen,hlast⟩ := f.checks ys
  have hs : first≠messageValueSync := by
    intro h
    exact hb (by rw [h]; decide)
  rw [hf] at hlen hlast ⊢
  change move ⟨true⟩ (first::(rest++ys))=_
  rw [move,if_neg (by simp),if_neg hs,if_neg hb,← List.cons_append,
    if_neg (by rw [List.length_append]; omega),if_neg (not_not.mpr hlast),hlen,List.take_left]

end KlipperFramer

namespace TunnelCodec

/-- The body of the loop of `decode`. The codec has no state of its own. -/
def pass (_self : Unit) (src : List UInt8) : Pass Unit UInt8 TunnelFrame :=
  match src with
  | chId::len::_ =>
    -- Bad length: skip the ch_id byte and try again.
    if BadLength len then .again () (src.drop 1)
    else if src.length<1+len.toNat then .done none () src
    -- Bad trailing sync byte: skip one byte and try again.
    else if src.getD (1+len.toNat-1) 0≠messageValueSync then .again () (src.drop 1)
    else .done (some ⟨chId,(src.drop 1).take len.toNat⟩) () ((src.drop 1).drop len.toNat)
  | _ => .done none () src

/-- Appends to the write buffer. -/
def encode (item : TunnelFrame) (dst : List UInt8) : List UInt8 := dst++item.chId::item.frame

/-- The decision on the first bytes of a stream. -/
def move : List UInt8 → Option (Move Unit TunnelFrame)
  | chId::len::rest =>
    if BadLength len then some ⟨(),none,1⟩
    else if (len::rest).length<len.toNat then none
    else if (len::rest).getD (len.toNat-1) 0≠messageValueSync then some ⟨(),none,1⟩
    else some ⟨(),some ⟨chId,(len::rest).take len.toNat⟩,1+len.toNat⟩
  | _ => none

theorem move_len {xs : List UInt8} {m : Move Unit TunnelFrame} (h : move xs=some m) :
    0 < m.len ∧ m.len ≤ xs.length := by
  unfold move at h
  split at h
  · split_ifs at h with hb hl he
    all_goals obtain rfl := Option.some.inj h
    case neg =>
      rw [List.length_cons]
      exact ⟨by dsimp only; omega,by dsimp only; omega⟩
    all_goals simp
  · cases h

theorem move_stable {xs : List UInt8} {m : Move Unit TunnelFrame} (ys : List UInt8)
    (h : move xs=some m) : move (xs++ys)=some m := by
  unfold move at h
  split at h
  · rename_i chId len rest
    rw [List.cons_append,List.cons_append,move,← List.cons_append]
    split_ifs at h with hb hl he
    · rw [if_pos hb,h]
    all_goals
      have hpos := (not_badLength hb).1
      simp only [messageLengthMin] at hpos
      have hlen : len.toNat ≤ (len::rest).length := by omega
      have hget : ((len::rest)++ys).getD (len.toNat-1) 0=(len::rest).getD (len.toNat-1) 0 :=
        List.getD_append _ _ _ _ (by omega)
      rw [if_neg hb,if_neg (by rw [List.length_append]; omega),hget]
    · rw [if_pos he,h]
    · rw [if_neg he,List.take_append_of_le_length hlen,h]
  · cases h

/-- The tunnel format as an incremental decoder. -/
def decoder : Decoder Unit UInt8 TunnelFrame where
  move _ := move
  lenPos h := (move_len h).1
  lenLe h := (move_len h).2
  stable ys h := move_stable ys h

/-- A pass is a move: skip a byte, wait, or take a frame. -/
theorem pass_eq (self : Unit) (src : List UInt8) :
    pass self src=.ofMove () src (decoder.move () src) := by
  change _=Pass.ofMove () src (move src)
  unfold pass move
  split
  · rename_i chId len rest
    have hshort : (chId::len::rest).length<1+len.toNat ↔ (len::rest).length<len.toNat := by
      simp only [List.length_cons]
      omega
    have hget (h : ¬BadLength len) : (chId::len::rest).getD (1+len.toNat-1) 0=
        (len::rest).getD (len.toNat-1) 0 := by
      have hpos := (not_badLength h).1
      simp only [messageLengthMin] at hpos
      rw [show 1+len.toNat-1=len.toNat-1+1 by omega]
      rfl
    by_cases hb : BadLength len
    · rw [if_pos hb,if_pos hb]
      rfl
    · rw [if_neg hb,if_neg hb,hget hb]
      simp only [hshort]
      split_ifs with hl he
      · rfl
      · rfl
      · rw [Pass.ofMove,List.drop_drop]
        rfl
  · rfl

def codec : Codec Unit UInt8 TunnelFrame := .ofMoves decoder pass pass_eq

theorem codec_implements : codec.Implements decoder := Codec.implements_ofMoves decoder pass pass_eq

theorem move_item {self s : Unit} {xs : List UInt8} {f : TunnelFrame} {n : Nat}
    (h : decoder.move self xs=some ⟨s,some f,n⟩) :
    IsKlipperFrame f.frame ∧ xs.take n=encode f [] := by
  change move xs=_ at h
  unfold move at h
  split at h
  · rename_i chId len rest
    split_ifs at h with hb hl he
    all_goals simp only [Option.some.injEq,Move.mk.injEq,reduceCtorEq,false_and,and_false] at h
    obtain ⟨-,rfl,rfl⟩ := h
    refine ⟨isKlipperFrame_take hb hl (not_not.mp he),?_⟩
    rw [Nat.add_comm,List.take_succ_cons]
    rfl
  · cases h

/-- In front of a tunnel frame the codec emits it, whatever follows. -/
theorem move_frame (chId : UInt8) (f : KlipperFrame) (ys : List UInt8) :
    decoder.move () (encode ⟨chId,f.bytes⟩ []++ys)=
      some ⟨(),some ⟨chId,f.bytes⟩,(encode ⟨chId,f.bytes⟩ []).length⟩ := by
  obtain ⟨first,rest,hf,hb,hlen,hlast⟩ := f.checks ys
  rw [hf] at hlen hlast ⊢
  change move (chId::first::(rest++ys))=some ⟨(),some ⟨chId,first::rest⟩,(first::rest).length+1⟩
  rw [move,if_neg hb,← List.cons_append,if_neg (by rw [List.length_append]; omega),
    if_neg (not_not.mpr hlast),hlen,List.take_left,Nat.add_comm]

end TunnelCodec

inductive EncodeError
  | invalidInput (message : String)
  deriving DecidableEq

namespace PayloadTunnelCodec

/-- The body of `decode`, which has no loop. -/
def pass (_self : Unit) (src : List UInt8) : Pass Unit UInt8 PayloadTunnelFrame :=
  match src with
  | chId::payloadLen::_ =>
    if src.length<2+payloadLen.toNat then .done none () src
    else .done (some ⟨chId,(src.drop 2).take payloadLen.toNat⟩) ()
      ((src.drop 2).drop payloadLen.toNat)
  | _ => .done none () src

/-- Appends to the write buffer; a payload that its length byte cannot count is refused. -/
def encode (item : PayloadTunnelFrame) (dst : List UInt8) : Except EncodeError (List UInt8) :=
  let len := item.payload.length
  if 255<len then
    .error (.invalidInput s!"smart-proxy payload {len} bytes exceeds 255-byte limit")
  else .ok (dst++item.chId::UInt8.ofNat len::item.payload)

/-- The bytes of a frame on the link. -/
def image (f : PayloadTunnelFrame) : List UInt8 :=
  f.chId::UInt8.ofNat f.payload.length::f.payload

theorem encode_fits {item : PayloadTunnelFrame} (h : item.payload.length ≤ 255)
    (dst : List UInt8) : encode item dst=.ok (dst++image item) := if_neg (by omega)

/-- The decision on the first bytes of a stream. -/
def move : List UInt8 → Option (Move Unit PayloadTunnelFrame)
  | chId::payloadLen::rest =>
    if rest.length<payloadLen.toNat then none
    else some ⟨(),some ⟨chId,rest.take payloadLen.toNat⟩,2+payloadLen.toNat⟩
  | _ => none

theorem move_len {xs : List UInt8} {m : Move Unit PayloadTunnelFrame} (h : move xs=some m) :
    0 < m.len ∧ m.len ≤ xs.length := by
  unfold move at h
  split at h
  · split_ifs at h with hl
    obtain rfl := Option.some.inj h
    rw [List.length_cons,List.length_cons]
    exact ⟨by dsimp only; omega,by dsimp only; omega⟩
  · cases h

theorem move_stable {xs : List UInt8} {m : Move Unit PayloadTunnelFrame} (ys : List UInt8)
    (h : move xs=some m) : move (xs++ys)=some m := by
  unfold move at h
  split at h
  · rename_i chId payloadLen rest
    split_ifs at h with hl
    have hlen : payloadLen.toNat ≤ rest.length := by omega
    rw [List.cons_append,List.cons_append,move,if_neg (by rw [List.length_append]; omega),
      List.take_append_of_le_length hlen,h]
  · cases h

/-- The smart-proxy tunnel format as an incremental decoder. -/
def decoder : Decoder Unit UInt8 PayloadTunnelFrame where
  move _ := move
  lenPos h := (move_len h).1
  lenLe h := (move_len h).2
  stable ys h := move_stable ys h

theorem pass_eq (self : Unit) (src : List UInt8) :
    pass self src=.ofMove () src (decoder.move () src) := by
  change _=Pass.ofMove () src (move src)
  unfold pass move
  split
  · rename_i chId payloadLen rest
    have hshort : (chId::payloadLen::rest).length<2+payloadLen.toNat ↔
        rest.length<payloadLen.toNat := by
      simp only [List.length_cons]
      omega
    simp only [hshort]
    split_ifs with hl
    · rfl
    · rw [Pass.ofMove,List.drop_drop]
      rfl
  · rfl

def codec : Codec Unit UInt8 PayloadTunnelFrame := .ofMoves decoder pass pass_eq

theorem codec_implements : codec.Implements decoder := Codec.implements_ofMoves decoder pass pass_eq

/-- In front of a frame that could be encoded the codec emits it, whatever follows. -/
theorem move_frame {f : PayloadTunnelFrame} (h : f.payload.length ≤ 255) (ys : List UInt8) :
    decoder.move () (image f++ys)=some ⟨(),some f,(image f).length⟩ := by
  have hlen : (UInt8.ofNat f.payload.length).toNat=f.payload.length := by
    rw [UInt8.toNat_ofNat']
    omega
  change move (f.chId::UInt8.ofNat f.payload.length::(f.payload++ys))=_
  rw [move,hlen,if_neg (by rw [List.length_append]; omega),List.take_left,Nat.add_comm]
  rfl

end PayloadTunnelCodec

/-- The streaming decoders see the bytes, not the chunks. Whatever the bytes, the frames, the synced
flag and the residue are those of one read of all of them; every call of `decode` returns, within one
pass more than the buffer has bytes; and the frames are complete frames that stand in the bytes in
this order, apart from each other. -/
theorem decoders_chunking (chunks : List (List UInt8)) :
    (KlipperFramer.codec.framedRead .new [] chunks=
        KlipperFramer.codec.framedRead .new [] [chunks.flatten] ∧
      TunnelCodec.codec.framedRead () [] chunks=
        TunnelCodec.codec.framedRead () [] [chunks.flatten]) ∧
    (∀ self src,
      KlipperFramer.codec.passes (src.length+1) self src=some (KlipperFramer.codec.decode self src) ∧
      TunnelCodec.codec.passes (src.length+1) () src=some (TunnelCodec.codec.decode () src)) ∧
    ((∀ f∈(KlipperFramer.codec.framedRead .new [] chunks).1, IsKlipperFrame f) ∧
      ∀ tf∈(TunnelCodec.codec.framedRead () [] chunks).1, IsKlipperFrame tf.frame) ∧
    Scattered (KlipperFramer.codec.framedRead .new [] chunks).1 chunks.flatten ∧
    Scattered ((TunnelCodec.codec.framedRead () [] chunks).1.map (TunnelCodec.encode · []))
      chunks.flatten := by
  have hk (cs : List (List UInt8)) := KlipperFramer.codec_implements.framedRead_eq_drain
    (s := KlipperFramer.new) rfl cs
  have ht (cs : List (List UInt8)) := TunnelCodec.codec_implements.framedRead_eq_drain
    (s := ()) rfl cs
  refine ⟨⟨?_,?_⟩,?_,?_,?_,?_⟩
  · rw [hk,hk,List.flatten_singleton]
  · rw [ht,ht,List.flatten_singleton]
  · intro self src
    have hn : src.length < src.length+1 := Nat.lt_succ_self _
    exact ⟨KlipperFramer.codec.passes_enough self src hn,TunnelCodec.codec.passes_enough () src hn⟩
  · rw [hk,ht]
    exact ⟨KlipperFramer.decoder.drain_items (fun h => (KlipperFramer.move_item h).1) _ _,
      TunnelCodec.decoder.drain_items (fun h => (TunnelCodec.move_item h).1) _ _⟩
  · have h := KlipperFramer.decoder.drain_scattered id (fun h => (KlipperFramer.move_item h).2)
      KlipperFramer.new chunks.flatten
    rw [hk]
    rwa [List.map_id] at h
  · rw [ht]
    exact TunnelCodec.decoder.drain_scattered (TunnelCodec.encode · [])
      (fun h => (TunnelCodec.move_item h).2) () chunks.flatten

end Serialmux.Windlass

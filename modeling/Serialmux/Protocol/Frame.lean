import Mathlib.Data.List.Basic
import Mathlib.Data.Nat.Bitwise
import Mathlib.Logic.Function.Iterate
import Mathlib.Tactic.Common

namespace Serialmux.Protocol

/-- magic(2) + type(1) + channel(1) + length(2 LE). -/
abbrev hdrSize : Nat := 6
abbrev crcSize : Nat := 4
/-- Maximum payload bytes in a single frame. -/
abbrev maxPayload : Nat := 16*1024
/-- Total size of the largest possible frame. -/
abbrev maxFrame : Nat := hdrSize+maxPayload+crcSize

/-- Raw MCU serial data. -/
def fData : UInt8 := 0x01
/-- MCU is resetting; host should close the PTY. -/
def fFlush : UInt8 := 0x02
/-- MCU is ready; host should open the PTY. -/
def fReady : UInt8 := 0x03
/-- Link handshake initiation. -/
def fHello : UInt8 := 0x05
/-- Link handshake acknowledgement. -/
def fAck : UInt8 := 0x06
/-- TCP tunnel: new connection notification. -/
def fTconn : UInt8 := 0x10
/-- TCP tunnel: payload bytes. -/
def fTdata : UInt8 := 0x11
/-- TCP tunnel: connection closed. -/
def fTclose : UInt8 := 0x12
/-- Keepalive probe. -/
def fPing : UInt8 := 0x20
/-- Keepalive reply. -/
def fPong : UInt8 := 0x21

/-- Klipper firmware sync byte. -/
def klipperSync : UInt8 := 0x7E

/-- Pause all channel reads when the TX queue exceeds this many bytes. -/
abbrev linkHighWater : Nat := 512*1024
/-- Resume channel reads when the TX queue drains below this many bytes. -/
abbrev linkLowWater : Nat := 256*1024
/-- TX ring-buffer capacity: high-water + one max frame + guard margin. -/
abbrev linkTxbufSize : Nat := linkHighWater+maxFrame+64
/-- Fixed capacity of the parser buffer. -/
abbrev parserBufCap : Nat := maxFrame+64

/-- What a parser callback receives and what a channel asks the link to carry. -/
structure Frame where
  ftype : UInt8
  channel : UInt8
  payload : List UInt8
  deriving DecidableEq, Repr

/-- A frame `build_frame` does not refuse. -/
structure WireFrame extends Frame where
  fits : payload.length ≤ maxPayload

def u16ToLe (x : UInt16) : List UInt8 := [UInt8.ofNat x.toNat,UInt8.ofNat (x.toNat/2^8)]

def u16OfLe (b0 b1 : UInt8) : UInt16 := UInt16.ofNat (b0.toNat+2^8*b1.toNat)

def u32ToLe (x : UInt32) : List UInt8 :=
  [UInt8.ofNat x.toNat,UInt8.ofNat (x.toNat/2^8),UInt8.ofNat (x.toNat/2^16),
    UInt8.ofNat (x.toNat/2^24)]

def u32OfLe : List UInt8 → UInt32
  | [b0,b1,b2,b3] => UInt32.ofNat (b0.toNat+2^8*b1.toNat+2^16*b2.toNat+2^24*b3.toNat)
  | _ => 0

/-- The length field of a header, as the parser assembles it. -/
def lengthField (b4 b5 : UInt8) : Nat := b4.toNat|||(b5.toNat<<<8)

theorem u16OfLe_u16ToLe (x : UInt16) :
    u16OfLe (UInt8.ofNat x.toNat) (UInt8.ofNat (x.toNat/2^8))=x := by
  apply UInt16.toNat_inj.mp
  have hx := x.toNat_lt
  simp only [u16OfLe,UInt16.toNat_ofNat',UInt8.toNat_ofNat']
  omega

theorem u32OfLe_u32ToLe (x : UInt32) : u32OfLe (u32ToLe x)=x := by
  apply UInt32.toNat_inj.mp
  have hx := x.toNat_lt
  simp only [u32ToLe,u32OfLe,UInt32.toNat_ofNat',UInt8.toNat_ofNat']
  omega

theorem u32ToLe_u32OfLe (bs : List UInt8) (h : bs.length=4) : u32ToLe (u32OfLe bs)=bs := by
  match bs,h with
  | [b0,b1,b2,b3],_ =>
    have h0 := b0.toNat_lt
    have h1 := b1.toNat_lt
    have h2 := b2.toNat_lt
    have h3 := b3.toNat_lt
    simp only [u32ToLe,u32OfLe,UInt32.toNat_ofNat']
    refine List.cons_eq_cons.mpr ⟨?_,List.cons_eq_cons.mpr ⟨?_,List.cons_eq_cons.mpr
      ⟨?_,List.cons_eq_cons.mpr ⟨?_,rfl⟩⟩⟩⟩
    all_goals
      apply UInt8.toNat_inj.mp
      simp only [UInt8.toNat_ofNat']
      omega

theorem u32ToLe_length (x : UInt32) : (u32ToLe x).length=crcSize := rfl

theorem lengthField_eq (b4 b5 : UInt8) : lengthField b4 b5=b4.toNat+2^8*b5.toNat := by
  have h := Nat.shiftLeft_add_eq_or_of_lt b4.toNat_lt b5.toNat
  rw [lengthField,Nat.or_comm,← h,Nat.shiftLeft_eq,Nat.add_comm,Nat.mul_comm]

theorem lengthField_u16ToLe (n : Nat) (h : n<2^16) :
    lengthField (UInt8.ofNat (UInt16.ofNat n).toNat) (UInt8.ofNat ((UInt16.ofNat n).toNat/2^8))=n := by
  rw [lengthField_eq]
  simp only [UInt16.toNat_ofNat',UInt8.toNat_ofNat']
  omega

theorem u16ToLe_lengthField (b4 b5 : UInt8) :
    u16ToLe (UInt16.ofNat (lengthField b4 b5))=[b4,b5] := by
  have h4 := b4.toNat_lt
  have h5 := b5.toNat_lt
  rw [lengthField_eq]
  simp only [u16ToLe,UInt16.toNat_ofNat']
  refine List.cons_eq_cons.mpr ⟨?_,List.cons_eq_cons.mpr ⟨?_,rfl⟩⟩
  all_goals
    apply UInt8.toNat_inj.mp
    simp only [UInt8.toNat_ofNat']
    omega

/-- One step of the reflected CRC-32 with polynomial 0xEDB88320. -/
def crc32Bit (c : UInt32) : UInt32 := if c&&&1=1 then (0xEDB88320 : UInt32)^^^(c>>>1) else c>>>1

/-- The CRC of the link, bit by bit; `crc32fast::hash` computes it. -/
def crc32 (bs : List UInt8) : UInt32 :=
  (bs.foldl (fun c b => crc32Bit^[8] (c^^^b.toUInt32)) 0xFFFFFFFF)^^^0xFFFFFFFF

example : crc32 [0x31,0x32,0x33,0x34,0x35,0x36,0x37,0x38,0x39]=0xCBF43926 := by
  decide +kernel

section Build

-- crc32fast::hash, of which only its being a function of the bytes is used.
variable (crc : List UInt8 → UInt32)

/-- Layout: `[0xAA 0x55][ftype][channel][len_lo][len_hi][payload…][crc0..crc3]`;
an oversize payload builds nothing. -/
def buildFrame (ftype channel : UInt8) (payload : List UInt8) : List UInt8 :=
  if maxPayload<payload.length then []
  else
    [0xAA,0x55,ftype,channel]++u16ToLe (UInt16.ofNat payload.length)++payload++
      u32ToLe (crc payload)

def Frame.build (f : Frame) : List UInt8 := buildFrame crc f.ftype f.channel f.payload

/-- The bytes of a sequence of frames on the link. -/
def encodeFrames (fs : List Frame) : List UInt8 := (fs.map (Frame.build crc)).flatten

theorem buildFrame_fits (ftype channel : UInt8) (payload : List UInt8)
    (h : payload.length ≤ maxPayload) :
    buildFrame crc ftype channel payload=
      0xAA::0x55::ftype::channel::UInt8.ofNat (UInt16.ofNat payload.length).toNat::
        UInt8.ofNat ((UInt16.ofNat payload.length).toNat/2^8)::(payload++u32ToLe (crc payload)) := by
  rw [buildFrame,if_neg (by omega)]
  simp [u16ToLe]

theorem buildFrame_length (ftype channel : UInt8) (payload : List UInt8)
    (h : payload.length ≤ maxPayload) :
    (buildFrame crc ftype channel payload).length=hdrSize+payload.length+crcSize := by
  rw [buildFrame_fits crc _ _ _ h]
  simp only [List.length_cons,List.length_append,u32ToLe_length,hdrSize]
  omega

theorem buildFrame_length_le (ftype channel : UInt8) (payload : List UInt8) :
    (buildFrame crc ftype channel payload).length≤hdrSize+payload.length+crcSize := by
  by_cases h : payload.length ≤ maxPayload
  · exact (buildFrame_length crc ftype channel payload h).le
  · rw [buildFrame,if_pos (by omega)]
    simp

@[simp] theorem encodeFrames_nil : encodeFrames crc []=[] := rfl

@[simp] theorem encodeFrames_cons (f : Frame) (fs : List Frame) :
    encodeFrames crc (f::fs)=f.build crc++encodeFrames crc fs := rfl

@[simp] theorem encodeFrames_append (fs gs : List Frame) :
    encodeFrames crc (fs++gs)=encodeFrames crc fs++encodeFrames crc gs := by
  simp [encodeFrames]

/-- The number of bytes of a sequence of frames on the link. -/
def wireSize (fs : List Frame) : Nat := (fs.map (fun f => hdrSize+f.payload.length+crcSize)).sum

@[simp] theorem wireSize_nil : wireSize []=0 := rfl

@[simp] theorem wireSize_cons (f : Frame) (fs : List Frame) :
    wireSize (f::fs)=hdrSize+f.payload.length+crcSize+wireSize fs := rfl

@[simp] theorem wireSize_append (fs gs : List Frame) :
    wireSize (fs++gs)=wireSize fs+wireSize gs := by
  simp [wireSize]

theorem encodeFrames_length {fs : List Frame} (h : ∀f∈fs,f.payload.length ≤ maxPayload) :
    (encodeFrames crc fs).length=wireSize fs := by
  induction fs with
  | nil => rfl
  | cons f fs ih =>
    obtain ⟨hf,hfs⟩ := List.forall_mem_cons.mp h
    rw [encodeFrames_cons,List.length_append,ih hfs,wireSize_cons,Frame.build,
      buildFrame_length crc _ _ _ hf]

end Build

end Serialmux.Protocol

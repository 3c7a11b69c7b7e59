import Serialmux.Framework.Crc
import Serialmux.Reference.Enqueue

namespace Serialmux.Reference

open Framework Protocol

/-- One entry of `g_crc32_tbl` for each byte. -/
abbrev CrcTable := Vector UInt32 256

/-- The inner loop's step. -/
def crc32Step (c : UInt32) : UInt32 := if c&&&1≠0 then (0xEDB88320 : UInt32)^^^(c>>>1) else c>>>1

/-- Every entry of the table is written, whatever was there. -/
def crc32Init (tbl : CrcTable) : CrcTable :=
  (List.finRange 256).foldl (fun tbl i => tbl.set i.val (crc32Step^[8] (UInt32.ofNat i.val))) tbl

/-- No byte and no register lead out of the table. -/
def crcIndex (crc : UInt32) (b : UInt8) : Fin 256 :=
  ⟨((crc^^^b.toUInt32)&&&0xFF).toNat,by
    rw [UInt32.toNat_and]
    exact Nat.and_lt_two_pow (n := 8) _ (by decide)⟩

def crc32Buf (tbl : CrcTable) (data : List UInt8) : UInt32 :=
  (data.foldl (fun crc b => tbl[crcIndex crc b] ^^^ (crc>>>8)) 0xFFFFFFFF)^^^0xFFFFFFFF

theorem and_one (c : UInt32) : c&&&1=if c.toBitVec.getLsbD 0 then 1 else 0 := by
  rw [← UInt32.toBitVec_inj,UInt32.toBitVec_and]
  change c.toBitVec&&&1#32=_
  rw [BitVec.and_one_eq_setWidth_ofBool_getLsbD]
  cases c.toBitVec.getLsbD 0 <;> rfl

theorem crc32Step_eq (c : UInt32) : crc32Step c=crc32Bit c := by
  unfold crc32Step crc32Bit
  rw [and_one]
  cases c.toBitVec.getLsbD 0 <;> rfl

/-- The step is the shift of the CRC with this polynomial. -/
theorem crc32Bit_toBitVec (c : UInt32) : (crc32Bit c).toBitVec=crcShift 0xEDB88320#32 c.toBitVec := by
  unfold crc32Bit crcShift
  rw [and_one]
  cases c.toBitVec.getLsbD 0 <;> rfl

theorem iterate_crc32Bit_toBitVec (n : Nat) (c : UInt32) :
    (crc32Bit^[n] c).toBitVec=(crcShift 0xEDB88320#32)^[n] c.toBitVec :=
  (Function.Semiconj.iterate_right (f := UInt32.toBitVec) crc32Bit_toBitVec n) c

section Table

-- A loop that writes some entries of a table, each with a value of its own.
variable (f : Fin 256 → UInt32) {is : List (Fin 256)} (tbl : CrcTable) {i : Fin 256}

theorem foldl_set_other (h : i∉is) :
    (is.foldl (fun tbl i => tbl.set i.val (f i)) tbl)[i]=tbl[i] := by
  induction is generalizing tbl with
  | nil => rfl
  | cons j is ih =>
    rw [List.mem_cons,not_or] at h
    obtain ⟨hj,hi⟩ := h
    rw [List.foldl_cons,ih _ hi,Fin.getElem_fin,Fin.getElem_fin,
      Vector.getElem_set_ne _ _ (fun he => hj (Fin.ext he.symm))]

theorem foldl_set_mem (h : i∈is) : (is.foldl (fun tbl i => tbl.set i.val (f i)) tbl)[i]=f i := by
  induction is generalizing tbl with
  | nil => exact absurd h List.not_mem_nil
  | cons j is ih =>
    by_cases hi : i∈is
    · exact ih _ hi
    · obtain rfl : i=j := (List.mem_cons.mp h).resolve_right hi
      rw [List.foldl_cons,foldl_set_other f _ hi,Fin.getElem_fin,Vector.getElem_set_self]

end Table

/-- After the loop each entry holds eight steps of its index. -/
theorem crc32Init_get (tbl : CrcTable) (i : Fin 256) :
    (crc32Init tbl)[i]=crc32Bit^[8] (UInt32.ofNat i.val) := by
  have hstep : crc32Step=crc32Bit := funext crc32Step_eq
  rw [crc32Init,hstep]
  exact foldl_set_mem (fun i => crc32Bit^[8] (UInt32.ofNat i.val)) tbl (List.mem_finRange i)

theorem crcIndex_toBitVec (crc : UInt32) (b : UInt8) :
    (UInt32.ofNat (crcIndex crc b).val).toBitVec=
      ((crc^^^b.toUInt32).toBitVec.setWidth 8).setWidth 32 := by
  apply BitVec.eq_of_toNat_eq
  have hlt := (crcIndex crc b).isLt
  have hval : (crcIndex crc b).val=(crc^^^b.toUInt32).toNat%2^8 :=
    (UInt32.toNat_and _ _).trans (Nat.and_two_pow_sub_one_eq_mod _ 8)
  rw [BitVec.toNat_setWidth,BitVec.toNat_setWidth,UInt32.toNat_toBitVec,UInt32.toNat_toBitVec,
    UInt32.toNat_ofNat',← hval]

/-- A byte is gone after eight shifts. -/
theorem toUInt32_shift (b : UInt8) : b.toUInt32>>>8=0 := by
  have hb := b.toNat_lt
  apply UInt32.toNat_inj.mp
  rw [UInt32.toNat_shiftRight,UInt8.toNat_toUInt32]
  change b.toNat>>>8=0
  rw [Nat.shiftRight_eq_div_pow]
  omega

/-- Eight steps of a register into which a byte has come are one look at the table. -/
theorem table_step (tbl : CrcTable) (crc : UInt32) (b : UInt8) :
    (crc32Init tbl)[crcIndex crc b] ^^^ (crc>>>8)=crc32Bit^[8] (crc^^^b.toUInt32) := by
  have hrest : (crc^^^b.toUInt32)>>>8=crc>>>8 := by
    rw [UInt32.shiftRight_xor,toUInt32_shift,UInt32.xor_zero]
  rw [← UInt32.toBitVec_inj,crc32Init_get,iterate_crc32Bit_toBitVec,iterate_crcShift_split,
    UInt32.toBitVec_xor,iterate_crc32Bit_toBitVec,crcIndex_toBitVec,← hrest]
  rfl

theorem crc32Buf_eq (tbl : CrcTable) (data : List UInt8) :
    crc32Buf (crc32Init tbl) data=crc32 data := by
  simp only [crc32Buf,table_step,crc32]

/-- The C daemon leaves out the CRC of an empty payload, which is zero. -/
theorem trailer_eq (tbl : CrcTable) (f : Frame) :
    trailer (crc32Buf (crc32Init tbl)) f=u32ToLe (crc32 f.payload) := by
  unfold trailer
  split_ifs with h0
  · rw [List.eq_nil_of_length_eq_zero h0]
    rfl
  · rw [crc32Buf_eq]

theorem header_eq (f : Frame) (h : f.payload.length ≤ maxPayload) :
    header f=[0xAA,0x55,f.ftype,f.channel]++u16ToLe (UInt16.ofNat f.payload.length) := by
  have hlo : UInt8.ofNat (f.payload.length&&&0xFF)=UInt8.ofNat f.payload.length := by
    apply UInt8.toNat_inj.mp
    have hand : f.payload.length&&&0xFF=f.payload.length%2^8 := Nat.and_two_pow_sub_one_eq_mod _ 8
    rw [UInt8.toNat_ofNat',UInt8.toNat_ofNat',hand,Nat.mod_mod]
  have hlen : (UInt16.ofNat f.payload.length).toNat=f.payload.length := by
    rw [UInt16.toNat_ofNat']
    exact Nat.mod_eq_of_lt (h.trans_lt (by decide))
  rw [header,u16ToLe,hlen,hlo,Nat.shiftRight_eq_div_pow]
  rfl

/-- The three parts are the frame that Rust builds. -/
theorem frameBytes_eq (tbl : CrcTable) (f : Frame) (h : f.payload.length ≤ maxPayload) :
    frameBytes (crc32Buf (crc32Init tbl)) f=f.build crc32 := by
  rw [frameBytes,header_eq f h,trailer_eq,Frame.build,buildFrame,if_neg (by omega)]

/-- With room in the ring, `enqueue_frame` appends the bytes of `build_frame`: for every string of
bytes the table gives the CRC that is computed bit by bit. -/
theorem enqueue_builds (tbl : CrcTable) (d : Daemon) (clock : Millis) (ftype channel : UInt8)
    (payload : List UInt8) (hsize : d.txq.buf.length=linkTxbufSize) (hhead : d.txq.head<linkTxbufSize)
    (htail : d.txq.tail<linkTxbufSize) (hlen : payload.length ≤ maxPayload)
    (hroom : Fits d.txq.used payload.length) :
    (∀bs,crc32Buf (crc32Init tbl) bs=crc32 bs) ∧
    ∃d',enqueueFrame (crc32Buf (crc32Init tbl)) d clock ftype channel payload=some d' ∧
      d'.txq.contents=d.txq.contents++buildFrame crc32 ftype channel payload := by
  refine ⟨crc32Buf_eq tbl,?_⟩
  have ht : d.txq.Rep ⟨d.txq.buf,d.txq.head,d.txq.tail,hsize,hhead,htail⟩ := ⟨rfl,rfl,rfl⟩
  obtain ⟨d',hd',-⟩ := enqueueFrame_yields (crc32Buf (crc32Init tbl)) ht clock ftype channel
    (hlen.trans_lt (by decide))
  obtain ⟨-,-,-,hpushed⟩ := enqueueFrame_allows clock ftype channel payload d' hd'
  refine ⟨d',hd',?_⟩
  rw [ht.used_eq] at hroom
  have hpush := Fits.contents (crc32Buf (crc32Init tbl)) (f := ⟨ftype,channel,payload⟩) hroom
  rw [(hpushed.ring _ ht).contents,pushFrames_one,hpush,ht.contents,frameBytes_eq tbl ⟨ftype,channel,payload⟩ hlen,
    Frame.build]

theorem enqueue_builds_first :
    let table := crc32Init (Vector.replicate 256 0)
    let d := daemonInit (fun _ => none) (fun _ => .idle)
    ∃d',enqueueFrame (crc32Buf table) d 1 fData 3 [0x31,0x32]=some d' ∧
      d'.txq.contents=d.txq.contents++buildFrame crc32 fData 3 [0x31,0x32] :=
  (enqueue_builds (Vector.replicate 256 0) (daemonInit (fun _ => none) (fun _ => .idle)) 1 fData 3
    [0x31,0x32] List.length_replicate (by decide) (by decide) (by decide) (by decide)).2

end Serialmux.Reference

import Serialmux.Framework.Vlq
import Serialmux.Windlass.SmartHost

namespace Serialmux.Windlass

open Framework

/-- An addition of two `usize` of `w` bits; it wraps. -/
def usizeAdd (w a b : Nat) : Nat := (a+b)%2^w

/-- `&xs[start..stop]`. A range that is not in order or leads out of xs panics. -/
def sliceRange (xs : List UInt8) (start stop : Nat) : Option (List UInt8) :=
  if start ≤ stop ∧ stop ≤ xs.length then some ((xs.take stop).drop start) else none

section Dispatch

variable {τ : Type} (anchor : Anchor τ) (w : Nat) (dictionary : List UInt8)

/-- The end of the chunk is clamped, its start is not. -/
def identifyChunk (offset count : Nat) : Option (List UInt8) :=
  let stop := min (usizeAdd w offset count) dictionary.length
  if offset ≤ dictionary.length then sliceRange dictionary offset stop else some []

/-- `[cmd=0 VLQ][offset VLQ][data_len VLQ][data bytes]`. -/
def identifyResponse (offset : Nat) (chunk : List UInt8) : List UInt8 :=
  anchor.writeU32 0++anchor.writeU32 offset++anchor.writeU32 (chunk.length%2^32)++chunk

/-- `dispatch` where `usize` has `w` bits; `none` is a panic. -/
def dispatchOn (cmd : Nat) (frame : List UInt8) (ctx : ProxyContext) :
    Option (Option (List UInt8) × ProxyContext) :=
  if cmd≠cmdIdentify then some (some frame,ctx)
  else
    match anchor.readU32 frame with
    | none => some (none,ctx)
    | some (offset,frame) =>
      match anchor.readU8 frame with
      | none => some (none,ctx)
      | some (count,frame) => do
        let chunk ← identifyChunk w dictionary offset count
        let resp := identifyResponse anchor offset chunk
        return (some frame,{ctx with pendingResponses := ctx.pendingResponses++[resp]})

def dispatchRawOn (frame : List UInt8) (ctx : ProxyContext) :
    Option (Option (List UInt8) × ProxyContext) :=
  match anchor.readU16 frame with
  | none => some (none,ctx)
  | some (cmd,rest) =>
    if cmd=cmdIdentify then dispatchOn anchor w dictionary cmd rest ctx
    else some (some [],{ctx with toExporter := ctx.toExporter++[frame]})

/-- What Klipper sends. -/
def identifyRequest (offset count : Nat) : List UInt8 :=
  anchor.writeU32 cmdIdentify++anchor.writeU32 offset++anchor.writeU32 count

/-- What Klipper reads in a response: the offset and as many bytes as the length field says. -/
def readResponse (resp : List UInt8) : Option (Nat × List UInt8) := do
  let (cmd,resp) ← anchor.readU32 resp
  let (offset,resp) ← anchor.readU32 resp
  let (len,data) ← anchor.readU32 resp
  guard (cmd=0 ∧ data.length=len)
  return (offset,data)

/-- Klipper's loop: it asks for the next chunk until one is empty. `none` is a panic, a response that
is missing or cannot be read, or a loop that goes on for longer than `fuel` requests. -/
def fetch (count : Nat) : Nat → Nat → Option (List UInt8)
  | 0,_ => none
  | fuel+1,offset => do
    let (_,ctx) ← dispatchRawOn anchor w dictionary (identifyRequest anchor offset count) ⟨[],[]⟩
    let [resp] := ctx.pendingResponses | none
    let (echo,data) ← readResponse anchor resp
    guard (echo=offset)
    if data=[] then return []
    else
      let rest ← fetch count fuel (offset+data.length)
      return data++rest

/-- The bytes that are asked for, as far as there are any. -/
def identifyData (offset count : Nat) : List UInt8 :=
  if offset<dictionary.length then (dictionary.take (min (offset+count) dictionary.length)).drop offset
  else []

/-- Reading is the inverse of writing. -/
structure Anchor.Vlq : Prop where
  readU8 : ∀n rest,n<2^8 → anchor.readU8 (anchor.writeU32 n++rest)=some (n,rest)
  readU16 : ∀n rest,n<2^16 → anchor.readU16 (anchor.writeU32 n++rest)=some (n,rest)
  readU32 : ∀n rest,n<2^32 → anchor.readU32 (anchor.writeU32 n++rest)=some (n,rest)

theorem identifyData_eq (offset count : Nat) :
    identifyData dictionary offset count=(dictionary.drop offset).take count := by
  unfold identifyData
  split_ifs with h
  · rw [← List.take_take,List.take_length,List.drop_take,Nat.add_sub_cancel_left]
  · rw [List.drop_eq_nil_of_le (by omega),List.take_nil]

/-- At the very end the slice is empty. -/
theorem identifyData_of_le (offset count : Nat) :
    identifyData dictionary offset count=
      if offset ≤ dictionary.length then
        (dictionary.take (min (offset+count) dictionary.length)).drop offset
      else [] := by
  unfold identifyData
  split_ifs with hlt hle hle
  · rfl
  · omega
  · exact (List.drop_eq_nil_of_le (by rw [List.length_take]; omega)).symm
  · rfl

theorem identifyData_length (offset count : Nat) :
    (identifyData dictionary offset count).length ≤ count := by
  rw [identifyData_eq,List.length_take]
  exact Nat.min_le_left ..

/-- A chunk and what is asked for after it are what was left. -/
theorem identifyData_append (offset count : Nat) :
    identifyData dictionary offset count++
      dictionary.drop (offset+(identifyData dictionary offset count).length)=
        dictionary.drop offset := by
  rw [identifyData_eq,List.length_take,← List.drop_drop,List.take_eq_take_min,List.take_append_drop]

variable {w dictionary}

/-- No slice panics: a sum that wraps starts behind the dictionary. -/
theorem identifyChunk_eq (hw : w=32 ∨ w=64) (hd : dictionary.length<2^32-255) {offset count : Nat}
    (ho : offset<2^32) (hc : count<2^8) :
    identifyChunk w dictionary offset count=some (identifyData dictionary offset count) := by
  rw [identifyChunk,identifyData_of_le]
  split_ifs with hin
  · have hlt : offset+count<2^w := by
      rcases hw with rfl|rfl <;> omega
    have hsum : usizeAdd w offset count=offset+count := Nat.mod_eq_of_lt hlt
    rw [hsum,sliceRange,if_pos (by omega)]
  · rfl

variable {anchor}

theorem readResponse_eq (h : anchor.Vlq) {offset : Nat} (ho : offset<2^32) {chunk : List UInt8}
    (hc : chunk.length<2^32) :
    readResponse anchor (identifyResponse anchor offset chunk)=some (offset,chunk) := by
  have hlen : chunk.length%2^32=chunk.length := Nat.mod_eq_of_lt hc
  unfold readResponse identifyResponse
  rw [hlen,List.append_assoc,List.append_assoc,h.readU32 0 _ (by decide)]
  simp only [Option.bind_eq_bind,Option.bind_some]
  rw [h.readU32 offset _ ho,Option.bind_some,h.readU32 chunk.length _ hc]
  simp [guard]

/-- On every frame that carries an offset and a count, `dispatch` pushes one response. -/
theorem dispatchOn_eq (hw : w=32 ∨ w=64) (hd : dictionary.length<2^32-255)
    {frame mid rest : List UInt8} {offset count : Nat} (hoff : anchor.readU32 frame=some (offset,mid))
    (hcnt : anchor.readU8 mid=some (count,rest)) (ho : offset<2^32) (hc : count<2^8)
    (ctx : ProxyContext) :
    dispatchOn anchor w dictionary cmdIdentify frame ctx=some (some rest,{ctx with
      pendingResponses := ctx.pendingResponses++
        [identifyResponse anchor offset (identifyData dictionary offset count)]}) := by
  unfold dispatchOn
  rw [if_neg (not_not_intro rfl),hoff]
  simp only [hcnt,identifyChunk_eq hw hd ho hc]
  rfl

/-- Where the reads give values of their types, no call panics, and `dispatch` needs no machine. -/
theorem dispatchOn_dispatch (hw : w=32 ∨ w=64) (hd : dictionary.length<2^32-255)
    (hu32 : ∀bs offset rest,anchor.readU32 bs=some (offset,rest) → offset<2^32)
    (hu8 : ∀bs count rest,anchor.readU8 bs=some (count,rest) → count<2^8) (cmd : Nat)
    (frame : List UInt8) (ctx : ProxyContext) :
    dispatchOn anchor w dictionary cmd frame ctx=some (dispatch anchor dictionary cmd frame ctx) := by
  by_cases hcmd : cmd≠cmdIdentify
  · rw [dispatchOn,dispatch,if_pos hcmd,if_pos hcmd]
  obtain rfl := not_not.mp hcmd
  cases hoff : anchor.readU32 frame with
  | none =>
    rw [dispatchOn,dispatch,if_neg hcmd,if_neg hcmd]
    simp only [hoff]
  | some r =>
    obtain ⟨offset,mid⟩ := r
    cases hcnt : anchor.readU8 mid with
    | none =>
      rw [dispatchOn,dispatch,if_neg hcmd,if_neg hcmd]
      simp only [hoff,hcnt]
    | some r =>
      obtain ⟨count,rest⟩ := r
      have ho := hu32 _ _ _ hoff
      have hc := hu8 _ _ _ hcnt
      have hlen := identifyData_length dictionary offset count
      have hfits := Nat.mod_eq_of_lt (hlen.trans_lt (by omega : count<2^32))
      rw [dispatchOn_eq hw hd hoff hcnt ho hc,dispatch,if_neg hcmd]
      simp only [hoff,hcnt,← identifyData_of_le,identifyResponse,hfits]

theorem fetch_eq (h : anchor.Vlq) (hw : w=32 ∨ w=64) (hd : dictionary.length<2^32-255) {count : Nat}
    (h0 : 1 ≤ count) (h255 : count ≤ 255) (fuel offset : Nat) (ho : offset ≤ dictionary.length)
    (hfuel : dictionary.length-offset<fuel) :
    fetch anchor w dictionary count fuel offset=some (dictionary.drop offset) := by
  induction fuel generalizing offset with
  | zero => omega
  | succ fuel ih =>
    have hreq : dispatchRawOn anchor w dictionary (identifyRequest anchor offset count) ⟨[],[]⟩=
        some (some [],⟨[],[identifyResponse anchor offset (identifyData dictionary offset count)]⟩) := by
      unfold dispatchRawOn identifyRequest
      rw [List.append_assoc,h.readU16 cmdIdentify _ (by decide)]
      have hoff := h.readU32 offset (anchor.writeU32 count) (by omega)
      have hcnt := h.readU8 count [] (by omega)
      rw [List.append_nil] at hcnt
      exact dispatchOn_eq hw hd hoff hcnt (by omega) (by omega) ⟨[],[]⟩
    have hlen := identifyData_length dictionary offset count
    have hresp : readResponse anchor (identifyResponse anchor offset
        (identifyData dictionary offset count))=some (offset,identifyData dictionary offset count) :=
      readResponse_eq h (by omega) (by omega)
    unfold fetch
    rw [hreq]
    simp only [Option.bind_eq_bind,Option.bind_some,hresp,guard,if_true,Option.pure_def]
    have hdata := identifyData_eq dictionary offset count
    by_cases hend : identifyData dictionary offset count=[]
    · rw [if_pos hend]
      rw [hend,eq_comm,List.take_eq_nil_iff] at hdata
      rw [hdata.resolve_left (by omega)]
    · have hcut : (identifyData dictionary offset count).length=min count (dictionary.length-offset) := by
        rw [hdata,List.length_take,List.length_drop]
      have hpos := List.length_pos_iff.mpr hend
      have hrest := identifyData_append dictionary offset count
      rw [if_neg hend,ih _ (by omega) (by omega),Option.bind_some,hrest]

variable (anchor)

/-- Local identify gives Klipper the dictionary, whatever the width of `usize`: every request with an
offset and a count is answered without a panic by one response, which echoes the offset and carries
the bytes of the dictionary that were asked for, as long as its length field says; and the loop that
asks chunk after chunk, from the start until one is empty, ends with the dictionary. -/
theorem identify_reproduces (h : anchor.Vlq) (hw : w=32 ∨ w=64) (hd : dictionary.length<2^32-255) :
    (∀frame mid rest offset count ctx,anchor.readU32 frame=some (offset,mid) →
      anchor.readU8 mid=some (count,rest) → offset<2^32 → count<2^8 →
      ∃resp,dispatchOn anchor w dictionary cmdIdentify frame ctx=
          some (some rest,{ctx with pendingResponses := ctx.pendingResponses++[resp]}) ∧
        readResponse anchor resp=some (offset,
          if offset<dictionary.length then
            (dictionary.take (min (offset+count) dictionary.length)).drop offset
          else [])) ∧
    ∀count,1 ≤ count → count ≤ 255 → ∀fuel,dictionary.length<fuel →
      fetch anchor w dictionary count fuel 0=some dictionary := by
  refine ⟨?_,fun count h0 h255 fuel hfuel => ?_⟩
  · intro frame mid rest offset count ctx hoff hcnt ho hc
    have hlen := identifyData_length dictionary offset count
    exact ⟨_,dispatchOn_eq hw hd hoff hcnt ho hc ctx,readResponse_eq h ho (by omega)⟩
  · exact fetch_eq h hw hd h0 h255 fuel 0 (Nat.zero_le _) hfuel

end Dispatch

/-- An anchor whose numbers are VLQs of 32 bits, cut to the type that is read. -/
def vlqAnchor : Anchor Unit where
  start := ()
  receive _ _ buf := ⟨(),buf,[],[]⟩
  encodeFrame s p := (s,p)
  readU8 bs := (vlqRead bs).map (fun r => (r.1%2^8,r.2))
  readU16 bs := (vlqRead bs).map (fun r => (r.1%2^16,r.2))
  readU32 := vlqRead
  writeU32 := vlqWrite

theorem vlqAnchor_vlq : vlqAnchor.Vlq where
  readU8 n rest h := by
    have hread := vlqRead_write (n := n) (by omega) rest
    simp only [vlqAnchor,hread,Option.map_some,Nat.mod_eq_of_lt h]
  readU16 n rest h := by
    have hread := vlqRead_write (n := n) (by omega) rest
    simp only [vlqAnchor,hread,Option.map_some,Nat.mod_eq_of_lt h]
  readU32 _ rest h := vlqRead_write h rest

theorem identify_reproduces_three :
    fetch vlqAnchor 64 [0x78,0x9C,0x03] 2 4 0=some [0x78,0x9C,0x03] :=
  (identify_reproduces vlqAnchor vlqAnchor_vlq (.inr rfl) (by decide)).2 2 (by decide) (by decide) 4
    (by decide)

end Serialmux.Windlass

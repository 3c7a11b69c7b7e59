import Mathlib.Data.List.Basic
import Mathlib.Tactic.Common
import Serialmux.Channel.Io

namespace Serialmux.Cli

open Channel

/-- A `str` is its characters. -/
abbrev Str := List Char

def mcu : Str := ['m','c','u']

def tcp : Str := ['t','c','p']

/-- Parsed channel specification from the CLI. -/
inductive ChannelSpec
  | mcuExporter (id : UInt8) (device : Str) (baud : UInt32)
  | mcuHost (id : UInt8) (symlink : Str) (baud : UInt32)
  | tcpExporter (id : UInt8) (bindAddr : Str) (port : UInt16)
  | tcpHost (id : UInt8) (destAddr : Str) (port : UInt16)
  deriving DecidableEq

section Numbers

variable (w : Nat)

/-- A digit comes behind those that were read; none that is not a digit, and none that overflows. -/
def pushDigit (n : Nat) (c : Char) : Option Nat :=
  if c.isDigit=true ∧ 10*n+(c.toNat-48)<2^w then some (10*n+(c.toNat-48)) else none

def stripPlus : Str → Str
  | '+'::digits => digits
  | raw => raw

/-- `str::parse` for an unsigned integer of `w` bits: decimal digits, with or without a plus sign. -/
def parseUint (raw : Str) : Option Nat :=
  if stripPlus raw=[] then none else (stripPlus raw).foldlM (pushDigit w) 0

def digitsValue (digits : Str) : Nat := digits.foldl (fun n c => 10*n+(c.toNat-48)) 0

/-- A decimal literal of a number as `str::parse` reads it: a plus sign may stand before the digits,
and leading zeros count for nothing. -/
def Literal (raw : Str) (n : Nat) : Prop :=
  ∃digits,digits≠[] ∧ (∀c∈digits,c.isDigit=true) ∧ (raw=digits ∨ raw = '+'::digits) ∧
    digitsValue digits=n

theorem foldl_digits_ge (digits : Str) (n : Nat) :
    n ≤ digits.foldl (fun n c => 10*n+(c.toNat-48)) n := by
  induction digits generalizing n with
  | nil => exact le_rfl
  | cons c digits ih =>
    have h := ih (10*n+(c.toNat-48))
    rw [List.foldl_cons]
    omega

theorem foldlM_pushDigit (digits : Str) {acc : Nat} (hacc : acc<2^w) (n : Nat) :
    digits.foldlM (pushDigit w) acc=some n ↔
      (∀c∈digits,c.isDigit=true) ∧ digits.foldl (fun n c => 10*n+(c.toNat-48)) acc=n ∧ n<2^w := by
  induction digits generalizing acc with
  | nil =>
    simp only [List.foldlM_nil,List.foldl_nil,Option.pure_def,Option.some.injEq]
    exact ⟨fun h => ⟨nofun,h,h ▸ hacc⟩,fun h => h.2.1⟩
  | cons c digits ih =>
    have hge := foldl_digits_ge digits (10*acc+(c.toNat-48))
    rw [List.foldlM_cons,List.foldl_cons,pushDigit]
    split_ifs with hc
    · rw [Option.bind_eq_bind,Option.bind_some,ih hc.2]
      simp only [List.forall_mem_cons,hc.1,true_and]
    · refine ⟨nofun,fun ⟨hall,hval,hn⟩ => absurd ?_ hc⟩
      exact ⟨hall c List.mem_cons_self,by omega⟩

theorem stripPlus_cases (raw : Str) : raw=stripPlus raw ∨ raw = '+'::stripPlus raw := by
  unfold stripPlus
  split
  · exact .inr rfl
  · exact .inl rfl

/-- A plus sign is no digit. -/
theorem stripPlus_digits {digits : Str} (h : ∀c∈digits,c.isDigit=true) : stripPlus digits=digits := by
  rcases stripPlus_cases digits with heq|heq
  · exact heq.symm
  · rw [heq] at h
    exact absurd (h '+' List.mem_cons_self) (by decide)

/-- Exactly the literals of numbers of `w` bits are read. -/
theorem parseUint_iff (raw : Str) (n : Nat) : parseUint w raw=some n ↔ Literal raw n ∧ n<2^w := by
  have hfold := foldlM_pushDigit w (stripPlus raw) (Nat.two_pow_pos w) n
  unfold parseUint
  constructor
  · intro h
    split_ifs at h with hnil
    obtain ⟨hall,hval,hn⟩ := hfold.mp h
    exact ⟨⟨_,hnil,hall,stripPlus_cases raw,hval⟩,hn⟩
  · intro ⟨⟨digits,hne,hall,hraw,hval⟩,hn⟩
    have hstrip : stripPlus raw=digits := by
      rcases hraw with rfl|rfl
      · exact stripPlus_digits hall
      · rfl
    rw [hstrip] at hfold ⊢
    rw [if_neg hne]
    exact hfold.mpr ⟨hall,hval,hn⟩

variable {w}

theorem literal_iff_of_some {raw : Str} {n m : Nat} (h : parseUint w raw=some n) (hm : m<2^w) :
    Literal raw m ↔ m=n := by
  have hparse := parseUint_iff w raw m
  rw [h,Option.some.injEq] at hparse
  exact ⟨fun hlit => (hparse.mpr ⟨hlit,hm⟩).symm,fun he => (hparse.mp he.symm).1⟩

theorem not_literal_of_none {raw : Str} {m : Nat} (h : parseUint w raw=none) (hm : m<2^w) :
    ¬Literal raw m := by
  intro hlit
  have hsome := (parseUint_iff w raw m).mpr ⟨hlit,hm⟩
  rw [h] at hsome
  exact nomatch hsome

end Numbers

section Parse

-- `{:?}` of a `str`.
variable (quote : Str → String)

def parseStandardBaud (raw spec : Str) (validBauds : List UInt32) : Except String UInt32 :=
  match parseUint 32 raw with
  | none => .error ("baud in "++quote spec++" is not a number")
  | some n =>
    let baud := UInt32.ofNat n
    if baud∉validBauds then
      .error ("baud "++toString baud++" in "++quote spec++" is not a standard value")
    else .ok baud

def parseTcpPort (raw : Option Str) (spec : Str) : Except String UInt16 :=
  match raw with
  | none => .error ("tcp spec "++quote spec++": need tcp:<id>:<addr>:<port>")
  | some raw =>
    match parseUint 16 raw with
    | none => .error ("port in "++quote spec++" must be 1-65535")
    | some n =>
      let port := UInt16.ofNat n
      if port=0 then .error ("port in "++quote spec++" must be 1-65535") else .ok port

def validBauds : List UInt32 :=
  [1200,2400,4800,9600,19200,38400,57600,115200,230400,460800,921600]

/-- The last `match`, on the kind and the mode; `none` is its `unreachable!`. The fields behind the
name are the rest. -/
def parseKind (mode : String) (spec kind : Str) (id : UInt8) (name : Str) (rest : List Str) :
    Option (Except String ChannelSpec) :=
  if kind=mcu ∧ mode="exporter" then
    match rest with
    | [rawBaud] => some ((parseStandardBaud quote rawBaud spec validBauds).map (.mcuExporter id name))
    | _ => some (.error ("exporter mcu spec "++quote spec++": need mcu:<id>:<device>:<baud>"))
  else if kind=mcu ∧ mode="host" then
    match rest with
    | [] => some (.ok (.mcuHost id name 230400))
    | [rawBaud] => some ((parseStandardBaud quote rawBaud spec validBauds).map (.mcuHost id name))
    | _ => some (.error ("host mcu spec "++quote spec++": need mcu:<id>:<symlink>[:<baud>]"))
  -- A TCP spec is not asked how many fields it has.
  else if kind=tcp ∧ mode="exporter" then
    some ((parseTcpPort quote rest.head? spec).map (.tcpExporter id name))
  else if kind=tcp ∧ mode="host" then
    some ((parseTcpPort quote rest.head? spec).map (.tcpHost id name))
  else none

def parseChannelSpec (mode : String) (spec : Str) : Option (Except String ChannelSpec) :=
  match spec.splitOn ':' with
  | kind::rawId::name::rest =>
    if kind≠mcu ∧ kind≠tcp then
      some (.error ("unknown channel type "++quote kind++" -- must be 'mcu' or 'tcp'"))
    else
      match parseUint 8 rawId with
      | none => some (.error ("channel id in "++quote spec++" must be 0-255"))
      | some n =>
        let id := UInt8.ofNat n
        if maxChannelId < id.toNat then
          some (.error ("channel id "++toString id++" in "++quote spec++
            " exceeds supported maximum "++toString maxChannelId))
        else parseKind quote mode spec kind id name rest
  | _ => some (.error ("channel spec "++quote spec++" is too short\n"++
      "exporter mcu: mcu:<id>:<device>:<baud>\n"++
      "host     mcu: mcu:<id>:<pty_symlink>[:<baud>]\n"++
      "exporter tcp: tcp:<id>:<bind_addr>:<port>\n"++
      "host     tcp: tcp:<id>:<dest_addr>:<port>"))

end Parse

section Grammar

def ValidId (raw : Str) (id : UInt8) : Prop := Literal raw id.toNat ∧ id.toNat ≤ maxChannelId

def ValidBaud (raw : Str) (baud : UInt32) : Prop := Literal raw baud.toNat ∧ baud∈validBauds

def ValidPort (raw : Str) (port : UInt16) : Prop := Literal raw port.toNat ∧ port≠0

/-- The fields that spell a channel, as the description documents them. -/
inductive Spells : String → List Str → ChannelSpec → Prop
  | mcuExporter {rawId device rawBaud : Str} {id : UInt8} {baud : UInt32} (hid : ValidId rawId id)
    (hbaud : ValidBaud rawBaud baud) :
    Spells "exporter" [mcu,rawId,device,rawBaud] (.mcuExporter id device baud)
  | mcuHost {rawId symlink rawBaud : Str} {id : UInt8} {baud : UInt32} (hid : ValidId rawId id)
    (hbaud : ValidBaud rawBaud baud) :
    Spells "host" [mcu,rawId,symlink,rawBaud] (.mcuHost id symlink baud)
  | mcuHostDefault {rawId symlink : Str} {id : UInt8} (hid : ValidId rawId id) :
    Spells "host" [mcu,rawId,symlink] (.mcuHost id symlink 230400)
  | tcpExporter {rawId bindAddr rawPort : Str} {id : UInt8} {port : UInt16} (hid : ValidId rawId id)
    (hport : ValidPort rawPort port) :
    Spells "exporter" [tcp,rawId,bindAddr,rawPort] (.tcpExporter id bindAddr port)
  | tcpHost {rawId destAddr rawPort : Str} {id : UInt8} {port : UInt16} (hid : ValidId rawId id)
    (hport : ValidPort rawPort port) :
    Spells "host" [tcp,rawId,destAddr,rawPort] (.tcpHost id destAddr port)

/-- A spec is fields with colons between them. -/
def Documented (mode : String) (spec : Str) (c : ChannelSpec) : Prop :=
  ∃fields,(∀f∈fields,':'∉f) ∧ spec=[':'].intercalate fields ∧ Spells mode fields c

/-- The first four of five or more fields spell a TCP channel. -/
def Overlong (mode : String) (fields : List Str) (c : ChannelSpec) : Prop :=
  ∃rawId addr rawPort extra more,fields=tcp::rawId::addr::rawPort::extra::more ∧
    Spells mode [tcp,rawId,addr,rawPort] c

theorem not_mem_splitOn {α : Type} [BEq α] [LawfulBEq α] (a : α) (xs : List α) :
    ∀f∈xs.splitOn a,a∉f := by
  induction xs with
  | nil => simp
  | cons x xs ih =>
    rw [List.splitOn_cons_eq_if_modifyHead]
    split_ifs with hx
    · exact List.forall_mem_cons.mpr ⟨List.not_mem_nil,ih⟩
    · cases hs : xs.splitOn a with
      | nil => exact absurd hs (List.splitOn_ne_nil a xs)
      | cons f fs =>
        rw [hs] at ih
        obtain ⟨hf,hfs⟩ := List.forall_mem_cons.mp ih
        refine List.forall_mem_cons.mpr ⟨?_,hfs⟩
        intro hmem
        rcases List.mem_cons.mp hmem with he|hmem
        · exact hx (by rw [he,beq_self_eq_true])
        · exact hf hmem

theorem Spells.ne_nil {mode : String} {fields : List Str} {c : ChannelSpec}
    (h : Spells mode fields c) : fields≠[] := by
  cases h <;> exact nofun

theorem documented_iff (mode : String) (spec : Str) (c : ChannelSpec) :
    Documented mode spec c ↔ Spells mode (spec.splitOn ':') c := by
  constructor
  · intro ⟨fields,hcolon,hspec,h⟩
    rw [hspec,List.splitOn_intercalate ':' hcolon h.ne_nil]
    exact h
  · intro h
    exact ⟨_,not_mem_splitOn ':' spec,(List.intercalate_splitOn ':').symm,h⟩

end Grammar

section Accepted

variable (quote : Str → String)

theorem parseStandardBaud_iff (raw spec : Str) (baud : UInt32) :
    parseStandardBaud quote raw spec validBauds=.ok baud ↔ ValidBaud raw baud := by
  unfold parseStandardBaud ValidBaud
  cases hn : parseUint 32 raw with
  | none => exact ⟨nofun,fun h => absurd h.1 (not_literal_of_none hn baud.toNat_lt)⟩
  | some n =>
    have hval : baud.toNat=n ↔ UInt32.ofNat n=baud := by
      rw [← UInt32.toNat_inj,UInt32.toNat_ofNat',Nat.mod_eq_of_lt ((parseUint_iff 32 raw n).mp hn).2]
      exact eq_comm
    rw [literal_iff_of_some hn baud.toNat_lt,hval]
    dsimp only
    by_cases hstd : UInt32.ofNat n∈validBauds
    · rw [if_neg (not_not_intro hstd),Except.ok.injEq]
      exact ⟨fun he => ⟨he,he ▸ hstd⟩,And.left⟩
    · rw [if_pos hstd]
      exact ⟨nofun,fun ⟨he,hmem⟩ => absurd (he.symm ▸ hmem) hstd⟩

theorem parseTcpPort_iff (raw : Option Str) (spec : Str) (port : UInt16) :
    parseTcpPort quote raw spec=.ok port ↔ ∃field,raw=some field ∧ ValidPort field port := by
  unfold parseTcpPort ValidPort
  cases raw with
  | none => exact ⟨nofun,nofun⟩
  | some field =>
    simp only [Option.some.injEq,exists_eq_left']
    cases hn : parseUint 16 field with
    | none => exact ⟨nofun,fun h => absurd h.1 (not_literal_of_none hn port.toNat_lt)⟩
    | some n =>
      have hval : port.toNat=n ↔ UInt16.ofNat n=port := by
        rw [← UInt16.toNat_inj,UInt16.toNat_ofNat',
          Nat.mod_eq_of_lt ((parseUint_iff 16 field n).mp hn).2]
        exact eq_comm
      rw [literal_iff_of_some hn port.toNat_lt,hval]
      dsimp only
      by_cases hzero : UInt16.ofNat n=0
      · rw [if_pos hzero]
        exact ⟨nofun,fun ⟨he,hne⟩ => absurd (he.symm.trans hzero) hne⟩
      · rw [if_neg hzero,Except.ok.injEq]
        exact ⟨fun he => ⟨he,he ▸ hzero⟩,And.left⟩

theorem map_ok_iff {α β : Type} {f : α → β} {x : Except String α} {b : β} :
    some (x.map f)=some (.ok b) ↔ ∃a,x=.ok a ∧ f a=b := by
  cases x with
  | error e => exact ⟨nofun,nofun⟩
  | ok a => simp [Except.map]

theorem ValidId.unique {raw : Str} {id id' : UInt8} (h : ValidId raw id) (h' : ValidId raw id') :
    id=id' := by
  have hread := (parseUint_iff 8 raw id.toNat).mpr ⟨h.1,id.toNat_lt⟩
  have hread' := (parseUint_iff 8 raw id'.toNat).mpr ⟨h'.1,id'.toNat_lt⟩
  exact UInt8.toNat_inj.mp (Option.some.inj (hread.symm.trans hread'))

section Kinds

variable {mode : String} {spec rawId name : Str} {id : UInt8} {rest : List Str} {c : ChannelSpec}

/-- For MCUs the last `match` accepts what is documented. -/
theorem parseKind_mcu (hid : ValidId rawId id) :
    parseKind quote mode spec mcu id name rest=some (.ok c) ↔
      Spells mode (mcu::rawId::name::rest) c := by
  have hne : mcu≠tcp := by decide
  unfold parseKind
  constructor
  · intro h
    split_ifs at h with h1 h2 h3 h4
    · obtain ⟨-,rfl⟩ := h1
      split at h
      · next rawBaud =>
        obtain ⟨baud,hbaud,rfl⟩ := map_ok_iff.mp h
        exact .mcuExporter hid ((parseStandardBaud_iff quote rawBaud spec baud).mp hbaud)
      · exact nomatch h
    · obtain ⟨-,rfl⟩ := h2
      split at h
      · obtain rfl := Except.ok.inj (Option.some.inj h)
        exact .mcuHostDefault hid
      · next rawBaud =>
        obtain ⟨baud,hbaud,rfl⟩ := map_ok_iff.mp h
        exact .mcuHost hid ((parseStandardBaud_iff quote rawBaud spec baud).mp hbaud)
      · exact nomatch h
    · exact absurd h3.1 hne
    · exact absurd h4.1 hne
  · intro h
    generalize hkind : mcu=kind at h
    cases h with
    | mcuExporter hid' hbaud =>
      rw [if_pos ⟨rfl,rfl⟩,hid.unique hid']
      exact map_ok_iff.mpr ⟨_,(parseStandardBaud_iff quote _ spec _).mpr hbaud,rfl⟩
    | mcuHost hid' hbaud =>
      rw [if_neg (by decide),if_pos ⟨rfl,rfl⟩,hid.unique hid']
      exact map_ok_iff.mpr ⟨_,(parseStandardBaud_iff quote _ spec _).mpr hbaud,rfl⟩
    | mcuHostDefault hid' =>
      rw [if_neg (by decide),if_pos ⟨rfl,rfl⟩,hid.unique hid']
    | tcpExporter => exact absurd hkind hne
    | tcpHost => exact absurd hkind hne

/-- For TCP it accepts whatever follows the port, too. -/
theorem parseKind_tcp (hid : ValidId rawId id) :
    parseKind quote mode spec tcp id name rest=some (.ok c) ↔
      ∃rawPort more,rest=rawPort::more ∧ Spells mode [tcp,rawId,name,rawPort] c := by
  have hne : tcp≠mcu := by decide
  unfold parseKind
  rw [if_neg (fun h => hne h.1),if_neg (fun h => hne h.1)]
  constructor
  · intro h
    split_ifs at h with h1 h2
    · obtain ⟨-,rfl⟩ := h1
      obtain ⟨port,hparse,rfl⟩ := map_ok_iff.mp h
      obtain ⟨rawPort,hhead,hport⟩ := (parseTcpPort_iff quote rest.head? spec port).mp hparse
      obtain ⟨more,hrest⟩ := List.head?_eq_some_iff.mp hhead
      exact ⟨rawPort,more,hrest,.tcpExporter hid hport⟩
    · obtain ⟨-,rfl⟩ := h2
      obtain ⟨port,hparse,rfl⟩ := map_ok_iff.mp h
      obtain ⟨rawPort,hhead,hport⟩ := (parseTcpPort_iff quote rest.head? spec port).mp hparse
      obtain ⟨more,hrest⟩ := List.head?_eq_some_iff.mp hhead
      exact ⟨rawPort,more,hrest,.tcpHost hid hport⟩
  · intro ⟨rawPort,more,hrest,h⟩
    subst hrest
    generalize hkind : tcp=kind at h
    cases h with
    | mcuExporter => exact absurd hkind hne
    | mcuHost => exact absurd hkind hne
    | tcpExporter hid' hport =>
      rw [if_pos ⟨rfl,rfl⟩,hid.unique hid']
      exact map_ok_iff.mpr ⟨_,(parseTcpPort_iff quote _ spec _).mpr ⟨_,rfl,hport⟩,rfl⟩
    | tcpHost hid' hport =>
      rw [if_neg (by decide),if_pos ⟨rfl,rfl⟩,hid.unique hid']
      exact map_ok_iff.mpr ⟨_,(parseTcpPort_iff quote _ spec _).mpr ⟨_,rfl,hport⟩,rfl⟩

end Kinds

theorem Spells.start {mode : String} {fields : List Str} {c : ChannelSpec} (h : Spells mode fields c) :
    ∃kind rawId name rest id,fields=kind::rawId::name::rest ∧ (kind=mcu ∨ kind=tcp) ∧
      ValidId rawId id := by
  cases h with
  | mcuExporter hid => exact ⟨_,_,_,_,_,rfl,.inl rfl,hid⟩
  | mcuHost hid => exact ⟨_,_,_,_,_,rfl,.inl rfl,hid⟩
  | mcuHostDefault hid => exact ⟨_,_,_,_,_,rfl,.inl rfl,hid⟩
  | tcpExporter hid => exact ⟨_,_,_,_,_,rfl,.inr rfl,hid⟩
  | tcpHost hid => exact ⟨_,_,_,_,_,rfl,.inr rfl,hid⟩

theorem Spells.tcp_length {mode : String} {fields : List Str} {c : ChannelSpec}
    (h : Spells mode (tcp::fields) c) : fields.length=3 := by
  generalize hkind : tcp=kind at h
  have hne : tcp≠mcu := by decide
  cases h with
  | mcuExporter => exact absurd hkind hne
  | mcuHost => exact absurd hkind hne
  | mcuHostDefault => exact absurd hkind hne
  | tcpExporter => rfl
  | tcpHost => rfl

theorem accepted_start {mode : String} {fields : List Str} {c : ChannelSpec}
    (h : Spells mode fields c ∨ Overlong mode fields c) :
    ∃kind rawId name rest id,fields=kind::rawId::name::rest ∧ (kind=mcu ∨ kind=tcp) ∧
      ValidId rawId id := by
  rcases h with h|⟨rawId,addr,rawPort,extra,more,hfields,h⟩
  · exact h.start
  · obtain ⟨_,_,_,_,id,he,hkind,hid⟩ := h.start
    obtain ⟨rfl,rfl,-⟩ := List.cons_eq_cons.mp he
    exact ⟨_,_,_,_,_,hfields,hkind,hid⟩

/-- What is accepted has one of the kinds and a valid id. -/
theorem accepted_cons {mode : String} {kind rawId name : Str} {rest : List Str} {c : ChannelSpec}
    (h : Spells mode (kind::rawId::name::rest) c ∨ Overlong mode (kind::rawId::name::rest) c) :
    (kind=mcu ∨ kind=tcp) ∧ ∃id,ValidId rawId id := by
  obtain ⟨_,_,_,_,id,he,hkind,hid⟩ := accepted_start h
  simp only [List.cons.injEq] at he
  obtain ⟨rfl,rfl,-⟩ := he
  exact ⟨hkind,id,hid⟩

theorem validId_of_some {rawId : Str} {n : Nat} (hn : parseUint 8 rawId=some n) (id : UInt8) :
    ValidId rawId id ↔ id=UInt8.ofNat n ∧ ¬maxChannelId<(UInt8.ofNat n).toNat := by
  have hval : (UInt8.ofNat n).toNat=n := by
    rw [UInt8.toNat_ofNat',Nat.mod_eq_of_lt ((parseUint_iff 8 rawId n).mp hn).2]
  rw [ValidId,literal_iff_of_some hn id.toNat_lt,← UInt8.toNat_inj,hval,Nat.not_lt]
  exact and_congr_right (fun he => by rw [he])

section Kinds

variable {mode : String} {spec kind rawId name : Str} {id : UInt8} {rest : List Str} {c : ChannelSpec}

theorem overlong_tcp :
    Overlong mode (kind::rawId::name::rest) c ↔
      kind=tcp ∧ ∃rawPort extra more,rest=rawPort::extra::more ∧
        Spells mode [tcp,rawId,name,rawPort] c := by
  constructor
  · rintro ⟨_,_,rawPort,extra,more,he,h⟩
    simp only [List.cons.injEq] at he
    obtain ⟨rfl,rfl,rfl,rfl⟩ := he
    exact ⟨rfl,rawPort,extra,more,rfl,h⟩
  · rintro ⟨rfl,rawPort,extra,more,rfl,h⟩
    exact ⟨_,_,_,_,_,rfl,h⟩

/-- Behind a kind and an id that are valid, the rest decides. -/
theorem parseKind_iff (hkind : kind=mcu ∨ kind=tcp) (hid : ValidId rawId id) :
    parseKind quote mode spec kind id name rest=some (.ok c) ↔
      Spells mode (kind::rawId::name::rest) c ∨ Overlong mode (kind::rawId::name::rest) c := by
  rw [overlong_tcp]
  rcases hkind with rfl|rfl
  · have hne : mcu≠tcp := by decide
    rw [parseKind_mcu quote hid]
    simp [hne]
  · rw [parseKind_tcp quote hid]
    constructor
    · rintro ⟨rawPort,more,rfl,h⟩
      cases more with
      | nil => exact .inl h
      | cons extra more => exact .inr ⟨rfl,_,_,_,rfl,h⟩
    · rintro (h|⟨-,rawPort,extra,more,rfl,h⟩)
      · have hlen := h.tcp_length
        simp only [List.length_cons] at hlen
        obtain ⟨rawPort,rfl⟩ := List.length_eq_one_iff.mp (by omega : rest.length=1)
        exact ⟨rawPort,[],rfl,h⟩
      · exact ⟨rawPort,extra::more,rfl,h⟩

end Kinds

/-- What is accepted is what is documented, and TCP specs with more behind them. -/
theorem parseChannelSpec_iff (mode : String) (spec : Str) (c : ChannelSpec) :
    parseChannelSpec quote mode spec=some (.ok c) ↔
      Spells mode (spec.splitOn ':') c ∨ Overlong mode (spec.splitOn ':') c := by
  unfold parseChannelSpec
  generalize spec.splitOn ':'=fields
  split
  · next kind rawId name rest =>
    by_cases hkind : kind≠mcu ∧ kind≠tcp
    · rw [if_pos hkind]
      exact ⟨nofun,fun h => absurd (accepted_cons h).1 (not_or.mpr hkind)⟩
    rw [if_neg hkind]
    cases hn : parseUint 8 rawId with
    | none =>
      refine ⟨nofun,fun h => ?_⟩
      obtain ⟨-,id,hid⟩ := accepted_cons h
      exact absurd hid.1 (not_literal_of_none hn id.toNat_lt)
    | some n =>
      dsimp only
      split_ifs with hmax
      · refine ⟨nofun,fun h => ?_⟩
        obtain ⟨-,id,hid⟩ := accepted_cons h
        exact absurd hmax ((validId_of_some hn id).mp hid).2
      · have hor : kind=mcu ∨ kind=tcp := by
          by_contra hno
          exact hkind (not_or.mp hno)
        exact parseKind_iff quote hor ((validId_of_some hn _).mpr ⟨rfl,hmax⟩)
  · next hshort =>
    refine ⟨nofun,fun h => ?_⟩
    obtain ⟨_,_,_,_,_,he,-⟩ := accepted_start h
    exact absurd he (hshort _ _ _ _)

/-- Exactly what is documented is accepted, with every field in the result, unless the spec is that
of a TCP channel with more fields behind it, which are left out. -/
theorem accepts_documented_iff (mode : String) (spec : Str) :
    (∀c,parseChannelSpec quote mode spec=some (.ok c) ↔ Documented mode spec c) ↔
      ¬∃c,Overlong mode (spec.splitOn ':') c := by
  simp only [parseChannelSpec_iff,documented_iff]
  constructor
  · intro h ⟨c,hover⟩
    have hspells := (h c).mp (.inr hover)
    obtain ⟨rawId,addr,rawPort,extra,more,hfields,-⟩ := hover
    rw [hfields] at hspells
    have hlen := hspells.tcp_length
    simp only [List.length_cons] at hlen
    omega
  · intro h c
    exact ⟨fun hor => hor.resolve_right (fun hover => h ⟨c,hover⟩),.inl⟩

/-- A second port, run on by mistake, is ignored. -/
theorem accepts_trailing_field :
    parseChannelSpec (fun _ => "") "exporter" "tcp:2:0.0.0.0:7125:7126".toList=
        some (.ok (.tcpExporter 2 "0.0.0.0".toList 7125)) ∧
      ¬∃c,Documented "exporter" "tcp:2:0.0.0.0:7125:7126".toList c := by
  refine ⟨by decide,fun ⟨c,h⟩ => ?_⟩
  have hspells := (documented_iff _ _ _).mp h
  have hfields : "tcp:2:0.0.0.0:7125:7126".toList.splitOn ':'=
      [tcp,['2'],"0.0.0.0".toList,"7125".toList,"7126".toList] := by decide
  rw [hfields] at hspells
  exact absurd hspells.tcp_length (by decide)

end Accepted

end Serialmux.Cli

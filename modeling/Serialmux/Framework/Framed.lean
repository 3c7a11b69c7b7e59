import Serialmux.Framework.Decoder

namespace Serialmux.Framework

variable {σ α β : Type}

/-- One pass through the loop of a codec's `decode`: go round again with what is left of the
buffer, or return with an item or without. -/
inductive Pass (σ α β : Type) where
  | again (s : σ) (rest : List α)
  | done (item : Option β) (s : σ) (rest : List α)

/-- A streaming codec, given by the body of its loop. Going round again and handing out an item
both take something off the buffer. -/
structure Codec (σ α β : Type) where
  pass : σ → List α → Pass σ α β
  againLt : ∀ {s xs s' rest}, pass s xs=.again s' rest → rest.length<xs.length
  itemLt : ∀ {s xs b s' rest}, pass s xs=.done (some b) s' rest → rest.length<xs.length

namespace Codec

variable (c : Codec σ α β)

/-- The loop cut off after n passes. -/
def passes : Nat → σ → List α → Option (Option β × σ × List α)
  | 0,_,_ => none
  | n+1,s,xs =>
    match c.pass s xs with
    | .again s' rest => passes n s' rest
    | .done item s' rest => some (item,s',rest)

/-- The call `decode`: the item if there is one, the codec's state and the bytes that stay. -/
def decode (s : σ) (xs : List α) : Option β × σ × List α :=
  match _h : c.pass s xs with
  | .again s' rest => decode s' rest
  | .done item s' rest => (item,s',rest)
termination_by xs.length
decreasing_by exact c.againLt _h

theorem decode_again {s s' : σ} {xs rest : List α} (h : c.pass s xs=.again s' rest) :
    c.decode s xs=c.decode s' rest := by
  rw [decode]
  split
  · rename_i h'
    rw [h] at h'
    obtain ⟨rfl,rfl⟩ := Pass.again.inj h'
    rfl
  · rename_i h'
    rw [h] at h'
    cases h'

theorem decode_done {s s' : σ} {xs rest : List α} {item : Option β}
    (h : c.pass s xs=.done item s' rest) : c.decode s xs=(item,s',rest) := by
  rw [decode]
  split
  · rename_i h'
    rw [h] at h'
    cases h'
  · rename_i h'
    rw [h] at h'
    obtain ⟨rfl,rfl,rfl⟩ := Pass.done.inj h'
    rfl

/-- Induction along the passes of one call. -/
theorem decode_induct {P : σ → List α → Prop}
    (again : ∀ s xs s' rest, c.pass s xs=.again s' rest → P s' rest → P s xs)
    (done : ∀ s xs item s' rest, c.pass s xs=.done item s' rest → P s xs)
    (s : σ) (xs : List α) : P s xs := by
  induction hn : xs.length using Nat.strongRecOn generalizing s xs with
  | _ n ih =>
    cases hp : c.pass s xs with
    | again s' rest =>
      have hlt : rest.length<n := hn ▸ c.againLt hp
      exact again s xs s' rest hp (ih _ hlt s' rest rfl)
    | done item s' rest => exact done s xs item s' rest hp

/-- Every call returns, after one pass more than it has bytes at most. -/
theorem passes_enough (s : σ) (xs : List α) {n : Nat} (hn : xs.length<n) :
    c.passes n s xs=some (c.decode s xs) := by
  induction s,xs using c.decode_induct generalizing n with
  | again s xs s' rest h ih =>
    have hlt := c.againLt h
    obtain ⟨m,rfl⟩ : ∃m,n=m+1 := ⟨n-1,by omega⟩
    rw [c.decode_again h,← ih (n := m) (by omega)]
    simp only [passes,h]
  | done s xs item s' rest h =>
    obtain ⟨m,rfl⟩ : ∃m,n=m+1 := ⟨n-1,by omega⟩
    rw [c.decode_done h]
    simp only [passes,h]

theorem decode_item_length {s s' : σ} {xs rest : List α} {b : β}
    (h : c.decode s xs=(some b,s',rest)) : rest.length<xs.length := by
  induction s,xs using c.decode_induct with
  | again s xs t r hp ih =>
    rw [c.decode_again hp] at h
    exact Nat.lt_trans (ih h) (c.againLt hp)
  | done s xs item t r hp =>
    rw [c.decode_done hp] at h
    obtain ⟨rfl,rfl,rfl⟩ : item=some b ∧ t=s' ∧ r=rest := by simpa using h
    exact c.itemLt hp

/-- Calls of `decode` until one returns without an item. -/
def decodeAll (s : σ) (xs : List α) : List β × σ × List α :=
  match _h : c.decode s xs with
  | (none,s',rest) => ([],s',rest)
  | (some b,s',rest) =>
    let r := decodeAll s' rest
    (b::r.1,r.2)
termination_by xs.length
decreasing_by exact c.decode_item_length _h

theorem decodeAll_none {s s' : σ} {xs rest : List α} (h : c.decode s xs=(none,s',rest)) :
    c.decodeAll s xs=([],s',rest) := by
  rw [decodeAll]
  split
  · rename_i h'
    rw [h] at h'
    obtain ⟨rfl,rfl⟩ : s'=_ ∧ rest=_ := by simpa using h'
    rfl
  · rename_i h'
    rw [h] at h'
    simp at h'

theorem decodeAll_some {s s' : σ} {xs rest : List α} {b : β}
    (h : c.decode s xs=(some b,s',rest)) :
    c.decodeAll s xs=(b::(c.decodeAll s' rest).1,(c.decodeAll s' rest).2) := by
  rw [decodeAll]
  split
  · rename_i h'
    rw [h] at h'
    simp at h'
  · rename_i h'
    rw [h] at h'
    obtain ⟨rfl,rfl,rfl⟩ : b=_ ∧ s'=_ ∧ rest=_ := by simpa using h'
    rfl

/-- A framed reader: each chunk is appended to the bytes that stayed, and `decode` is called until
it returns without an item. -/
def framedRead : σ → List α → List (List α) → List β × σ × List α
  | s,buf,[] => ([],s,buf)
  | s,buf,chunk::chunks =>
    let r := c.decodeAll s (buf++chunk)
    let t := framedRead r.2.1 r.2.2 chunks
    (r.1++t.1,t.2)

/-- The codec's passes stay on the path of the decoder d: what a pass leaves to do is what d has
left to do. -/
structure Implements (d : Decoder σ α β) : Prop where
  again : ∀ {s xs s' rest}, c.pass s xs=.again s' rest → d.drain s xs=d.drain s' rest
  wait : ∀ {s xs s' rest}, c.pass s xs=.done none s' rest → d.drain s xs=([],s',rest)
  item : ∀ {s xs b s' rest}, c.pass s xs=.done (some b) s' rest →
    d.drain s xs=(b::(d.drain s' rest).1,(d.drain s' rest).2)

namespace Implements

variable {c} {d : Decoder σ α β} (h : c.Implements d)
include h

theorem decode_none {s s' : σ} {xs rest : List α} (hd : c.decode s xs=(Option.none,s',rest)) :
    d.drain s xs=([],s',rest) := by
  induction s,xs using c.decode_induct with
  | again s xs t r hp ih =>
    rw [c.decode_again hp] at hd
    rw [h.again hp,ih hd]
  | done s xs item t r hp =>
    rw [c.decode_done hp] at hd
    obtain ⟨rfl,rfl,rfl⟩ : item=Option.none ∧ t=s' ∧ r=rest := by simpa using hd
    exact h.wait hp

theorem decode_item {s s' : σ} {xs rest : List α} {b : β}
    (hd : c.decode s xs=(some b,s',rest)) :
    d.drain s xs=(b::(d.drain s' rest).1,(d.drain s' rest).2) := by
  induction s,xs using c.decode_induct with
  | again s xs t r hp ih =>
    rw [c.decode_again hp] at hd
    rw [h.again hp,ih hd]
  | done s xs item t r hp =>
    rw [c.decode_done hp] at hd
    obtain ⟨rfl,rfl,rfl⟩ : item=some b ∧ t=s' ∧ r=rest := by simpa using hd
    exact h.item hp

theorem decodeAll_eq_drain (s : σ) (xs : List α) : c.decodeAll s xs=d.drain s xs := by
  induction hn : xs.length using Nat.strongRecOn generalizing s xs with
  | _ n ih =>
    match hd : c.decode s xs with
    | (.none,s',rest) => rw [c.decodeAll_none hd,h.decode_none hd]
    | (some b,s',rest) =>
      have hlt : rest.length<n := hn ▸ c.decode_item_length hd
      rw [c.decodeAll_some hd,h.decode_item hd,ih _ hlt s' rest rfl]

theorem framedRead_eq_drainAll (s : σ) (buf : List α) (chunks : List (List α)) :
    c.framedRead s buf chunks=d.drainAll s buf chunks := by
  induction chunks generalizing s buf with
  | nil => rfl
  | cons chunk chunks ih =>
    simp only [framedRead,Decoder.drainAll]
    rw [h.decodeAll_eq_drain,ih]

/-- What a framed reader hands out, and where it ends, is what the decoder does with all the bytes
at once: the way they were cut into chunks is not seen. -/
theorem framedRead_eq_drain {s : σ} (hw : d.move s []=Option.none) (chunks : List (List α)) :
    c.framedRead s [] chunks=d.drain s chunks.flatten := by
  rw [h.framedRead_eq_drainAll,d.drainAll_eq_drain hw,List.nil_append]

/-- Code words that were written one after the other are read back. -/
theorem framedRead_encoded {γ : Type} {s : σ} (hw : d.move s []=Option.none) (enc : γ → List α)
    (val : γ → β) {cs : List γ}
    (hcs : ∀c∈cs,∀ys,d.move s (enc c++ys)=some ⟨s,some (val c),(enc c).length⟩)
    {chunks : List (List α)} (hc : chunks.flatten=(cs.map enc).flatten) :
    c.framedRead s [] chunks=(cs.map val,s,[]) := by
  have hd := d.drain_encoded enc val hcs []
  rw [List.append_nil,d.drain_wait hw,List.append_nil] at hd
  rw [h.framedRead_eq_drain hw,hc,hd]

end Implements

end Codec

section Moves

-- A codec each of whose passes is one move of a decoder.
variable (d : Decoder σ α β)

def Pass.ofMove (s : σ) (xs : List α) : Option (Move σ β) → Pass σ α β
  | none => .done none s xs
  | some ⟨s',none,n⟩ => .again s' (xs.drop n)
  | some ⟨s',some b,n⟩ => .done (some b) s' (xs.drop n)

theorem Decoder.drop_lt {s : σ} {xs : List α} {m : Move σ β} (h : d.move s xs=some m) :
    (xs.drop m.len).length<xs.length := by
  have h0 := d.lenPos h
  have h1 := d.lenLe h
  rw [List.length_drop]
  omega

def Codec.ofMoves (pass : σ → List α → Pass σ α β)
    (h : ∀ s xs, pass s xs=.ofMove s xs (d.move s xs)) : Codec σ α β where
  pass := pass
  againLt {s xs s' rest} hp := by
    rw [h] at hp
    match hm : d.move s xs,hp with
    | some ⟨t,none,n⟩,rfl => exact d.drop_lt hm
  itemLt {s xs b s' rest} hp := by
    rw [h] at hp
    match hm : d.move s xs,hp with
    | some ⟨t,some x,n⟩,rfl => exact d.drop_lt hm

theorem Codec.implements_ofMoves (pass : σ → List α → Pass σ α β)
    (h : ∀ s xs, pass s xs=.ofMove s xs (d.move s xs)) : (ofMoves d pass h).Implements d where
  again {s xs s' rest} hp := by
    change pass s xs=_ at hp
    rw [h] at hp
    match hm : d.move s xs,hp with
    | some ⟨t,none,n⟩,rfl => exact d.drain_move hm
  wait {s xs s' rest} hp := by
    change pass s xs=_ at hp
    rw [h] at hp
    match hm : d.move s xs,hp with
    | none,rfl => exact d.drain_wait hm
  item {s xs b s' rest} hp := by
    change pass s xs=_ at hp
    rw [h] at hp
    match hm : d.move s xs,hp with
    | some ⟨t,some x,n⟩,rfl => exact d.drain_move hm

end Moves

/-- The blocks stand in the sequence one after the other, in order and without overlap. -/
inductive Scattered : List (List α) → List α → Prop
  | nil (xs : List α) : Scattered [] xs
  | cons (gap block : List α) {blocks : List (List α)} {xs : List α} :
    Scattered blocks xs → Scattered (block::blocks) (gap++block++xs)

theorem Scattered.skip {blocks : List (List α)} {xs : List α} (gap : List α)
    (h : Scattered blocks xs) : Scattered blocks (gap++xs) := by
  cases h with
  | nil => exact .nil _
  | cons gap' block h =>
    have e := Scattered.cons (gap++gap') block h
    rwa [List.append_assoc gap,List.append_assoc gap] at e

/-- A decoder whose items are made of the symbols they were read from emits them in the order, and
from the places, in which they stand in the input. -/
theorem Decoder.drain_scattered (d : Decoder σ α β) (image : β → List α)
    (h : ∀ {s xs s' b n}, d.move s xs=some ⟨s',some b,n⟩ → xs.take n=image b)
    (s : σ) (xs : List α) : Scattered ((d.drain s xs).1.map image) xs := by
  induction s,xs using d.drain_induct with
  | wait s xs hm =>
    rw [d.drain_wait hm]
    exact .nil xs
  | step s xs m hm ih =>
    rw [d.drain_move hm]
    have hsplit := List.take_append_drop m.len xs
    match m,hm with
    | ⟨s',none,n⟩,hm =>
      have e := ih.skip (xs.take n)
      rw [hsplit] at e
      exact e
    | ⟨s',some b,n⟩,hm =>
      have e := Scattered.cons [] (image b) ih
      rw [← h hm,List.nil_append,hsplit] at e
      rw [h hm] at e
      exact e

/-- What every emitting move promises of its item holds of every item. -/
theorem Decoder.drain_items (d : Decoder σ α β) {P : β → Prop}
    (h : ∀ {s xs s' b n}, d.move s xs=some ⟨s',some b,n⟩ → P b)
    (s : σ) (xs : List α) : ∀ b∈(d.drain s xs).1, P b := by
  induction s,xs using d.drain_induct with
  | wait s xs hm =>
    rw [d.drain_wait hm]
    simp
  | step s xs m hm ih =>
    rw [d.drain_move hm]
    match m,hm with
    | ⟨s',none,n⟩,hm => exact ih
    | ⟨s',some b,n⟩,hm =>
      intro x hx
      rcases List.mem_cons.mp hx with rfl|hx
      · exact h hm
      · exact ih x hx

namespace Decoder

variable (d : Decoder σ α β)

/-- The emissions with the places they were read from, counted from p. -/
def located (s : σ) (p : Nat) (xs : List α) : List (Nat × β) :=
  match _h : d.move s xs with
  | none => []
  | some m => m.out.toList.map (p,·)++located m.next (p+m.len) (xs.drop m.len)
termination_by xs.length
decreasing_by exact d.drop_lt _h

theorem located_wait {s : σ} {p : Nat} {xs : List α} (h : d.move s xs=none) :
    d.located s p xs=[] := by
  rw [located]
  split
  · rfl
  · rename_i m hm
    rw [h] at hm
    cases hm

theorem located_move {s : σ} {p : Nat} {xs : List α} {m : Move σ β} (h : d.move s xs=some m) :
    d.located s p xs=m.out.toList.map (p,·)++d.located m.next (p+m.len) (xs.drop m.len) := by
  rw [located]
  split
  · rename_i hm
    rw [h] at hm
    cases hm
  · rename_i m' hm
    rw [h] at hm
    obtain rfl := Option.some.inj hm
    rfl

theorem map_located (s : σ) (p : Nat) (xs : List α) :
    (d.located s p xs).map Prod.snd=(d.drain s xs).1 := by
  induction s,xs using d.drain_induct generalizing p with
  | wait s xs h =>
    rw [d.located_wait h,d.drain_wait h]
    rfl
  | step s xs m h ih =>
    rw [d.located_move h,d.drain_move h,List.map_append,ih,List.map_map]
    exact congrArg (·++_) (List.map_id _)

/-- The decoder comes to stand at n, in the state s'. -/
inductive Visits : σ → List α → Nat → σ → Prop
  | here (s : σ) (xs : List α) : Visits s xs 0 s
  | move {s s' : σ} {xs : List α} {m : Move σ β} {n : Nat} (h : d.move s xs=some m)
    (next : Visits m.next (xs.drop m.len) n s') : Visits s xs (m.len+n) s'

/-- From a place it stands at, the decoder goes on as from a start. -/
theorem Visits.located {d : Decoder σ α β} {s s' : σ} {xs : List α} {n : Nat}
    (h : d.Visits s xs n s') (p : Nat) : d.located s' (p+n) (xs.drop n) <:+ d.located s p xs := by
  induction h generalizing p with
  | here => exact List.suffix_refl _
  | @move s s' xs m n hm _ ih =>
    have e := ih (p+m.len)
    rw [List.drop_drop,Nat.add_assoc] at e
    rw [d.located_move hm]
    exact e.trans (List.suffix_append _ _)

/-- It stands wherever it emits. -/
theorem visits_of_located {s : σ} {p q : Nat} {xs : List α} {b : β}
    (h : (q,b)∈d.located s p xs) : ∃n s',q=p+n ∧ d.Visits s xs n s' := by
  induction s,xs using d.drain_induct generalizing p with
  | wait s xs hm =>
    rw [d.located_wait hm] at h
    cases h
  | step s xs m hm ih =>
    rw [d.located_move hm] at h
    rcases List.mem_append.mp h with h|h
    · obtain ⟨x,-,hx⟩ := List.mem_map.mp h
      obtain ⟨rfl,-⟩ := Prod.mk.inj hx
      exact ⟨0,s,rfl,.here s xs⟩
    · obtain ⟨n,s',rfl,hv⟩ := ih h
      exact ⟨m.len+n,s',by omega,.move hm hv⟩

theorem Visits.snoc {d : Decoder σ α β} {s s' : σ} {xs : List α} {n : Nat}
    (h : d.Visits s xs n s') {m : Move σ β} (hm : d.move s' (xs.drop n)=some m) :
    d.Visits s xs (n+m.len) m.next := by
  induction h with
  | here =>
    have e := Visits.move hm (.here m.next _)
    rwa [Nat.add_zero,← Nat.zero_add m.len] at e
  | move hm' _ ih =>
    rw [← List.drop_drop] at hm
    have e := Visits.move hm' (ih hm)
    rwa [← Nat.add_assoc] at e

/-- Code words with the places at which they stand when they are laid out from p on. -/
def placed {γ : Type} (enc : γ → List α) : Nat → List γ → List (Nat × γ)
  | _,[] => []
  | p,c::cs => (p,c)::placed enc (p+(enc c).length) cs

theorem placed_drop {γ : Type} (enc : γ → List α) (p : Nat) (cs : List γ) (k : Nat) :
    (placed enc p cs).drop k=placed enc (p+((cs.take k).map enc).flatten.length) (cs.drop k) := by
  induction cs generalizing p k with
  | nil => simp [placed]
  | cons c cs ih =>
    cases k with
    | zero => rfl
    | succ k =>
      rw [placed,List.drop_succ_cons,ih,List.take_succ_cons,List.map_cons,List.flatten_cons,
        List.length_append,Nat.add_assoc]
      rfl

theorem map_placed {γ : Type} (enc : γ → List α) (p : Nat) (cs : List γ) :
    (placed enc p cs).map Prod.snd=cs := by
  induction cs generalizing p with
  | nil => rfl
  | cons c cs ih => rw [placed,List.map_cons,ih]

/-- A concatenation of code words is emitted word by word, each from its own place. -/
theorem located_encoded {γ : Type} {s : σ} (enc : γ → List α) (val : γ → β) {cs : List γ}
    (h : ∀c∈cs,∀ys,d.move s (enc c++ys)=some ⟨s,some (val c),(enc c).length⟩)
    (hnil : d.move s []=none) (p : Nat) :
    d.located s p (cs.map enc).flatten=(placed enc p cs).map (Prod.map id val) := by
  induction cs generalizing p with
  | nil => exact d.located_wait hnil
  | cons c cs ih =>
    obtain ⟨hc,hcs⟩ := List.forall_mem_cons.mp h
    rw [List.map_cons,List.flatten_cons,d.located_move (hc _),List.drop_left,ih hcs]
    rfl

end Decoder

end Serialmux.Framework

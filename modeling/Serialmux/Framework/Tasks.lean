import Serialmux.Framework.Framed

namespace Serialmux.Framework

variable {σ α β γ : Type}

/-- A task that takes items off a queue and writes the code word of each to a device, which takes as
many bytes at a time as it likes. Its history is what entered the queue and what the device took. -/
structure WriterTask (enc : γ → List α) where
  queue : List γ
  out : List α
  alive : Bool
  sent : List γ
  written : List α
  nothingLost : alive=true → written++out++queue.flatMap enc=sent.flatMap enc
  writtenPrefix : written <+: sent.flatMap enc

namespace WriterTask

variable {enc : γ → List α} (w : WriterTask enc)

def new : WriterTask enc := ⟨[],[],true,[],[],fun _ => rfl,List.prefix_refl _⟩

/-- A sender puts an item into the queue; it fails once the task has ended. -/
def send (x : γ) : Option (WriterTask enc) :=
  if h : w.alive=true then
    some {w with
      queue := w.queue++[x]
      sent := w.sent++[x]
      nothingLost := fun _ => by
        simp only [List.flatMap_append,← List.append_assoc,w.nothingLost h]
      writtenPrefix := by
        rw [List.flatMap_append]
        exact w.writtenPrefix.trans (List.prefix_append _ _)}
  else none

/-- The task takes the next item once the last one is written. -/
def feed : WriterTask enc :=
  match _h : w.queue with
  | [] => w
  | x::q =>
    if hw : w.alive=true ∧ w.out=[] then
      {w with
        queue := q
        out := enc x
        nothingLost := fun ha => by
          have hall := w.nothingLost ha
          rw [_h,hw.2,List.append_nil] at hall
          rw [List.append_assoc]
          exact hall}
    else w

/-- The device takes up to `n` bytes; they are the second component. -/
def write (n : Nat) : WriterTask enc × List α :=
  if h : w.alive=true then
    ({w with
      out := w.out.drop n
      written := w.written++w.out.take n
      nothingLost := fun _ => by
        rw [List.append_assoc w.written,List.take_append_drop]
        exact w.nothingLost h
      writtenPrefix := by
        rw [← w.nothingLost h,List.append_assoc w.written]
        exact (List.prefix_append_right_inj _).mpr
          ((List.take_prefix _ _).trans (List.prefix_append _ _))},
      w.out.take n)
  else (w,[])

/-- The task ends, with a write error or because nobody can send to it any more. -/
def stop : WriterTask enc :=
  {w with
    queue := []
    out := []
    alive := false
    nothingLost := fun h => absurd h Bool.false_ne_true}

theorem send_eq {w w' : WriterTask enc} {x : γ} (h : w.send x=some w') :
    w.alive=true ∧ w'.alive=true ∧ w'.sent=w.sent++[x] ∧ w'.written=w.written := by
  unfold send at h
  split_ifs at h with ha
  obtain rfl := Option.some.inj h
  exact ⟨ha,ha,rfl,rfl⟩

theorem send_isSome_iff (x : γ) : (w.send x).isSome=true ↔ w.alive=true := by
  unfold send
  split_ifs with ha <;> simp [ha]

@[simp] theorem feed_alive : w.feed.alive=w.alive := by
  unfold feed
  split <;> [rfl; split_ifs <;> rfl]

@[simp] theorem feed_sent : w.feed.sent=w.sent := by
  unfold feed
  split <;> [rfl; split_ifs <;> rfl]

@[simp] theorem feed_written : w.feed.written=w.written := by
  unfold feed
  split <;> [rfl; split_ifs <;> rfl]

@[simp] theorem write_alive (n : Nat) : (w.write n).1.alive=w.alive := by
  unfold write
  split_ifs <;> rfl

@[simp] theorem write_sent (n : Nat) : (w.write n).1.sent=w.sent := by
  unfold write
  split_ifs <;> rfl

theorem write_written (n : Nat) : (w.write n).1.written=w.written++(w.write n).2 := by
  unfold write
  split_ifs
  · rfl
  · exact (List.append_nil _).symm

@[simp] theorem stop_alive : w.stop.alive=false := rfl

@[simp] theorem stop_sent : w.stop.sent=w.sent := rfl

@[simp] theorem stop_written : w.stop.written=w.written := rfl

/-- A task with nothing left to do has written everything. -/
def Idle : Prop := w.alive=true ∧ w.out=[] ∧ w.queue=[]

theorem Idle.written_eq {w : WriterTask enc} (h : w.Idle) : w.written=w.sent.flatMap enc := by
  have hall := w.nothingLost h.1
  rw [h.2.1,h.2.2] at hall
  simpa using hall

section Admits

-- A task that looks at an item before it writes it, and ends with the first that it does not admit.
variable (ok : γ → Bool)

/-- The items that have left the queue are admitted, and their code words are what is written. -/
def Admits : Prop :=
  ∃gone,gone <+: w.sent ∧ (∀x∈gone,ok x) ∧ w.written <+: gone.flatMap enc ∧
    (w.alive=true → gone++w.queue=w.sent ∧ w.written++w.out=gone.flatMap enc)

variable {ok} {w}

theorem Admits.new : (new : WriterTask enc).Admits ok :=
  ⟨[],List.nil_prefix,fun _ h => absurd h List.not_mem_nil,List.nil_prefix,fun _ => ⟨rfl,rfl⟩⟩

theorem Admits.send (h : w.Admits ok) {w' : WriterTask enc} {x : γ} (hw : w.send x=some w') :
    w'.Admits ok := by
  unfold WriterTask.send at hw
  split_ifs at hw with ha
  obtain rfl := Option.some.inj hw
  obtain ⟨gone,hpre,hok,hwritten,hall⟩ := h
  obtain ⟨hqueue,hout⟩ := hall ha
  refine ⟨gone,hpre.trans (List.prefix_append _ _),hok,hwritten,fun _ => ⟨?_,hout⟩⟩
  rw [← List.append_assoc,hqueue]

theorem Admits.feed (h : w.Admits ok) (hhead : w.out=[] → ∀x∈w.queue.head?,ok x) :
    w.feed.Admits ok := by
  unfold WriterTask.feed
  split
  · exact h
  · rename_i x q hq
    split_ifs with hw
    · obtain ⟨gone,hpre,hok,hwritten,hall⟩ := h
      obtain ⟨hqueue,hout⟩ := hall hw.1
      have hx : ok x := hhead hw.2 x (by rw [hq]; rfl)
      rw [hq] at hqueue
      rw [hw.2,List.append_nil] at hout
      have hnext : gone++[x]++q=w.sent := by
        rw [List.append_assoc]
        exact hqueue
      refine ⟨gone++[x],⟨q,hnext⟩,?_,?_,fun _ => ⟨hnext,?_⟩⟩
      · intro y hy
        rcases List.mem_append.mp hy with hy|hy
        · exact hok y hy
        · obtain rfl := List.mem_singleton.mp hy
          exact hx
      · rw [List.flatMap_append]
        exact hwritten.trans (List.prefix_append _ _)
      · rw [List.flatMap_append,← hout]
        exact congrArg _ (List.flatMap_singleton enc x).symm
    · exact h

theorem Admits.write (h : w.Admits ok) (n : Nat) : (w.write n).1.Admits ok := by
  unfold WriterTask.write
  split_ifs with ha
  · obtain ⟨gone,hpre,hok,-,hall⟩ := h
    obtain ⟨hqueue,hout⟩ := hall ha
    have hnext : w.written++w.out.take n++w.out.drop n=gone.flatMap enc := by
      rw [List.append_assoc,List.take_append_drop,hout]
    exact ⟨gone,hpre,hok,⟨_,hnext⟩,fun _ => ⟨hqueue,hnext⟩⟩
  · exact h

theorem Admits.stop (h : w.Admits ok) : w.stop.Admits ok := by
  obtain ⟨gone,hpre,hok,hwritten,-⟩ := h
  exact ⟨gone,hpre,hok,hwritten,fun h => absurd h Bool.false_ne_true⟩

/-- What is written is the beginning of the code words of admitted items. -/
theorem Admits.gone_codes (h : w.Admits ok) :
    ∃gone,gone <+: w.sent ∧ (∀x∈gone,ok x) ∧ w.written <+: gone.flatMap enc := by
  obtain ⟨gone,hpre,hok,hwritten,-⟩ := h
  exact ⟨gone,hpre,hok,hwritten⟩

/-- A task that has come to the end of its queue has admitted everything. -/
theorem Admits.all (h : w.Admits ok) (hidle : w.Idle) : ∀x∈w.sent,ok x := by
  obtain ⟨gone,-,hok,-,hall⟩ := h
  obtain ⟨hqueue,-⟩ := hall hidle.1
  rw [hidle.2.2,List.append_nil] at hqueue
  rwa [← hqueue]

end Admits

end WriterTask

/-- A task that reads a device through a framed reader: what arrives is put behind the bytes that
stayed, and items are decoded until there is none. Its history is what it read and what it decoded. -/
structure ReaderTask (d : Decoder σ α β) (s₀ : σ) where
  state : σ
  buffer : List α
  readable : Bool
  alive : Bool
  taken : List α
  given : List β
  reads : d.drain s₀ taken=(given++(d.drain state buffer).1,(d.drain state buffer).2)
  waits : readable=false → (d.drain state buffer).1=[]

/-- What a decoder checks before it emits an item holds of everything it emits. -/
theorem Decoder.drain_forall (d : Decoder σ α β) {P : β → Prop}
    (hd : ∀s xs m b,d.move s xs=some m → m.out=some b → P b) (s : σ) (xs : List α) :
    ∀b∈(d.drain s xs).1,P b := by
  induction s,xs using d.drain_induct with
  | wait s xs h =>
    rw [d.drain_wait h]
    simp
  | step s xs m h ih =>
    rw [d.drain_move h]
    intro b hb
    rcases List.mem_append.mp hb with hb|hb
    · exact hd s xs m b h (Option.mem_toList.mp hb)
    · exact ih b hb

namespace ReaderTask

variable {d : Decoder σ α β} {s₀ : σ} (r : ReaderTask d s₀)

def new (h : d.move s₀ []=none) : ReaderTask d s₀ :=
  ⟨s₀,[],false,true,[],[],rfl,fun _ => by rw [d.drain_wait h]⟩

/-- The device gives some bytes, which the task asks for when it can decode no more. -/
def read (bs : List α) : ReaderTask d s₀ :=
  if r.alive=true ∧ r.readable=false then
    {r with
      buffer := r.buffer++bs
      readable := true
      taken := r.taken++bs
      reads := by
        rw [d.drain_append s₀,r.reads,d.drain_append r.state r.buffer bs]
        simp only [List.append_assoc]
      waits := fun h => absurd h.symm Bool.false_ne_true}
  else r

/-- Where a codec finds no item it waits, and would wait again. -/
theorem drain_of_none {c : Codec σ α β} (hc : c.Implements d) {s s' : σ} {xs rest : List α}
    (h : c.decode s xs=(none,s',rest)) : d.drain s' rest=([],s',rest) := by
  have hwaits := d.drain_rest_waits s xs
  rw [hc.decode_none h] at hwaits
  exact d.drain_wait hwaits

/-- The task takes the next item out of its buffer, if a complete one is there. -/
def next (c : Codec σ α β) (hc : c.Implements d) : Option β × ReaderTask d s₀ :=
  if hr : r.alive=true ∧ r.readable=true then
    match h : c.decode r.state r.buffer with
    | (none,s,rest) =>
      (none,{r with
        state := s
        buffer := rest
        readable := false
        reads := by rw [r.reads,hc.decode_none h,drain_of_none hc h]
        waits := fun _ => by rw [drain_of_none hc h]})
    | (some b,s,rest) =>
      (some b,{r with
        state := s
        buffer := rest
        given := r.given++[b]
        reads := by
          rw [r.reads,hc.decode_item h,List.append_assoc]
          rfl
        waits := fun hf => by
          rw [hr.2] at hf
          cases hf})
  else (none,r)

def stop : ReaderTask d s₀ := {r with alive := false}

/-- The task reads up to `n` bytes off the front of a link; what stays is the second component. -/
def pull (link : List α) (n : Nat) : ReaderTask d s₀ × List α :=
  if r.alive=true ∧ r.readable=false then (r.read (link.take n),link.drop n) else (r,link)

theorem pull_taken (link : List α) (n : Nat) :
    (r.pull link n).1.taken++(r.pull link n).2=r.taken++link := by
  unfold pull
  split_ifs with h
  · rw [read,if_pos h,List.append_assoc,List.take_append_drop]
  · rfl

theorem pull_eq (link : List α) (n : Nat) :
    (r.pull link n).1.alive=r.alive ∧ (r.pull link n).1.given=r.given := by
  unfold pull read
  split_ifs
  · exact ⟨rfl,rfl⟩
  · exact ⟨rfl,rfl⟩

theorem read_eq (bs : List α) :
    (r.read bs).alive=r.alive ∧ (r.read bs).given=r.given ∧
      (r.read bs).taken=r.taken++if r.alive=true ∧ r.readable=false then bs else [] := by
  unfold read
  split_ifs
  · exact ⟨rfl,rfl,rfl⟩
  · exact ⟨rfl,rfl,(List.append_nil _).symm⟩

theorem next_eq (c : Codec σ α β) (hc : c.Implements d) :
    (r.next c hc).2.alive=r.alive ∧ (r.next c hc).2.taken=r.taken ∧
      (r.next c hc).2.given=r.given++(r.next c hc).1.toList ∧
      ((r.next c hc).1.isSome=true → r.alive=true) := by
  unfold next
  split_ifs with hr
  · split
    · exact ⟨rfl,rfl,(List.append_nil _).symm,fun h => absurd h Bool.false_ne_true⟩
    · exact ⟨rfl,rfl,rfl,fun _ => hr.1⟩
  · exact ⟨rfl,rfl,(List.append_nil _).symm,fun h => absurd h Bool.false_ne_true⟩

/-- What has been decoded is the beginning of what there is to decode. -/
theorem given_prefix : r.given <+: (d.drain s₀ r.taken).1 := by
  rw [r.reads]
  exact List.prefix_append _ _

theorem given_eq (h : r.readable=false) : r.given=(d.drain s₀ r.taken).1 := by
  rw [r.reads,r.waits h,List.append_nil]

/-- Every item satisfies what the decoder checks before it hands one out. -/
theorem given_forall {P : β → Prop}
    (hd : ∀s xs m b,d.move s xs=some m → m.out=some b → P b) : ∀b∈r.given,P b := by
  intro b hb
  exact d.drain_forall hd s₀ r.taken b (r.given_prefix.subset hb)

end ReaderTask

section Link

-- A writer at one end of a link and a reader at the other, which reads back every code word.
variable {enc : γ → List α} {d : Decoder σ α β} {s₀ : σ} {r : ReaderTask d s₀} {val : γ → β}
  {xs : List γ}

theorem drain_sent (hw : d.move s₀ []=none)
    (henc : ∀x∈xs,∀ys,d.move s₀ (enc x++ys)=some ⟨s₀,some (val x),(enc x).length⟩) :
    d.drain s₀ (xs.flatMap enc)=(xs.map val,s₀,[]) := by
  have h := d.drain_encoded enc val henc []
  rw [List.append_nil,d.drain_wait hw,List.append_nil] at h
  exact h

/-- What comes out of a link is the beginning of what went in. -/
theorem given_prefix_sent (val : γ → β) (hw : d.move s₀ []=none)
    (henc : ∀x∈xs,∀ys,d.move s₀ (enc x++ys)=some ⟨s₀,some (val x),(enc x).length⟩)
    (htaken : r.taken <+: xs.flatMap enc) : r.given <+: xs.map val := by
  have hgiven := r.given_prefix.trans (d.drain_prefix s₀ htaken)
  rwa [drain_sent hw henc] at hgiven

/-- When the link is empty and both ends wait, everything that went in has come out. -/
theorem given_eq_sent (val : γ → β) (hw : d.move s₀ []=none)
    (henc : ∀x∈xs,∀ys,d.move s₀ (enc x++ys)=some ⟨s₀,some (val x),(enc x).length⟩)
    (htaken : r.taken=xs.flatMap enc) (hr : r.readable=false) : r.given=xs.map val := by
  rw [r.given_eq hr,htaken,drain_sent hw henc]

end Link

end Serialmux.Framework

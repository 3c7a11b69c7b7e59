import Serialmux.Framework.Machine
import Serialmux.Channel.Mcu

namespace Serialmux.Channel

open Protocol Framework

/-- The frames of a sequence of effects, in the order they are enqueued. -/
def framesOf (es : List Effect) : List Frame := es.flatMap Effect.frames

/-- The bytes read by a sequence of effects. -/
def readOf (es : List Effect) : List UInt8 := es.flatMap Effect.read

@[simp] theorem framesOf_nil : framesOf []=[] := rfl

@[simp] theorem framesOf_cons (e : Effect) (es : List Effect) :
    framesOf (e::es)=e.frames++framesOf es := rfl

@[simp] theorem framesOf_append (es es' : List Effect) :
    framesOf (es++es')=framesOf es++framesOf es' := List.flatMap_append

@[simp] theorem readOf_nil : readOf []=[] := rfl

@[simp] theorem readOf_cons (e : Effect) (es : List Effect) :
    readOf (e::es)=e.read++readOf es := rfl

/-- The most recent status frame type, after one more frame. -/
def nextStatus (s : Option UInt8) (f : Frame) : Option UInt8 :=
  if f.ftype=fReady ∨ f.ftype=fFlush then some f.ftype else s

def lastStatus (fs : List Frame) : Option UInt8 := fs.foldl nextStatus none

/-- The concatenated payloads of the data frames. -/
def dataOf (fs : List Frame) : List UInt8 :=
  (fs.filter (fun f => f.ftype==fData)).flatMap Frame.payload

theorem dataOf_append (fs gs : List Frame) : dataOf (fs++gs)=dataOf fs++dataOf gs := by
  simp [dataOf]

namespace McuChannel

/-- The status frame that describes a state. -/
def statusOf (s : McuState) : UInt8 := if s=.active then fReady else fFlush

theorem statusOf_ne_fData (s : McuState) : statusOf s≠fData := by
  cases s <;> decide

theorem awaitSync_wakes {c : McuChannel} (hs : c.state≠.active) (data : List UInt8) :
    (c.awaitSync data).1.state=.active ↔ klipperSync∈data := by
  unfold awaitSync
  split
  · next hn =>
    refine iff_of_false hs ?_
    intro hm
    simpa using List.findIdx?_eq_none_iff.mp hn _ hm
  · next idx hi =>
    rw [transition_active hs]
    refine iff_of_true rfl ?_
    by_contra hm
    have hn : data.findIdx? (·==klipperSync)=none := by
      rw [List.findIdx?_eq_none_iff]
      intro x hx
      simpa using fun he : x=klipperSync => hm (he ▸ hx)
    simp [hn] at hi

theorem uartRead_wakes {c : McuChannel} (hs : c.state≠.active) (io : Io) :
    (c.uartRead io).1.state=.active ↔ klipperSync∈(c.uartRead io).2.read := by
  have hstay : c.state=.active ↔ klipperSync∈([] : List UInt8) := iff_of_false hs (by simp)
  unfold uartRead
  split
  · exact hstay
  · split
    · exact hstay
    · exact hstay
    · have hsleep : ({c with lastRx := some io.now} : McuChannel).state≠.active := hs
      dsimp only
      split
      · exact awaitSync_wakes hsleep _
      · exact awaitSync_wakes hsleep _
      · next ha => exact absurd ha hs
    · by_cases hr : c.state=.resetting
      · simp [transition,closeUart,hr]
      · simp [transition,closeUart,Ne.symm hr]

/-- A channel that is not active wakes up exactly by a read with a sync byte. -/
theorem handleEvent_wakes {c : McuChannel} (hs : c.state≠.active) (readable writable : Bool)
    (io : Io) : (c.handleEvent readable writable io).1.state=.active ↔
      klipperSync∈(c.handleEvent readable writable io).2.read := by
  have hdrain : ∀{c₁ : McuChannel} {e₁ : Effect},(c₁.state=.active ↔ klipperSync∈e₁.read) →
      ((c₁.uartDrain io).1.state=.active ↔ klipperSync∈(e₁.next (c₁.uartDrain io).2).read) := by
    intro c₁ e₁ h
    obtain ⟨⟨-,hs₂,-⟩,-,hr₂⟩ := uartDrain_same c₁ io
    rw [hs₂,Effect.next_read,hr₂,List.append_nil]
    exact h
  have hquiet : c.state=.active ↔ klipperSync∈Effect.quiet.read := iff_of_false hs (by simp)
  unfold handleEvent
  cases readable with
  | false =>
    cases writable with
    | false => exact hquiet
    | true => exact hdrain hquiet
  | true =>
    cases writable with
    | false => simpa using uartRead_wakes hs io
    | true => exact hdrain (uartRead_wakes hs io)

theorem tick_rests (c : McuChannel) (now : Instant) (io : Io) :
    (c.tick now io).2.read=[] ∧ ((c.tick now io).1.state=.active → c.state=.active) := by
  unfold tick
  split
  · split
    · exact ⟨rfl,id⟩
    · split_ifs
      · obtain ⟨-,hs,-⟩ := openUart_same {c with reopenAt := none} io
        exact ⟨rfl,fun h => hs.symm.trans h⟩
      · exact ⟨rfl,id⟩
  · split
    · next ha _ => split_ifs <;> exact ⟨rfl,fun _ => ha⟩
    · exact ⟨rfl,id⟩

/-- Only an event reads the UART, and only an event can wake the channel up. -/
theorem apply_rests (c : McuChannel) {call : Call}
    (h : ∀token readable writable,call.op≠.handleEvent token readable writable) :
    (c.apply call).2.read=[] ∧ ((c.apply call).1.state=.active → c.state=.active) := by
  obtain ⟨op,io⟩ := call
  cases op with
  | onFrame ftype payload =>
    simp only [apply,onFrame]
    split_ifs
    · exact ⟨rfl,id⟩
    · obtain ⟨⟨-,hs,-⟩,-,hr⟩ := uartDrain_same {c with txbuf := c.txbuf++payload} io
      exact ⟨hr,fun h => hs.symm.trans h⟩
    · exact ⟨rfl,id⟩
  | onLinkConnect => exact ⟨rfl,id⟩
  | onLinkDisconnect => simp [apply,onLinkDisconnect]
  | tick now => exact c.tick_rests now io
  | handleEvent token readable writable => exact absurd rfl (h token readable writable)
  | pauseSourceReads => simp only [apply,pauseSourceReads]; split_ifs <;> simp
  | resumeSourceReads => simp only [apply,resumeSourceReads]; split_ifs <;> simp

/-- A sleeping channel wakes up exactly by a sync byte. -/
theorem apply_wakes {c : McuChannel} (hs : c.state≠.active) (call : Call) :
    (c.apply call).1.state=.active ↔ klipperSync∈(c.apply call).2.read := by
  by_cases h : ∀token readable writable,call.op≠.handleEvent token readable writable
  · obtain ⟨hr,hw⟩ := c.apply_rests h
    rw [hr]
    exact iff_of_false (fun ha => hs (hw ha)) (by simp)
  · push Not at h
    obtain ⟨token,readable,writable,h⟩ := h
    simp only [apply,h]
    exact handleEvent_wakes hs readable writable call.io

theorem after_chId (c : McuChannel) (calls : List Call) : (after apply c calls).chId=c.chId :=
  after_of_step apply (P := fun x => x.chId=c.chId)
    (fun x call h => (apply_moves x call).2.trans h) rfl calls

/-- Read from status `s` on, every data frame follows a READY that no FLUSH has revoked. -/
def DataFollowsReady : Option UInt8 → List Frame → Prop
  | _,[] => True
  | s,f::fs => (f.ftype=fData → s=some fReady) ∧ DataFollowsReady (nextStatus s f) fs

theorem dataFollowsReady_append {s : Option UInt8} {fs gs : List Frame} :
    DataFollowsReady s (fs++gs) ↔
      DataFollowsReady s fs ∧ DataFollowsReady (fs.foldl nextStatus s) gs := by
  induction fs generalizing s with
  | nil => simp [DataFollowsReady]
  | cons f fs ih =>
    simp only [List.cons_append,DataFollowsReady,ih,List.foldl_cons]
    exact and_assoc.symm

/-- Within a session the channel is up, and the last status it sent describes its state. -/
def InSession (s : Option UInt8) (c : McuChannel) : Prop :=
  c.linkUp=true ∧ s=some (statusOf c.state)

/-- What one call sends within a session: well formed, its data after a READY, and the last status
still describes the state. -/
structure Sent (s : Option UInt8) (c c' : McuChannel) (e : Effect) : Prop where
  session : InSession (e.frames.foldl nextStatus s) c'
  grammar : DataFollowsReady s e.frames
  wellFormed : ∀f∈e.frames,f.channel=c.chId ∧ f.payload.length ≤ maxPayload

private theorem status_moves {s : Option UInt8} {c : McuChannel} {op : ChannelOp} {c' : McuChannel}
    {e : Effect} (hi : InSession s c) (ho : op≠.onLinkDisconnect) (h : Moves c op c' e) :
    Sent s c c' e := by
  obtain ⟨hup,rfl⟩ := hi
  cases h with
  | connect _ hs hl he =>
    subst he
    refine ⟨⟨hl,?_⟩,?_,?_⟩
    · by_cases ha : c.state=.active <;>
        simp [ha,hs,statusOf,nextStatus,frame]
    · refine ⟨fun h => ?_,trivial⟩
      exact absurd h (statusOf_ne_fData c.state)
    · simp [frame]
  | disconnect h => exact absurd h ho
  | stay _ hs hl hf =>
    refine ⟨⟨hl.trans hup,?_⟩,?_,?_⟩
    · rw [hf,hs]
      rfl
    · rw [hf]
      trivial
    · simp [hf]
  | forward _ hs hs' hl hn hf =>
    rw [whenUp,if_pos hup] at hf
    refine ⟨⟨hl.trans hup,?_⟩,?_,?_⟩
    · rw [hf,hs,hs']
      rfl
    · rw [hf,hs]
      exact ⟨fun _ => rfl,trivial⟩
    · rw [hf]
      intro f hmem
      rw [List.mem_singleton.mp hmem]
      exact ⟨rfl,by simp only [frame,maxPayload]; omega⟩
  | wake _ hs hs' hl hn hf =>
    rw [whenUp,if_pos hup] at hf
    have hdrop : (e.read.dropWhile (·!=klipperSync)).length≤e.read.length :=
      (List.dropWhile_suffix _).length_le
    refine ⟨⟨hl.trans hup,?_⟩,?_,?_⟩
    · rw [hf,hs']
      rfl
    · rw [hf]
      exact ⟨fun h => absurd h (by decide : fReady≠fData),fun _ => rfl,trivial⟩
    · rw [hf]
      intro f hmem
      rcases List.mem_pair.mp hmem with h|h
      · rw [h]
        exact ⟨rfl,Nat.zero_le _⟩
      · rw [h]
        exact ⟨rfl,by simp only [frame,maxPayload]; omega⟩
  | reset _ hs hs' hl hr hf =>
    rw [whenUp,if_pos hup] at hf
    refine ⟨⟨hl.trans hup,?_⟩,?_,?_⟩
    · rw [hf,hs']
      rfl
    · rw [hf]
      exact ⟨fun h => absurd h (by decide : fFlush≠fData),trivial⟩
    · rw [hf]
      intro f hmem
      rw [List.mem_singleton.mp hmem]
      exact ⟨rfl,Nat.zero_le _⟩

/-- A whole stretch of a session. -/
private theorem session_run {s : Option UInt8} {c : McuChannel} (hi : InSession s c)
    {calls : List Call} (hc : ∀call∈calls,call.op≠.onLinkDisconnect) :
    InSession ((framesOf (outs apply c calls)).foldl nextStatus s) (after apply c calls) ∧
      DataFollowsReady s (framesOf (outs apply c calls)) ∧
      ∀f∈framesOf (outs apply c calls),f.channel=c.chId ∧ f.payload.length ≤ maxPayload := by
  induction calls generalizing s c with
  | nil => exact ⟨hi,trivial,nofun⟩
  | cons call calls ih =>
    obtain ⟨hm,hid⟩ := apply_moves c call
    have h := status_moves hi (hc call (by simp)) hm
    obtain ⟨h₁,h₂,h₃⟩ := ih h.session (fun call' hmem => hc call' (by simp [hmem]))
    refine ⟨?_,?_,?_⟩
    · simpa only [outs_cons,framesOf_cons,List.foldl_append,after_cons] using h₁
    · exact dataFollowsReady_append.mpr ⟨h.grammar,h₂⟩
    · intro f hf
      rcases List.mem_append.mp hf with hf|hf
      · exact h.wellFormed f hf
      · exact hid ▸ h₃ f hf

/-- While no FLUSH is sent an active channel stays active, and its data frames carry exactly what it
reads. -/
private theorem active_run {c : McuChannel} (hup : c.linkUp=true) (hs : c.state=.active)
    {calls : List Call} (hc : ∀call∈calls,call.op≠.onLinkDisconnect)
    (hf : ∀f∈framesOf (outs apply c calls),f.ftype≠fFlush) :
    dataOf (framesOf (outs apply c calls))=readOf (outs apply c calls) := by
  induction calls generalizing c with
  | nil => rfl
  | cons call calls ih =>
    obtain ⟨hm,-⟩ := apply_moves c call
    have hrest : ∀f∈framesOf (outs apply (c.apply call).1 calls),f.ftype≠fFlush :=
      fun f h => hf f (List.mem_append_right _ h)
    have hc' : ∀call∈calls,call.op≠.onLinkDisconnect := fun x hx => hc x (by simp [hx])
    have hone : dataOf (c.apply call).2.frames=(c.apply call).2.read ∧
        (c.apply call).1.linkUp=true ∧ (c.apply call).1.state=.active := by
      cases hm with
      | connect _ hs' hl he =>
        rw [he]
        exact ⟨by simp [dataOf,frame,hs,fReady,fData],hl,hs'.trans hs⟩
      | disconnect h => exact absurd h (hc call (by simp))
      | stay _ hs' hl hf' hr => exact ⟨by rw [hf',hr hs]; rfl,hl.trans hup,hs'.trans hs⟩
      | forward _ _ hs' hl hn hf' =>
        rw [whenUp,if_pos hup] at hf'
        exact ⟨by simp [hf',dataOf,frame],hl.trans hup,hs'⟩
      | wake _ hs' => exact absurd hs hs'
      | reset _ _ _ _ _ hf' =>
        -- A reset would have sent the FLUSH that is excluded.
        rw [whenUp,if_pos hup] at hf'
        exact absurd rfl (hf (c.frame fFlush []) (List.mem_append_left _ (by simp [hf'])))
    simp only [outs_cons,framesOf_cons,readOf_cons,dataOf_append,hone.1]
    rw [ih hone.2.1 hone.2.2 hc' hrest]

theorem grammar_split {s : Option UInt8} {fs pre post : List Frame} {f : Frame}
    (h : DataFollowsReady s fs) (hfs : fs=pre++f::post) (hd : f.ftype=fData) :
    pre.foldl nextStatus s=some fReady := by
  subst hfs
  exact (dataFollowsReady_append.mp h).2.1 hd

/-- The output protocol of a session. It opens with the status of the channel's state, forwards data
only under a READY, sends only frames that `build_frame` accepts, and from a READY caused by a
transition until the next FLUSH its data are the bytes read since the sync byte that caused it. -/
theorem session_protocol (c : McuChannel) (io : Io) (calls : List Call)
    (hc : ∀call∈calls,call.op≠.onLinkDisconnect) :
    (∃rest,framesOf (outs apply c (⟨.onLinkConnect,io⟩::calls))=
      c.frame (statusOf c.state) []::rest) ∧
    (∀pre f post,framesOf (outs apply c (⟨.onLinkConnect,io⟩::calls))=pre++f::post →
      f.ftype=fData → lastStatus pre=some fReady) ∧
    (∀f∈framesOf (outs apply c (⟨.onLinkConnect,io⟩::calls)),
      f.channel=c.chId ∧ f.payload.length ≤ maxPayload) ∧
    (∀before call period rest,⟨.onLinkConnect,io⟩::calls=before++call::(period++rest) →
      (after apply c before).state≠.active →
      ((after apply c before).apply call).1.state=.active →
      (∀f∈framesOf (outs apply ((after apply c before).apply call).1 period),f.ftype≠fFlush) →
      ((after apply c before).apply call).2.frames.head?=some (c.frame fReady []) ∧
      dataOf (framesOf (outs apply (after apply c before) (call::period)))=
        ((after apply c before).apply call).2.read.dropWhile (·!=klipperSync)++
          readOf (outs apply ((after apply c before).apply call).1 period)) := by
  have hopen : InSession (some (statusOf c.state)) (c.apply ⟨.onLinkConnect,io⟩).1 := ⟨rfl,rfl⟩
  have hsent : framesOf (outs apply c (⟨.onLinkConnect,io⟩::calls))=
      c.frame (statusOf c.state) []::
        framesOf (outs apply (c.apply ⟨.onLinkConnect,io⟩).1 calls) := rfl
  obtain ⟨-,hg,hw⟩ := session_run hopen hc
  have hstatus : nextStatus none (c.frame (statusOf c.state) [])=some (statusOf c.state) := by
    by_cases ha : c.state=.active <;> simp [ha,nextStatus,statusOf,frame]
  refine ⟨⟨_,hsent⟩,?_,?_,?_⟩
  · intro pre f post hsplit hd
    have hall : DataFollowsReady none (framesOf (outs apply c (⟨.onLinkConnect,io⟩::calls))) := by
      rw [hsent]
      exact ⟨fun h => absurd h (statusOf_ne_fData c.state),hstatus ▸ hg⟩
    exact grammar_split hall hsplit hd
  · rw [hsent]
    intro f hf
    rcases List.mem_cons.mp hf with rfl|hf
    · exact ⟨rfl,Nat.zero_le _⟩
    · exact hw f hf
  · intro before call period rest hsplit hs hs' hperiod
    -- The transition cannot be the opening call, which leaves the state as it is.
    cases before with
    | nil =>
      obtain ⟨rfl,-⟩ := List.cons_eq_cons.mp hsplit
      exact absurd hs' hs
    | cons first before =>
      obtain ⟨rfl,rfl⟩ := List.cons_eq_cons.mp hsplit
      have hbefore : ∀x∈before,x.op≠.onLinkDisconnect := fun x hx => hc x (by simp [hx])
      have hperiod' : ∀x∈period,x.op≠.onLinkDisconnect := fun x hx => hc x (by simp [hx])
      obtain ⟨⟨hup,-⟩,-⟩ := session_run hopen hbefore
      have hchId : (after apply (c.apply ⟨.onLinkConnect,io⟩).1 before).chId=c.chId :=
        after_chId (c.apply ⟨.onLinkConnect,io⟩).1 before
      simp only [after_cons] at hs hs' hperiod hchId ⊢
      generalize after apply (c.apply ⟨.onLinkConnect,io⟩).1 before=c₁ at *
      obtain ⟨hm,-⟩ := apply_moves c₁ call
      cases hm with
      | connect _ h => exact absurd (h ▸ hs') hs
      | disconnect _ h => exact absurd (h ▸ hs') hs
      | stay _ h => exact absurd (h ▸ hs') hs
      | forward _ h => exact absurd h hs
      | reset _ _ h => exact absurd (h.symm.trans hs') (by decide)
      | wake _ _ _ hl _ hf =>
        rw [whenUp,if_pos hup] at hf
        refine ⟨by rw [hf]; simp [frame,hchId],?_⟩
        rw [outs_cons,framesOf_cons,dataOf_append,
          active_run (hl.trans hup) hs' hperiod' hperiod,hf]
        congr 1
        simp [dataOf,frame,fReady,fData]

/-- A UART event that reads two bytes. -/
def readPair (b b' : UInt8) : Call :=
  ⟨.handleEvent 1 true false,{Io.idle with read := .data [b,b'] (by simp)}⟩

/-- A fresh channel on an open UART. -/
def probeMcu : McuChannel := new 0 {Io.idle with openSerialFd := some 3}

theorem session_protocol_sync :
    (∀call∈[readPair 0x00 0x7E,readPair 0x01 0x02],call.op≠.onLinkDisconnect) ∧
    dataOf (framesOf (outs apply (after apply probeMcu [⟨.onLinkConnect,Io.idle⟩])
      [readPair 0x00 0x7E,readPair 0x01 0x02]))=[0x7E,0x01,0x02] := by
  have hc : ∀call∈[readPair 0x00 0x7E,readPair 0x01 0x02],call.op≠.onLinkDisconnect := by
    simp [readPair]
  obtain ⟨-,-,-,h⟩ := session_protocol probeMcu Io.idle _ hc
  exact ⟨hc,(h [⟨.onLinkConnect,Io.idle⟩] (readPair 0x00 0x7E) [readPair 0x01 0x02] [] rfl
    (by decide) (by decide) (by decide)).2.trans (by decide)⟩

end McuChannel

end Serialmux.Channel

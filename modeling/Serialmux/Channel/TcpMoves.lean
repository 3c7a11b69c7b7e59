import Serialmux.Channel.TcpFrames

namespace Serialmux.Channel

open Protocol

/-- The frames about one slot. -/
def framesFor (k : Slot) (fs : List Frame) : List Frame := fs.filter (fun f => cidOf f=some k)

@[simp] theorem framesFor_nil (k : Slot) : framesFor k []=[] := rfl

@[simp] theorem framesFor_append (k : Slot) (fs gs : List Frame) :
    framesFor k (fs++gs)=framesFor k fs++framesFor k gs := List.filter_append ..

theorem framesFor_self {chId : UInt8} {k : Slot} {op : SlotOp} (h : SendsFor chId k op)
    (c : Option TcpConn) : framesFor k (op c).2.frames=(op c).2.frames := by
  apply List.filter_eq_self.mpr
  intro f hf
  simp [(h c f hf).cid]

theorem framesFor_other {chId : UInt8} {j k : Slot} {op : SlotOp} (h : SendsFor chId j op)
    (hj : k≠j) (c : Option TcpConn) : framesFor k (op c).2.frames=[] := by
  apply List.filter_eq_nil_iff.mpr
  intro f hf
  simp [(h c f hf).cid,hj.symm]

namespace TcpSourceChannel

/-- The slot a call is about, if it is about a single one. -/
def target (s : TcpSourceChannel) : ChannelOp → Option Slot
  | .handleEvent token _ _ => if token=primaryToken s.chId then none else some (slotOfToken token)
  | .onFrame _ payload => (slotOfPayload payload).map Prod.fst
  | _ => none

/-- The bytes a call writes to the connection in slot `k`. -/
def wroteTo (k : Slot) (s : TcpSourceChannel) (call : Call) : List UInt8 :=
  if s.target call.op=some k then (s.apply call).2.wrote else []

/-- Everything a call can do to slot `k`: what is in it afterwards, the frames about it and the
bytes written to it. -/
inductive Moves (k : Slot) (s : TcpSourceChannel) (call : Call) :
    Option TcpConn → List Frame → List UInt8 → Prop
  | rest (ht : s.target call.op≠some k) (ho : call.op≠.onLinkDisconnect)
      (hp : (s.apply call).1.bpPaused=s.bpPaused) : Moves k s call (s.conns k) [] []
  | accepted (stream : StreamId) (hup : s.linkUp=true) (hfree : s.conns k=none)
      (ho : ∃writable,call.op=.handleEvent (primaryToken s.chId) true writable) :
      Moves k s call (some (.opened stream false)) [tconnFrame s.chId k] []
  | event (token : Token) (readable writable : Bool)
      (ho : call.op=.handleEvent token readable writable) (ht : s.target call.op=some k) :
      Moves k s call (s.slotEvent k readable writable call.io (s.conns k)).1
        (s.slotEvent k readable writable call.io (s.conns k)).2.frames
        (s.slotEvent k readable writable call.io (s.conns k)).2.wrote
  | frame (ftype : UInt8) (payload data : List UInt8) (ho : call.op=.onFrame ftype payload)
      (hp : slotOfPayload payload=some (k,data)) :
      Moves k s call (s.slotFrame k ftype data (s.conns k)).1
        (s.slotFrame k ftype data (s.conns k)).2.frames []
  | paused (p : Bool) (ho : call.op=if p then .pauseSourceReads else .resumeSourceReads) :
      Moves k s call (updateConnInterest (srcConnInterest p) (s.conns k)).1 [] []
  | cleared (ho : call.op=.onLinkDisconnect) : Moves k s call none [] []

theorem slotFrame_wrote (s : TcpSourceChannel) (k : Slot) (ftype : UInt8) (data : List UInt8)
    (c : Option TcpConn) : (s.slotFrame k ftype data c).2.wrote=[] := by
  unfold slotFrame
  split_ifs
  · cases c with
    | none => rfl
    | some c =>
      rw [onTdata]
      split_ifs <;> rfl
  · rw [onTclose_quiet]
    rfl
  · rfl

/-- The accept loop at slot `k`: it is passed by, or found free and opened. -/
theorem accept_at (s : TcpSourceChannel) (k : Slot) (as : List Accepted) :
    (s.accept as).1.conns k=s.conns k ∧ framesFor k (s.accept as).2.frames=[] ∨
      ∃stream,s.linkUp=true ∧ s.conns k=none ∧
        (s.accept as).1.conns k=some (.opened stream false) ∧
        framesFor k (s.accept as).2.frames=[tconnFrame s.chId k] := by
  have h := accept_induct (P := fun s' e => (s'.chId=s.chId ∧ s'.linkUp=s.linkUp) ∧
      (s'.conns k=s.conns k ∧ framesFor k e.frames=[] ∨
        ∃stream,s.linkUp=true ∧ s.conns k=none ∧ s'.conns k=some (.opened stream false) ∧
          framesFor k e.frames=[tconnFrame s.chId k])) (s := s) (e := .quiet)
    (fun s' e a he => ?_) ⟨⟨rfl,rfl⟩,.inl ⟨rfl,rfl⟩⟩ as
  · simpa using h.2
  · obtain ⟨⟨hid,hl⟩,he⟩ := he
    rcases acceptOne_cases s' a with ⟨n,h⟩|⟨n,slot,-,hfree,h⟩
    · rw [h]
      exact ⟨⟨hid,hl⟩,by simpa using he⟩
    · have hup : s'.linkUp=true := by
        by_contra hd
        have hq : s'.acceptOne a=(s',.quiet) := if_neg hd
        rw [hq] at h
        exact absurd (congrArg (fun r => r.2.frames) h) nofun
      rw [h]
      refine ⟨⟨hid,hl⟩,?_⟩
      by_cases hk : k=slot
      · subst hk
        rcases he with ⟨hc,hf⟩|⟨stream,-,-,hc,-⟩
        · have hone : framesFor k [tconnFrame s'.chId k]=[tconnFrame s.chId k] := by
            simp [framesFor,hid]
          exact .inr ⟨a.stream,hl ▸ hup,hc ▸ hfree,by simp,by simp [hf,hone]⟩
        · rw [hc] at hfree
          exact nomatch hfree
      · have hno : framesFor k [tconnFrame s'.chId slot]=[] := by
          simp [framesFor,Ne.symm hk]
        simpa [hk,hno] using he

/-- Only pause and resume touch the flag. -/
theorem apply_bpPaused (s : TcpSourceChannel) (call : Call) :
    (s.apply call).1.bpPaused=match call.op with
      | .pauseSourceReads => true
      | .resumeSourceReads => false
      | _ => s.bpPaused := by
  obtain ⟨op,io⟩ := call
  cases op with
  | onFrame ftype payload =>
    simp only [apply,onFrame]
    split <;> rfl
  | handleEvent token readable writable =>
    simp only [apply,handleEvent]
    split_ifs
    · refine accept_induct (P := fun s' _ => s'.bpPaused=s.bpPaused) (e := .quiet)
        (fun s' e a he => ?_) rfl io.accepts
      rcases acceptOne_cases s' a with ⟨n,h⟩|⟨n,slot,-,-,h⟩
      · rw [h]
        exact he
      · rw [h]
        exact he
    · rfl
    · rfl
  | onLinkConnect => rfl
  | onLinkDisconnect => rfl
  | tick => rfl
  | pauseSourceReads =>
    simp only [apply,setPaused]
    split_ifs with h
    · exact h
    · rfl
  | resumeSourceReads =>
    simp only [apply,setPaused]
    split_ifs with h
    · exact h
    · rfl

theorem setPaused_at (s : TcpSourceChannel) (p : Bool) (k : Slot) :
    s.bpPaused=p ∧ (s.setPaused p).conns k=s.conns k ∨
      (s.setPaused p).conns k=(updateConnInterest (srcConnInterest p) (s.conns k)).1 := by
  unfold setPaused
  split_ifs with h
  · exact .inl ⟨h,rfl⟩
  · exact .inr rfl

theorem onFrame_moves (s : TcpSourceChannel) (ftype : UInt8) (payload : List UInt8) (io : Io)
    (k : Slot) :
    Moves k s ⟨.onFrame ftype payload,io⟩ ((s.apply ⟨.onFrame ftype payload,io⟩).1.conns k)
      (framesFor k (s.apply ⟨.onFrame ftype payload,io⟩).2.frames)
      (wroteTo k s ⟨.onFrame ftype payload,io⟩) := by
  have hsame := s.apply_bpPaused ⟨.onFrame ftype payload,io⟩
  unfold wroteTo
  cases hp : slotOfPayload payload with
  | none =>
    have ht : s.target (.onFrame ftype payload)≠some k := by simp [target,hp]
    simp only [apply,onFrame,hp,if_neg ht]
    exact .rest ht (by simp) hsame
  | some v =>
    obtain ⟨j,data⟩ := v
    rw [apply_slotFrame s hp]
    have htarget : s.target (.onFrame ftype payload)=some j := by simp [target,hp]
    by_cases hk : k=j
    · subst hk
      simp only [htarget,if_true,slotFrame_wrote,atSlot_self,
        framesFor_self (slotFrame_sends s k ftype data)]
      exact .frame ftype payload data rfl hp
    · have ht : s.target (.onFrame ftype payload)≠some k := by
        rw [htarget]
        simpa using Ne.symm hk
      simp only [if_neg ht,atSlot_other _ hk,
        framesFor_other (slotFrame_sends s j ftype data) hk]
      exact .rest ht (by simp) hsame

theorem handleEvent_moves (s : TcpSourceChannel) (token : Token) (readable writable : Bool)
    (io : Io) (k : Slot) :
    Moves k s ⟨.handleEvent token readable writable,io⟩
      ((s.apply ⟨.handleEvent token readable writable,io⟩).1.conns k)
      (framesFor k (s.apply ⟨.handleEvent token readable writable,io⟩).2.frames)
      (wroteTo k s ⟨.handleEvent token readable writable,io⟩) := by
  have hsame := s.apply_bpPaused ⟨.handleEvent token readable writable,io⟩
  unfold wroteTo
  by_cases htok : token=primaryToken s.chId
  · have ht : s.target (.handleEvent token readable writable)≠some k := by simp [target,htok]
    simp only [apply,handleEvent,if_pos htok,if_neg ht]
    cases readable with
    | false => exact .rest ht (by simp) hsame
    | true =>
      simp only [if_true]
      rcases s.accept_at k io.accepts with ⟨hc,hf⟩|⟨stream,hup,hfree,hc,hf⟩
      · rw [hc,hf]
        exact .rest ht (by simp) hsame
      · rw [hc,hf]
        exact .accepted stream hup hfree ⟨writable,by rw [htok]⟩
  · have htarget : s.target (.handleEvent token readable writable)=some (slotOfToken token) :=
      if_neg htok
    simp only [apply,handleEvent,if_neg htok,tcpEvent]
    by_cases hk : k=slotOfToken token
    · subst hk
      simp only [htarget,if_true,atSlot_self,atSlot_effect,
        framesFor_self (slotEvent_sends s _ readable writable io)]
      exact .event token readable writable rfl htarget
    · have ht : s.target (.handleEvent token readable writable)≠some k := by
        rw [htarget]
        simpa using Ne.symm hk
      simp only [if_neg ht,atSlot_other _ hk,atSlot_effect,
        framesFor_other (slotEvent_sends s _ readable writable io) hk]
      exact .rest ht (by simp) hsame

theorem apply_moves (s : TcpSourceChannel) (call : Call) (k : Slot) :
    Moves k s call ((s.apply call).1.conns k) (framesFor k (s.apply call).2.frames)
      (wroteTo k s call) := by
  obtain ⟨op,io⟩ := call
  have hsame := s.apply_bpPaused ⟨op,io⟩
  cases op with
  | onFrame ftype payload => exact s.onFrame_moves ftype payload io k
  | handleEvent token readable writable => exact s.handleEvent_moves token readable writable io k
  | onLinkConnect => exact .rest (by simp [target]) (by simp) rfl
  | onLinkDisconnect => exact .cleared rfl
  | tick => exact .rest (by simp [target]) (by simp) rfl
  | pauseSourceReads =>
    simp only [apply]
    rcases s.setPaused_at true k with ⟨hp,h⟩|h
    · rw [h]
      exact .rest (by simp [target]) (by simp) (hsame.trans hp.symm)
    · rw [h]
      exact .paused true rfl
  | resumeSourceReads =>
    simp only [apply]
    rcases s.setPaused_at false k with ⟨hp,h⟩|h
    · rw [h]
      exact .rest (by simp [target]) (by simp) (hsame.trans hp.symm)
    · rw [h]
      exact .paused false rfl

end TcpSourceChannel

namespace TcpDestChannel

def target : ChannelOp → Option Slot
  | .handleEvent token _ _ => some (slotOfToken token)
  | .onFrame _ payload => (slotOfPayload payload).map Prod.fst
  | _ => none

/-- The bytes a call writes to the connection in slot `k`. -/
def wroteTo (k : Slot) (d : TcpDestChannel) (call : Call) : List UInt8 :=
  if target call.op=some k then (d.apply call).2.wrote else []

/-- Everything a call can do to slot `k`. -/
inductive Moves (k : Slot) (d : TcpDestChannel) (call : Call) :
    Option TcpConn → List Frame → List UInt8 → Prop
  | rest (ht : target call.op≠some k) (hc : call.op≠.onLinkConnect)
      (hd : call.op≠.onLinkDisconnect) (hp : (d.apply call).1.bpPaused=d.bpPaused) :
      Moves k d call (d.conns k) [] []
  | event (token : Token) (readable writable : Bool)
      (ho : call.op=.handleEvent token readable writable) (hk : slotOfToken token=k) :
      Moves k d call (d.slotEvent k readable writable call.io (d.conns k)).1
        (d.slotEvent k readable writable call.io (d.conns k)).2.frames
        (d.slotEvent k readable writable call.io (d.conns k)).2.wrote
  | frame (ftype : UInt8) (payload data : List UInt8) (ho : call.op=.onFrame ftype payload)
      (hp : slotOfPayload payload=some (k,data)) :
      Moves k d call (d.slotFrame k ftype data call.io (d.conns k)).1
        (d.slotFrame k ftype data call.io (d.conns k)).2.frames []
  | paused (p : Bool) (ho : call.op=if p then .pauseSourceReads else .resumeSourceReads) :
      Moves k d call (updateConnInterest (dstConnInterest p) (d.conns k)).1 [] []
  | cleared (ho : call.op=.onLinkConnect ∨ call.op=.onLinkDisconnect) : Moves k d call none [] []

theorem slotFrame_wrote (d : TcpDestChannel) (k : Slot) (ftype : UInt8) (data : List UInt8)
    (io : Io) (c : Option TcpConn) : (d.slotFrame k ftype data io c).2.wrote=[] := by
  unfold slotFrame
  split_ifs
  · cases c with
    | none =>
      rw [openConn]
      split <;> rfl
    | some c => rfl
  · cases c with
    | none => rfl
    | some c =>
      rw [onTdata]
      split_ifs <;> rfl
  · rw [onTclose_quiet]
    rfl
  · rfl

theorem apply_bpPaused (d : TcpDestChannel) (call : Call) :
    (d.apply call).1.bpPaused=match call.op with
      | .pauseSourceReads => true
      | .resumeSourceReads => false
      | _ => d.bpPaused := by
  obtain ⟨op,io⟩ := call
  cases op with
  | onFrame ftype payload =>
    simp only [apply,onFrame]
    split <;> rfl
  | handleEvent token readable writable => rfl
  | onLinkConnect => rfl
  | onLinkDisconnect => rfl
  | tick => rfl
  | pauseSourceReads =>
    simp only [apply,setPaused]
    split_ifs with h
    · exact h
    · rfl
  | resumeSourceReads =>
    simp only [apply,setPaused]
    split_ifs with h
    · exact h
    · rfl

theorem setPaused_at (d : TcpDestChannel) (p : Bool) (k : Slot) :
    d.bpPaused=p ∧ (d.setPaused p).conns k=d.conns k ∨
      (d.setPaused p).conns k=(updateConnInterest (dstConnInterest p) (d.conns k)).1 := by
  unfold setPaused
  split_ifs with h
  · exact .inl ⟨h,rfl⟩
  · exact .inr rfl

theorem onFrame_moves (d : TcpDestChannel) (ftype : UInt8) (payload : List UInt8) (io : Io)
    (k : Slot) :
    Moves k d ⟨.onFrame ftype payload,io⟩ ((d.apply ⟨.onFrame ftype payload,io⟩).1.conns k)
      (framesFor k (d.apply ⟨.onFrame ftype payload,io⟩).2.frames)
      (wroteTo k d ⟨.onFrame ftype payload,io⟩) := by
  have hsame := d.apply_bpPaused ⟨.onFrame ftype payload,io⟩
  unfold wroteTo
  cases hp : slotOfPayload payload with
  | none =>
    have ht : target (.onFrame ftype payload)≠some k := by simp [target,hp]
    simp only [apply,onFrame,hp,if_neg ht]
    exact .rest ht (by simp) (by simp) hsame
  | some v =>
    obtain ⟨j,data⟩ := v
    rw [apply_slotFrame d hp]
    have htarget : target (.onFrame ftype payload)=some j := by simp [target,hp]
    by_cases hk : k=j
    · subst hk
      simp only [htarget,if_true,slotFrame_wrote,atSlot_self,
        framesFor_self (slotFrame_sends d k ftype data io)]
      exact .frame ftype payload data rfl hp
    · have ht : target (.onFrame ftype payload)≠some k := by
        rw [htarget]
        simpa using Ne.symm hk
      simp only [if_neg ht,atSlot_other _ hk,
        framesFor_other (slotFrame_sends d j ftype data io) hk]
      exact .rest ht (by simp) (by simp) hsame

theorem handleEvent_moves (d : TcpDestChannel) (token : Token) (readable writable : Bool)
    (io : Io) (k : Slot) :
    Moves k d ⟨.handleEvent token readable writable,io⟩
      ((d.apply ⟨.handleEvent token readable writable,io⟩).1.conns k)
      (framesFor k (d.apply ⟨.handleEvent token readable writable,io⟩).2.frames)
      (wroteTo k d ⟨.handleEvent token readable writable,io⟩) := by
  have hsame := d.apply_bpPaused ⟨.handleEvent token readable writable,io⟩
  unfold wroteTo
  simp only [apply,tcpEvent]
  by_cases hk : k=slotOfToken token
  · subst hk
    simp only [target,if_true,atSlot_self,atSlot_effect,
      framesFor_self (slotEvent_sends d _ readable writable io)]
    exact .event token readable writable rfl rfl
  · have ht : target (.handleEvent token readable writable)≠some k := by
      simpa [target] using Ne.symm hk
    simp only [if_neg ht,atSlot_other _ hk,atSlot_effect,
      framesFor_other (slotEvent_sends d _ readable writable io) hk]
    exact .rest ht (by simp) (by simp) hsame

theorem apply_moves (d : TcpDestChannel) (call : Call) (k : Slot) :
    Moves k d call ((d.apply call).1.conns k) (framesFor k (d.apply call).2.frames)
      (wroteTo k d call) := by
  obtain ⟨op,io⟩ := call
  have hsame := d.apply_bpPaused ⟨op,io⟩
  cases op with
  | onFrame ftype payload => exact d.onFrame_moves ftype payload io k
  | handleEvent token readable writable => exact d.handleEvent_moves token readable writable io k
  | onLinkConnect => exact .cleared (.inl rfl)
  | onLinkDisconnect => exact .cleared (.inr rfl)
  | tick => exact .rest (by simp [target]) (by simp) (by simp) rfl
  | pauseSourceReads =>
    simp only [apply]
    rcases d.setPaused_at true k with ⟨hp,h⟩|h
    · rw [h]
      exact .rest (by simp [target]) (by simp) (by simp) (hsame.trans hp.symm)
    · rw [h]
      exact .paused true rfl
  | resumeSourceReads =>
    simp only [apply]
    rcases d.setPaused_at false k with ⟨hp,h⟩|h
    · rw [h]
      exact .rest (by simp [target]) (by simp) (by simp) (hsame.trans hp.symm)
    · rw [h]
      exact .paused false rfl

end TcpDestChannel

end Serialmux.Channel

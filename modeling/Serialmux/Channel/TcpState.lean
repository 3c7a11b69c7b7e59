import Serialmux.Framework.Machine
import Serialmux.Channel.Interest
import Serialmux.Channel.TcpMoves
import Serialmux.Channel.TcpSilence
import Serialmux.Channel.TcpSlot

namespace Serialmux.Channel

open Protocol Framework

/-- The invariant of a connection in a slot, where `p` says whether reads are paused: what drains
has something to drain, whoever waits for output is polled for it, only a pause leaves the stream
unregistered, and the buffer keeps to its limit. -/
structure TcpConn.Sound (p : Bool) (c : TcpConn) : Prop where
  draining : c.closePending=true → c.txbuf≠[]
  wakes : c.txbuf≠[] ∨ c.connecting=true → c.watch.writes=true
  watched : c.watch.registered=none → p=true
  bounded : c.txbuf.length ≤ connHighWater+maxPayload
  synced : c.watch.Synced

/-- A slot whose connection, if there is one, meets `P`. -/
def Holds (P : TcpConn → Prop) (c : Option TcpConn) : Prop := ∀x,c=some x → P x

theorem Holds.none (P : TcpConn → Prop) : Holds P none := nofun

theorem Holds.some {P : TcpConn → Prop} {c : TcpConn} (h : P c) : Holds P (some c) := by
  intro x hx
  exact Option.some.inj hx ▸ h

theorem Holds.get {P : TcpConn → Prop} {c : TcpConn} (h : Holds P (Option.some c)) : P c := h c rfl

/-- An operation that leaves only connections that meet `P`. -/
def Keeps (P : TcpConn → Prop) (op : SlotOp) : Prop := ∀c,Holds P c → Holds P (op c).1

namespace Keeps

variable {P : TcpConn → Prop}

theorem skip : Keeps P .skip := fun _ h => h

theorem seq {f g : SlotOp} (hf : Keeps P f) (hg : Keeps P g) : Keeps P (.seq f g) :=
  fun c h => hg _ (hf c h)

theorem guard {f : SlotOp} (b : Bool) (hf : Keeps P f) : Keeps P (.guard b f) := by
  cases b with
  | false => exact skip
  | true => exact hf

end Keeps

section Ops

variable {P : TcpConn → Prop} (chId : UInt8) (slot : Slot) (notify : Bool)

/-- Reads leave the connection as it is or close it. -/
theorem readLoop_keeps (blocked : TcpConn → Bool) (rs : List (ReadResult 65536)) :
    Keeps P (readLoop chId slot notify blocked rs) := by
  induction rs with
  | nil => exact Keeps.skip
  | cons r rs ih =>
    intro c h
    cases c with
    | none => exact h
    | some c =>
      simp only [readLoop]
      split_ifs
      · exact h
      · cases r with
        | wouldBlock => exact h
        | error e => exact Holds.none P
        | data bs hn =>
          cases bs with
          | nil => exact Holds.none P
          | cons b bs => exact ih (some c) h

/-- A write shortens the buffer; a connection that has drained is not left behind. -/
theorem writeSlot_keeps {ready : TcpConn → Bool} {w : WriteResult}
    (hw : ∀c n,P c → ¬(c.txbuf.drop n=[] ∧ c.closePending=true) →
      P {c with txbuf := c.txbuf.drop n}) :
    Keeps P (writeSlot chId slot notify ready w) := by
  intro c h
  cases c with
  | none => exact h
  | some c =>
    simp only [writeSlot]
    cases hr : writeTxbuf ready w c with
    | none => exact Holds.none P
    | some r =>
      obtain ⟨c',out⟩ := r
      have hdrop : ∃n,c'={c with txbuf := c.txbuf.drop n} := by
        rw [writeTxbuf.eq_def] at hr
        split_ifs at hr
        · cases w with
          | wrote n =>
            cases hr
            exact ⟨n,rfl⟩
          | again =>
            cases hr
            exact ⟨0,rfl⟩
          | error => simp at hr
        · cases hr
          exact ⟨0,rfl⟩
      obtain ⟨n,rfl⟩ := hdrop
      dsimp only
      split_ifs with hd
      · exact Holds.none P
      · exact .some (hw c n h.get hd)

theorem onTdata_keeps {interest : TcpConn → Option Interest} {data : List UInt8}
    (hi : ∀c,P c → data≠[] → overLimit c data=false →
      P {c with txbuf := c.txbuf++data
                watch := c.watch.update (interest {c with txbuf := c.txbuf++data})}) :
    Keeps P (onTdata chId slot notify interest data) := by
  intro c h
  cases c with
  | none => exact h
  | some c =>
    simp only [onTdata]
    split_ifs with hd hl
    · exact h
    · exact Holds.none P
    · exact .some (hi c h.get hd (by simpa using hl))

theorem onTclose_keeps {interest : TcpConn → Option Interest}
    (hi : ∀c,P c → c.txbuf≠[] →
      P {c with closePending := true
                watch := c.watch.update (interest {c with closePending := true})}) :
    Keeps P (onTclose chId slot interest) := by
  intro c h
  cases c with
  | none => exact h
  | some c =>
    simp only [onTclose]
    split_ifs with hb
    · exact Holds.none P
    · exact .some (hi c h.get hb)

end Ops

namespace TcpConn.Sound

variable {p q : Bool} {c : TcpConn}

theorem opened (p : Bool) (stream : StreamId) (connecting : Bool) :
    Sound p (.opened stream connecting) :=
  ⟨nofun,fun _ => rfl,nofun,Nat.zero_le _,rfl⟩

/-- An update of the interest settles what concerns the selector. -/
theorem interest {w : Bool} (hd : c.closePending=true → c.txbuf≠[])
    (hb : c.txbuf.length ≤ connHighWater+maxPayload) (hs : c.watch.Synced)
    (hw : c.txbuf≠[] ∨ c.connecting=true → w=true) :
    Sound q {c with watch := c.watch.update (Interest.ofFlags (!(q||c.closePending)) w)} := by
  refine ⟨hd,?_,?_,hb,Watch.update_synced hs _⟩
  · intro h
    exact (Watch.update_writes hs _ _).trans (hw h)
  · intro h
    have hflags := Interest.ofFlags_eq_none.mp ((Watch.update_registered hs _).symm.trans h)
    cases hq : q with
    | true => rfl
    | false =>
      -- Without a pause only a draining slot is not read, and it has something to write.
      have hclose : c.closePending=true := by simpa [hq] using hflags.1
      rw [hw (.inl (hd hclose))] at hflags
      exact nomatch hflags.2

theorem write (h : Sound p c) (n : Nat) (hn : ¬(c.txbuf.drop n=[] ∧ c.closePending=true)) :
    Sound p {c with txbuf := c.txbuf.drop n} := by
  refine ⟨?_,?_,h.watched,?_,h.synced⟩
  · intro hc hd
    exact hn ⟨hd,hc⟩
  · rintro (hd|hc)
    · apply h.wakes
      left
      intro hnil
      exact hd (by simp [hnil])
    · exact h.wakes (.inr hc)
  · exact (List.drop_suffix n c.txbuf).length_le.trans h.bounded

theorem fits {data : List UInt8} (h : overLimit c data=false) : (c.txbuf++data).length ≤ connHighWater+maxPayload := by
  simp only [overLimit,Bool.or_eq_false_iff,decide_eq_false_iff_not,not_lt] at h
  rw [List.length_append]
  omega

end TcpConn.Sound

namespace TcpSourceChannel

/-- A connection of a source has no connect to wait for. -/
def ConnSound (p : Bool) (c : TcpConn) : Prop := c.Sound p ∧ c.connecting=false

/-- All slots of the channel are in order. -/
def Sound (s : TcpSourceChannel) : Prop := ∀k,Holds (ConnSound s.bpPaused) (s.conns k)

theorem ConnSound.interest {q : Bool} {c : TcpConn} (hd : c.closePending=true → c.txbuf≠[])
    (hb : c.txbuf.length ≤ connHighWater+maxPayload) (hs : c.watch.Synced)
    (hc : c.connecting=false) :
    ConnSound q {c with watch := c.watch.update (srcConnInterest q c)} := by
  refine ⟨TcpConn.Sound.interest hd hb hs ?_,hc⟩
  rintro (h|h)
  · simpa using h
  · exact nomatch hc.symm.trans h

theorem update_keeps {p : Bool} (q : Bool) {c : Option TcpConn} (h : Holds (ConnSound p) c) :
    Holds (ConnSound q) (updateConnInterest (srcConnInterest q) c).1 := by
  cases c with
  | none => exact Holds.none _
  | some c =>
    obtain ⟨h,hc⟩ := h.get
    exact .some (.interest h.draining h.bounded h.synced hc)

theorem slotEvent_keeps (s : TcpSourceChannel) (k : Slot) (readable writable : Bool) (io : Io) :
    Keeps (ConnSound s.bpPaused) (s.slotEvent k readable writable io) :=
  .seq (.guard _ (readLoop_keeps _ _ _ _ _))
    (.guard _ (.seq (writeSlot_keeps _ _ _ (fun _ n h hn => ⟨h.1.write n hn,h.2⟩))
      (fun _ h => update_keeps s.bpPaused h)))

theorem slotFrame_keeps (s : TcpSourceChannel) (k : Slot) (ftype : UInt8) (data : List UInt8) :
    Keeps (ConnSound s.bpPaused) (s.slotFrame k ftype data) := by
  unfold slotFrame
  split_ifs
  · apply onTdata_keeps
    intro c h hne hl
    exact ConnSound.interest (c := {c with txbuf := c.txbuf++data})
      (fun _ => List.append_ne_nil_of_right_ne_nil _ hne) (TcpConn.Sound.fits hl) h.1.synced h.2
  · apply onTclose_keeps
    intro c h hne
    exact ConnSound.interest (c := {c with closePending := true}) (fun _ => hne) h.1.bounded
      h.1.synced h.2
  · exact Keeps.skip

/-- The rule for slots: a property of the connection in a slot, which may depend on the pause, is
kept by a call if opening, the events, the frames and a change of the pause keep it. -/
theorem apply_holds (P : Bool → TcpConn → Prop) {s : TcpSourceChannel} {call : Call} {k : Slot}
    (h : Holds (P s.bpPaused) (s.conns k))
    (hopen : ∀stream,s.linkUp=true → s.conns k=none →
      (∃writable,call.op=.handleEvent (primaryToken s.chId) true writable) →
      (s.apply call).1.conns k=some (.opened stream false) → P s.bpPaused (.opened stream false))
    (hevent : ∀readable writable,Keeps (P s.bpPaused) (s.slotEvent k readable writable call.io))
    (hframe : ∀ftype data,Keeps (P s.bpPaused) (s.slotFrame k ftype data))
    (hupdate : ∀p,Holds (P p) (updateConnInterest (srcConnInterest p) (s.conns k)).1) :
    Holds (P (s.apply call).1.bpPaused) ((s.apply call).1.conns k) := by
  have hp := s.apply_bpPaused call
  have hm := s.apply_moves call k
  generalize hc : (s.apply call).1.conns k=c' at hm ⊢
  generalize framesFor k (s.apply call).2.frames=fs at hm
  generalize s.wroteTo k call=out at hm
  cases hm with
  | rest _ _ hsame =>
    rw [hsame]
    exact h
  | accepted stream hup hfree ho =>
    have hnew := hopen stream hup hfree ho hc
    obtain ⟨writable,ho⟩ := ho
    rw [hp,ho]
    exact .some hnew
  | event token readable writable ho =>
    rw [hp,ho]
    exact hevent readable writable _ h
  | frame ftype payload data ho =>
    rw [hp,ho]
    exact hframe ftype data _ h
  | paused p ho =>
    cases p with
    | true =>
      rw [hp,ho]
      exact hupdate true
    | false =>
      rw [hp,ho]
      exact hupdate false
  | cleared => exact Holds.none _

theorem Sound.apply {s : TcpSourceChannel} (h : Sound s) (call : Call) :
    Sound (s.apply call).1 := by
  intro k
  refine apply_holds ConnSound (h k) ?_ ?_ ?_ ?_
  · intro stream _ _ _ _
    exact ⟨.opened _ stream false,rfl⟩
  · intro readable writable
    exact s.slotEvent_keeps k readable writable call.io
  · intro ftype data
    exact s.slotFrame_keeps k ftype data
  · intro p
    exact update_keeps p (h k)

end TcpSourceChannel

namespace TcpDestChannel

/-- All slots of the channel are in order. -/
def Sound (d : TcpDestChannel) : Prop := ∀k,Holds (TcpConn.Sound d.bpPaused) (d.conns k)

theorem interest_sound {q : Bool} {c : TcpConn} (hd : c.closePending=true → c.txbuf≠[])
    (hb : c.txbuf.length ≤ connHighWater+maxPayload) (hs : c.watch.Synced) :
    TcpConn.Sound q {c with watch := c.watch.update (dstConnInterest q c)} := by
  apply TcpConn.Sound.interest hd hb hs
  rintro (h|h)
  · simp [h]
  · simp [h]

theorem update_keeps {p : Bool} (q : Bool) {c : Option TcpConn} (h : Holds (TcpConn.Sound p) c) :
    Holds (TcpConn.Sound q) (updateConnInterest (dstConnInterest q) c).1 := by
  cases c with
  | none => exact Holds.none _
  | some c => exact .some (interest_sound h.get.draining h.get.bounded h.get.synced)

theorem finishConnect_keeps (chId : UInt8) (slot : Slot) (writable : Bool) (io : Io) {p : Bool} :
    Keeps (TcpConn.Sound p) (finishConnect chId slot writable io) := by
  intro c h
  cases c with
  | none => exact h
  | some c =>
    have hc := h.get
    simp only [finishConnect]
    split_ifs
    · refine .some ⟨hc.draining,?_,hc.watched,hc.bounded,hc.synced⟩
      rintro (hb|hn)
      · exact hc.wakes (.inl hb)
      · cases hn
    · exact Holds.none _
    · exact h

theorem slotEvent_keeps (d : TcpDestChannel) (k : Slot) (readable writable : Bool) (io : Io) :
    Keeps (TcpConn.Sound d.bpPaused) (d.slotEvent k readable writable io) :=
  .seq (finishConnect_keeps _ _ _ _)
    (.seq (.guard _ (writeSlot_keeps _ _ _ (fun _ n h hn => h.write n hn)))
      (.seq (.guard _ (readLoop_keeps _ _ _ _ _)) (fun _ h => update_keeps d.bpPaused h)))

theorem slotFrame_keeps (d : TcpDestChannel) (k : Slot) (ftype : UInt8) (data : List UInt8)
    (io : Io) : Keeps (TcpConn.Sound d.bpPaused) (d.slotFrame k ftype data io) := by
  unfold slotFrame
  split_ifs
  · intro c h
    cases c with
    | some c => exact h
    | none =>
      rw [openConn]
      split
      · exact Holds.none _
      · exact .some (.opened _ _ true)
  · apply onTdata_keeps
    intro c h hne hl
    exact interest_sound (c := {c with txbuf := c.txbuf++data})
      (fun _ => List.append_ne_nil_of_right_ne_nil _ hne) (TcpConn.Sound.fits hl) h.synced
  · apply onTclose_keeps
    intro c h hne
    exact interest_sound (c := {c with closePending := true}) (fun _ => hne) h.bounded h.synced
  · exact Keeps.skip

/-- The rule for slots, as for a source. -/
theorem apply_holds (P : Bool → TcpConn → Prop) {d : TcpDestChannel} {call : Call} {k : Slot}
    (h : Holds (P d.bpPaused) (d.conns k))
    (hevent : ∀readable writable,Keeps (P d.bpPaused) (d.slotEvent k readable writable call.io))
    (hframe : ∀ftype payload data,call.op=.onFrame ftype payload →
      slotOfPayload payload=some (k,data) →
      Holds (P d.bpPaused) (d.slotFrame k ftype data call.io (d.conns k)).1)
    (hupdate : ∀p,Holds (P p) (updateConnInterest (dstConnInterest p) (d.conns k)).1) :
    Holds (P (d.apply call).1.bpPaused) ((d.apply call).1.conns k) := by
  have hp := d.apply_bpPaused call
  have hm := d.apply_moves call k
  generalize (d.apply call).1.conns k=c' at hm ⊢
  generalize framesFor k (d.apply call).2.frames=fs at hm
  generalize d.wroteTo k call=out at hm
  cases hm with
  | rest _ _ _ hsame =>
    rw [hsame]
    exact h
  | event token readable writable ho =>
    rw [hp,ho]
    exact hevent readable writable _ h
  | frame ftype payload data ho hslot =>
    rw [hp,ho]
    exact hframe ftype payload data ho hslot
  | paused p ho =>
    cases p with
    | true =>
      rw [hp,ho]
      exact hupdate true
    | false =>
      rw [hp,ho]
      exact hupdate false
  | cleared => exact Holds.none _

theorem Sound.apply {d : TcpDestChannel} (h : Sound d) (call : Call) : Sound (d.apply call).1 := by
  intro k
  refine apply_holds TcpConn.Sound (h k) ?_ ?_ ?_
  · intro readable writable
    exact d.slotEvent_keeps k readable writable call.io
  · intro ftype payload data _ _
    exact d.slotFrame_keeps k ftype data call.io _ (h k)
  · intro p
    exact update_keeps p (h k)

end TcpDestChannel

/-- The stream bytes a call brings for slot `k`. -/
def broughtTo (k : Slot) (call : Call) : List UInt8 :=
  match call.op with
  | .onFrame ftype payload =>
    match slotOfPayload payload with
    | some (j,data) => if j=k ∧ ftype=fTdata then data else []
    | none => []
  | _ => []

theorem broughtTo_frame {k : Slot} {call : Call} {ftype : UInt8} {payload data : List UInt8}
    (ho : call.op=.onFrame ftype payload) (hp : slotOfPayload payload=some (k,data)) :
    broughtTo k call=if ftype=fTdata then data else [] := by
  simp [broughtTo,ho,hp]

/-- A slot whose peer has gone: `rest` is what its stream has still to get. -/
inductive Drains : List UInt8 → Option TcpConn → Prop
  | done : Drains [] none
  | left {c : TcpConn} (hc : c.closePending=true) (hb : c.txbuf≠[]) : Drains c.txbuf (some c)

theorem Drains.none_iff {rest : List UInt8} {c : Option TcpConn} (h : Drains rest c) :
    c=none ↔ rest=[] := by
  cases h with
  | done => simp
  | left hc hb => simp [hb]

section Drain

variable (chId : UInt8) (k : Slot)

theorem updateConnInterest_drains {rest : List UInt8} {c : Option TcpConn} (h : Drains rest c)
    (interest : TcpConn → Option Interest) : Drains rest (updateConnInterest interest c).1 := by
  cases h with
  | done => exact .done
  | @left c hc hb =>
    exact .left (c := {c with watch := c.watch.update (interest c)}) hc hb

/-- One write that does not fail takes the front, and the slot goes with the last byte. -/
theorem writeSlot_drains {c : TcpConn} (hc : c.closePending=true)
    (notify : Bool) (ready : TcpConn → Bool) {w : WriteResult} (hw : w≠.error) :
    ∃rest,(writeSlot chId k notify ready w (some c)).2.wrote++rest=c.txbuf ∧
      Drains rest (writeSlot chId k notify ready w (some c)).1 := by
  obtain ⟨c',out,hr⟩ : ∃c' out,writeTxbuf ready w c=some (c',out) := by
    unfold writeTxbuf
    split_ifs
    · cases w with
      | wrote n => exact ⟨_,_,rfl⟩
      | again => exact ⟨_,_,rfl⟩
      | error => exact absurd rfl hw
    · exact ⟨_,_,rfl⟩
  obtain ⟨-,hpend,hout⟩ := writeTxbuf_kept hr
  simp only [writeSlot,hr]
  split_ifs with hd
  · exact ⟨[],by rw [← hout,hd.1],.done⟩
  · exact ⟨c'.txbuf,hout,.left (hpend.trans hc) (fun hn => hd ⟨hn,hpend.trans hc⟩)⟩

theorem readLoop_blocked {c : TcpConn} {blocked : TcpConn → Bool} (hb : blocked c=true)
    (notify : Bool) (rs : List (ReadResult 65536)) :
    readLoop chId k notify blocked rs (some c)=(some c,.quiet) := by
  cases rs with
  | nil => rfl
  | cons r rs => simp only [readLoop,hb,if_true]

theorem onTdata_drains {c : TcpConn} (hc : c.closePending=true) (hb : c.txbuf≠[]) (notify : Bool)
    (interest : TcpConn → Option Interest) {data : List UInt8}
    (hl : overLimit c data=true → data=[]) :
    Drains (c.txbuf++data) (onTdata chId k notify interest data (some c)).1 := by
  rw [onTdata]
  split_ifs with hd hover
  · rw [hd,List.append_nil]
    exact .left hc hb
  · exact absurd (hl hover) hd
  · exact .left (c := {c with
      txbuf := c.txbuf++data
      watch := c.watch.update (interest {c with txbuf := c.txbuf++data})}) hc
      (List.append_ne_nil_of_left_ne_nil hb _)

theorem onTclose_drains {c : TcpConn} (hb : c.txbuf≠[]) (interest : TcpConn → Option Interest) :
    Drains c.txbuf (onTclose chId k interest (some c)).1 := by
  rw [onTclose,if_neg hb]
  exact .left (c := {c with
    closePending := true, watch := c.watch.update (interest {c with closePending := true})}) rfl hb

end Drain

section Run

-- One slot of a channel, with the bytes a call writes to its stream.
variable {σ : Type} (step : σ → Call → σ × Effect) (conn : σ → Option TcpConn)
  (wrote : σ → Call → List UInt8) (k : Slot)

def writtenIn : σ → List Call → List UInt8
  | _,[] => []
  | s,call::calls => wrote s call++writtenIn (step s call).1 calls

/-- Where single calls drain an occupied slot, a run in which it stays occupied to its last call
writes the pending bytes in order, and frees the slot exactly with the last of them. -/
theorem run_drains {G : σ → Call → Prop}
    (hstep : ∀s call c,conn s=some c → c.closePending=true → c.txbuf≠[] → G s call →
      ∃rest,wrote s call++rest=c.txbuf++broughtTo k call ∧ Drains rest (conn (step s call).1))
    {s : σ} {calls : List Call} {pending : List UInt8} (hs : Drains pending (conn s))
    (h : Always step (fun s call => (conn s).isSome=true ∧ G s call) s calls) :
    conn (after step s calls)=none ↔
      writtenIn step wrote s calls=pending++calls.flatMap (broughtTo k) := by
  have hrun : ∃rest,writtenIn step wrote s calls++rest=pending++calls.flatMap (broughtTo k) ∧
      Drains rest (conn (after step s calls)) := by
    induction calls generalizing s pending with
    | nil => exact ⟨pending,by simp [writtenIn],hs⟩
    | cons call calls ih =>
      obtain ⟨⟨hocc,hg⟩,hrest⟩ := h
      generalize hcon : conn s=c at hs hocc
      cases hs with
      | done => exact nomatch hocc
      | @left c hc hb =>
        obtain ⟨rest,hw,hd⟩ := hstep s call c hcon hc hb hg
        obtain ⟨rest',hw',hd'⟩ := ih hd hrest
        refine ⟨rest',?_,hd'⟩
        rw [writtenIn,List.append_assoc,hw',← List.append_assoc,hw,List.flatMap_cons,
          List.append_assoc]
  obtain ⟨rest,hw,hd⟩ := hrun
  rw [hd.none_iff,← hw]
  exact List.self_eq_append_right.symm

end Run

namespace TcpSourceChannel

/-- No call that ends a draining slot `k` early: the link stays up, its writes do not fail and the
data that come for it keep to the limit. -/
def Undisturbed (k : Slot) (s : TcpSourceChannel) (call : Call) : Prop :=
  call.op≠.onLinkDisconnect ∧
    (∀token readable,call.op=.handleEvent token readable true → s.target call.op=some k →
      call.io.write≠.error) ∧
    ∀c,s.conns k=some c → overLimit c (broughtTo k call)=true → broughtTo k call=[]

theorem target_of_brought {s : TcpSourceChannel} {k : Slot} {call : Call}
    (h : s.target call.op≠some k) : broughtTo k call=[] := by
  obtain ⟨op,io⟩ := call
  cases op with
  | onFrame ftype payload =>
    cases hp : slotOfPayload payload with
    | none => simp [broughtTo,hp]
    | some v =>
      have hne : v.1≠k := by simpa [target,hp] using h
      simp [broughtTo,hp,hne]
  | _ => rfl

theorem apply_drains {s : TcpSourceChannel} {k : Slot} {call : Call} {c : TcpConn}
    (hs : s.conns k=some c) (hc : c.closePending=true) (hb : c.txbuf≠[])
    (hu : Undisturbed k s call) :
    ∃rest,s.wroteTo k call++rest=c.txbuf++broughtTo k call ∧
      Drains rest ((s.apply call).1.conns k) := by
  have hm := s.apply_moves call k
  generalize (s.apply call).1.conns k=c' at hm ⊢
  generalize framesFor k (s.apply call).2.frames=fs at hm
  generalize s.wroteTo k call=out at hm ⊢
  cases hm with
  | rest ht =>
    rw [target_of_brought ht,hs]
    exact ⟨c.txbuf,by simp,.left hc hb⟩
  | accepted _ _ hfree => exact nomatch hs.symm.trans hfree
  | event token readable writable ho ht =>
    have hnone : broughtTo k call=[] := by simp [broughtTo,ho]
    have hread : SlotOp.guard readable
        (readLoop s.chId k s.linkUp TcpConn.closePending call.io.reads) (some c)=
          (some c,.quiet) := by
      cases readable with
      | false => rfl
      | true => exact readLoop_blocked s.chId k hc s.linkUp call.io.reads
    rw [hnone,List.append_nil,hs,slotEvent,SlotOp.seq,hread]
    cases writable with
    | false => exact ⟨c.txbuf,rfl,.left hc hb⟩
    | true =>
      obtain ⟨rest,hw,hd⟩ := writeSlot_drains s.chId k hc s.linkUp (fun _ => true)
        (hu.2.1 token readable ho ht)
      refine ⟨rest,?_,updateConnInterest_drains hd _⟩
      simpa [SlotOp.seq,updateConnInterest] using hw
  | frame ftype payload data ho hp =>
    have hbrought := broughtTo_frame ho hp
    rw [hbrought,hs]
    unfold slotFrame
    split_ifs with h₁ h₂
    · have hl := hu.2.2 c hs
      rw [hbrought,if_pos h₁] at hl
      exact ⟨c.txbuf++data,rfl,onTdata_drains s.chId k hc hb s.linkUp _ hl⟩
    · exact ⟨c.txbuf,by simp,onTclose_drains s.chId k hb _⟩
    · exact ⟨c.txbuf,by simp,.left hc hb⟩
  | paused p ho =>
    have hnone : broughtTo k call=[] := by
      cases p <;> simp [broughtTo,ho]
    rw [hnone,hs]
    exact ⟨c.txbuf,by simp,updateConnInterest_drains (.left hc hb) _⟩
  | cleared ho => exact absurd ho hu.1

theorem peerCloses_drains {s : TcpSourceChannel} {k : Slot} {c : TcpConn} (hs : s.conns k=some c)
    (hb : c.txbuf≠[]) (data : List UInt8) :
    Drains c.txbuf ((s.apply (peerCloses k data)).1.conns k) := by
  simp only [peerCloses,apply_slotFrame s (slotOfPayload_packCid k data),atSlot_self,hs]
  exact onTclose_drains s.chId k hb _

end TcpSourceChannel

namespace TcpDestChannel

/-- As at the source; a link that comes up also ends the connections, and the connect that is still
in progress must not fail. -/
def Undisturbed (k : Slot) (d : TcpDestChannel) (call : Call) : Prop :=
  call.op≠.onLinkConnect ∧ call.op≠.onLinkDisconnect ∧
    (∀token readable,call.op=.handleEvent token readable true → target call.op=some k →
      call.io.write≠.error ∧ ∀c,d.conns k=some c → c.connecting=true → call.io.peerAddr=true) ∧
    ∀c,d.conns k=some c → overLimit c (broughtTo k call)=true → broughtTo k call=[]

theorem target_of_brought {k : Slot} {call : Call} (h : target call.op≠some k) :
    broughtTo k call=[] := by
  obtain ⟨op,io⟩ := call
  cases op with
  | onFrame ftype payload =>
    cases hp : slotOfPayload payload with
    | none => simp [broughtTo,hp]
    | some v =>
      have hne : v.1≠k := by simpa [target,hp] using h
      simp [broughtTo,hp,hne]
  | _ => rfl

/-- A connect that does not fail leaves the buffer alone. -/
theorem finishConnect_kept (chId : UInt8) (k : Slot) (writable : Bool) {io : Io} {c : TcpConn}
    (h : writable=true → c.connecting=true → io.peerAddr=true) :
    ∃b,finishConnect chId k writable io (some c)=(some {c with connecting := b},.quiet) := by
  simp only [finishConnect]
  split_ifs with hf hp
  · exact ⟨false,rfl⟩
  · exact absurd (h hf.2 hf.1) hp
  · exact ⟨c.connecting,rfl⟩

theorem slotEvent_drains {d : TcpDestChannel} {k : Slot} {c : TcpConn} (hc : c.closePending=true)
    (hb : c.txbuf≠[]) (readable writable : Bool) {io : Io}
    (hw : writable=true → io.write≠.error ∧ (c.connecting=true → io.peerAddr=true)) :
    ∃rest,(d.slotEvent k readable writable io (some c)).2.wrote++rest=c.txbuf ∧
      Drains rest (d.slotEvent k readable writable io (some c)).1 := by
  obtain ⟨b,hconnect⟩ := finishConnect_kept d.chId k writable (fun h => (hw h).2)
  have hrest : ∀{rest : List UInt8} {c' : Option TcpConn},Drains rest c' →
      (SlotOp.seq (.guard readable (readLoop d.chId k true
        (fun c => c.connecting || c.closePending) io.reads))
        (updateConnInterest (dstConnInterest d.bpPaused)) c').2.wrote=[] ∧
      Drains rest (SlotOp.seq (.guard readable (readLoop d.chId k true
        (fun c => c.connecting || c.closePending) io.reads))
        (updateConnInterest (dstConnInterest d.bpPaused)) c').1 := by
    intro rest c' h
    have hread : SlotOp.guard readable (readLoop d.chId k true
        (fun c => c.connecting || c.closePending) io.reads) c'=(c',.quiet) := by
      cases readable with
      | false => rfl
      | true =>
        cases h with
        | done => cases io.reads <;> rfl
        | left hc hb => exact readLoop_blocked d.chId k (by simp [hc]) true io.reads
    rw [SlotOp.seq,hread]
    exact ⟨rfl,updateConnInterest_drains h _⟩
  rw [slotEvent,SlotOp.seq,hconnect]
  cases writable with
  | false =>
    obtain ⟨hwrote,hd⟩ := hrest (.left (c := {c with connecting := b}) hc hb)
    refine ⟨c.txbuf,?_,hd⟩
    simpa [SlotOp.guard_false,SlotOp.skip_seq] using hwrote
  | true =>
    obtain ⟨rest,hout,hd⟩ := writeSlot_drains d.chId k (c := {c with connecting := b}) hc true
      (fun c => !c.connecting) (hw rfl).1
    obtain ⟨hwrote,hd'⟩ := hrest hd
    refine ⟨rest,?_,hd'⟩
    rw [SlotOp.guard_true,SlotOp.seq]
    simp only [Effect.quiet_next,Effect.next_wrote,hwrote,List.append_nil]
    exact hout

theorem apply_drains {d : TcpDestChannel} {k : Slot} {call : Call} {c : TcpConn}
    (hs : d.conns k=some c) (hc : c.closePending=true) (hb : c.txbuf≠[])
    (hu : Undisturbed k d call) :
    ∃rest,d.wroteTo k call++rest=c.txbuf++broughtTo k call ∧
      Drains rest ((d.apply call).1.conns k) := by
  obtain ⟨hup,hdown,hevent,hlimit⟩ := hu
  have hm := d.apply_moves call k
  generalize (d.apply call).1.conns k=c' at hm ⊢
  generalize framesFor k (d.apply call).2.frames=fs at hm
  generalize d.wroteTo k call=out at hm ⊢
  cases hm with
  | rest ht =>
    rw [target_of_brought ht,hs]
    exact ⟨c.txbuf,by simp,.left hc hb⟩
  | event token readable writable ho hk =>
    have hnone : broughtTo k call=[] := by simp [broughtTo,ho]
    rw [hnone,List.append_nil,hs]
    apply slotEvent_drains hc hb
    intro hw
    have htarget : target call.op=some k := by simp [target,ho,hk]
    obtain ⟨h₁,h₂⟩ := hevent token readable (by rw [ho,hw]) htarget
    exact ⟨h₁,h₂ c hs⟩
  | frame ftype payload data ho hp =>
    have hbrought := broughtTo_frame ho hp
    rw [hbrought,hs]
    unfold slotFrame
    split_ifs with h₁ h₂ h₃ h₄
    · exact absurd (h₁.symm.trans h₂) (by decide)
    · have hl := hlimit c hs
      rw [hbrought,if_pos h₁] at hl
      exact ⟨c.txbuf++data,rfl,onTdata_drains d.chId k hc hb true _ hl⟩
    · exact ⟨c.txbuf,by simp,.left hc hb⟩
    · exact ⟨c.txbuf,by simp,onTclose_drains d.chId k hb _⟩
    · exact ⟨c.txbuf,by simp,.left hc hb⟩
  | paused p ho =>
    have hnone : broughtTo k call=[] := by
      cases p <;> simp [broughtTo,ho]
    rw [hnone,hs]
    exact ⟨c.txbuf,by simp,updateConnInterest_drains (.left hc hb) _⟩
  | cleared ho =>
    rcases ho with ho|ho
    · exact absurd ho hup
    · exact absurd ho hdown

theorem peerCloses_drains {d : TcpDestChannel} {k : Slot} {c : TcpConn} (hs : d.conns k=some c)
    (hb : c.txbuf≠[]) (data : List UInt8) :
    Drains c.txbuf ((d.apply (peerCloses k data)).1.conns k) := by
  simp only [peerCloses,apply_slotFrame d (slotOfPayload_packCid k data),atSlot_self,hs]
  exact onTclose_drains d.chId k hb _

end TcpDestChannel

/-- Every slot of either side is in order after any sequence of calls. Once the peer has closed a
connection with bytes pending, its slot is freed exactly with the last of them. -/
theorem tcp_slots_sound (chId : UInt8) (setup : List Call) (k : Slot) (data : List UInt8)
    (calls : List Call) :
    ((after TcpSourceChannel.apply (.new chId) setup).Sound ∧
      ∀c,(after TcpSourceChannel.apply (.new chId) setup).conns k=some c → c.txbuf≠[] →
        Always TcpSourceChannel.apply
          (fun s call => (s.conns k).isSome=true ∧ TcpSourceChannel.Undisturbed k s call)
          ((after TcpSourceChannel.apply (.new chId) setup).apply (peerCloses k data)).1 calls →
        ((after TcpSourceChannel.apply (.new chId) (setup++peerCloses k data::calls)).conns k=none ↔
          writtenIn TcpSourceChannel.apply (TcpSourceChannel.wroteTo k)
            ((after TcpSourceChannel.apply (.new chId) setup).apply (peerCloses k data)).1 calls=
            c.txbuf++calls.flatMap (broughtTo k))) ∧
    ((after TcpDestChannel.apply (.new chId) setup).Sound ∧
      ∀c,(after TcpDestChannel.apply (.new chId) setup).conns k=some c → c.txbuf≠[] →
        Always TcpDestChannel.apply
          (fun d call => (d.conns k).isSome=true ∧ TcpDestChannel.Undisturbed k d call)
          ((after TcpDestChannel.apply (.new chId) setup).apply (peerCloses k data)).1 calls →
        ((after TcpDestChannel.apply (.new chId) (setup++peerCloses k data::calls)).conns k=none ↔
          writtenIn TcpDestChannel.apply (TcpDestChannel.wroteTo k)
            ((after TcpDestChannel.apply (.new chId) setup).apply (peerCloses k data)).1 calls=
            c.txbuf++calls.flatMap (broughtTo k))) := by
  refine ⟨⟨?_,?_⟩,⟨?_,?_⟩⟩
  · exact after_of_step TcpSourceChannel.apply (fun _ call h => h.apply call)
      (fun _ => Holds.none _) setup
  · intro c hc hb hcalls
    rw [after_append,after_cons]
    refine run_drains TcpSourceChannel.apply (fun s => s.conns k) _ k
      (fun s call c hs hp hb hu => TcpSourceChannel.apply_drains hs hp hb hu) ?_ hcalls
    exact TcpSourceChannel.peerCloses_drains hc hb data
  · exact after_of_step TcpDestChannel.apply (fun _ call h => h.apply call)
      (fun _ => Holds.none _) setup
  · intro c hc hb hcalls
    rw [after_append,after_cons]
    refine run_drains TcpDestChannel.apply (fun d => d.conns k) _ k
      (fun d call c hs hp hb hu => TcpDestChannel.apply_drains hs hp hb hu) ?_ hcalls
    exact TcpDestChannel.peerCloses_drains hc hb data

/-- The one pending byte of `pendingSource` is written after a first try that would block. -/
theorem tcp_slots_sound_oneByte :
    (after TcpSourceChannel.apply (pendingSource.apply (peerCloses 0 [])).1
      [slotWrites .again,slotWrites (.wrote 1)]).conns 0=none := by
  have hconn : ∃c,pendingSource.conns 0=some c ∧ c.txbuf=[0x61] := ⟨_,rfl,rfl⟩
  obtain ⟨c,hc,hb⟩ := hconn
  refine (((tcp_slots_sound 0 _ 0 [] [slotWrites .again,slotWrites (.wrote 1)]).1.2 c hc ?_
    ⟨⟨?_,?_⟩,⟨?_,?_⟩,trivial⟩).mpr ?_)
  · rw [hb]
    exact List.cons_ne_nil _ _
  · decide +kernel
  · exact ⟨by simp [slotWrites],fun _ _ _ _ => by simp [slotWrites],fun _ _ _ => rfl⟩
  · decide +kernel
  · exact ⟨by simp [slotWrites],fun _ _ _ _ => by simp [slotWrites],fun _ _ _ => rfl⟩
  · rw [hb]
    decide +kernel

end Serialmux.Channel

import Serialmux.Framework.Sessions
import Serialmux.Channel.TcpMoves
import Serialmux.Channel.TcpSlot

namespace Serialmux.Channel

open Protocol Framework

/-- What is said about one slot. -/
abbrev types (fs : List Frame) : List UInt8 := fs.map Frame.ftype

/-- Frame types that lead a slot from one occupancy to another. -/
abbrev SlotLeads (o o' : Bool) (u : List UInt8) : Prop := Leads fTconn fTdata fTclose o o' u

/-- An operation that keeps to the grammar: an occupied slot sends data, and at most one close when
it is freed; no slot is opened. -/
def Speaks (op : SlotOp) : Prop := ∀c,SlotLeads c.isSome (op c).1.isSome (types (op c).2.frames)

namespace Speaks

theorem skip : Speaks .skip := fun _ => .rest _

theorem seq {f g : SlotOp} (hf : Speaks f) (hg : Speaks g) : Speaks (.seq f g) := by
  intro c
  have h := (hf c).trans (hg (f c).1)
  rwa [← List.map_append] at h

theorem guard {f : SlotOp} (b : Bool) (hf : Speaks f) : Speaks (.guard b f) := by
  cases b with
  | false => exact skip
  | true => exact hf

end Speaks

section Slot

variable (chId : UInt8) (slot : Slot) (notify : Bool)

theorem closeSlot_speaks : Speaks (closeSlot chId slot notify) := by
  intro c
  cases c with
  | none => exact .rest _
  | some c =>
    cases notify with
    | false => exact .ends
    | true => exact .closes

theorem updateConnInterest_speaks (interest : TcpConn → Option Interest) :
    Speaks (updateConnInterest interest) := by
  intro c
  cases c <;> exact .rest _

theorem readLoop_speaks (blocked : TcpConn → Bool) (rs : List (ReadResult 65536)) :
    Speaks (readLoop chId slot notify blocked rs) := by
  induction rs with
  | nil => exact Speaks.skip
  | cons r rs ih =>
    intro c
    cases c with
    | none => exact .rest _
    | some c =>
      have hclose := closeSlot_speaks chId slot notify (some c)
      simp only [readLoop]
      split_ifs
      · exact .rest _
      · cases r with
        | wouldBlock => exact .rest _
        | error e => exact hclose
        | data bs hn =>
          cases bs with
          | nil => exact hclose
          | cons b bs =>
            have hsaid : ∀x∈types (tdataFrames chId slot (b::bs)),x=fTdata := by
              intro x hx
              obtain ⟨f,hf,rfl⟩ := List.mem_map.mp hx
              exact tdataFrames_ftype hf
            simpa [types] using (Leads.goesOn hsaid).trans (ih (some c))

theorem writeSlot_speaks (ready : TcpConn → Bool) (w : WriteResult) :
    Speaks (writeSlot chId slot notify ready w) := by
  intro c
  cases c with
  | none => exact .rest _
  | some c =>
    simp only [writeSlot]
    cases writeTxbuf ready w c with
    | none => exact closeSlot_speaks chId slot notify (some c)
    | some r =>
      dsimp only
      split_ifs
      · exact .ends
      · exact .rest _

theorem onTdata_speaks (interest : TcpConn → Option Interest) (data : List UInt8) :
    Speaks (onTdata chId slot notify interest data) := by
  intro c
  cases c with
  | none => exact .rest _
  | some c =>
    simp only [onTdata]
    split_ifs
    · exact .rest _
    · exact closeSlot_speaks chId slot notify (some c)
    · exact .rest _

theorem onTclose_speaks (interest : TcpConn → Option Interest) :
    Speaks (onTclose chId slot interest) := by
  intro c
  cases c with
  | none => exact .rest _
  | some c =>
    simp only [onTclose]
    split_ifs
    · exact .ends
    · exact .rest _

end Slot

namespace TcpSourceChannel

/-- The types of the frames a call sends about slot `k`. -/
def said (k : Slot) (s : TcpSourceChannel) (call : Call) : List UInt8 :=
  types (framesFor k (s.apply call).2.frames)

theorem slotEvent_speaks (s : TcpSourceChannel) (k : Slot) (readable writable : Bool) (io : Io) :
    Speaks (s.slotEvent k readable writable io) :=
  .seq (.guard _ (readLoop_speaks _ _ _ _ _))
    (.guard _ (.seq (writeSlot_speaks _ _ _ _ _) (updateConnInterest_speaks _)))

theorem slotFrame_speaks (s : TcpSourceChannel) (k : Slot) (ftype : UInt8) (data : List UInt8) :
    Speaks (s.slotFrame k ftype data) := by
  unfold slotFrame
  split_ifs
  · exact onTdata_speaks _ _ _ _ _
  · exact onTclose_speaks _ _ _
  · exact .skip

/-- While its link lasts, a source opens a session by entering a client. -/
theorem said_leads (k : Slot) (s : TcpSourceChannel) {call : Call}
    (hd : call.op≠.onLinkDisconnect) :
    SlotLeads (s.conns k).isSome ((s.apply call).1.conns k).isSome (said k s call) := by
  have hm := s.apply_moves call k
  unfold said
  generalize (s.apply call).1.conns k=c' at hm ⊢
  generalize framesFor k (s.apply call).2.frames=fs at hm ⊢
  generalize s.wroteTo k call=out at hm
  cases hm with
  | rest => exact .rest _
  | accepted stream _ hfree =>
    rw [hfree]
    exact .opens
  | event token readable writable => exact s.slotEvent_speaks k readable writable call.io _
  | frame ftype payload data => exact s.slotFrame_speaks k ftype data _
  | paused p => exact updateConnInterest_speaks (srcConnInterest p) _
  | cleared ho => exact absurd ho hd

/-- F_TCONN goes out only for a slot that was free. -/
theorem tconn_free (k : Slot) (s : TcpSourceChannel) {call : Call} (h : fTconn∈said k s call) :
    s.conns k=none := by
  have hm := s.apply_moves call k
  unfold said at h
  generalize (s.apply call).1.conns k=c' at hm
  generalize framesFor k (s.apply call).2.frames=fs at hm h
  generalize s.wroteTo k call=out at hm
  cases hm with
  | rest => exact nomatch h
  | accepted _ _ hfree => exact hfree
  | event token readable writable =>
    obtain ⟨f,hf,htype⟩ := List.mem_map.mp h
    cases hc : s.conns k with
    | none => rfl
    | some c =>
      rw [hc] at hf
      have hevent := s.slotEvent_local k readable writable call.io
      exact absurd htype ((hevent.occupied c).unannounced f hf)
  | frame ftype payload data _ hp =>
    obtain ⟨f,hf,htype⟩ := List.mem_map.mp h
    have hframe := s.slotFrame_deliver (f := ⟨ftype,s.chId,payload⟩) hp
    exact absurd htype (hframe.unannounced _ f hf)
  | paused => exact nomatch h
  | cleared => exact nomatch h

end TcpSourceChannel

namespace TcpDestChannel

/-- Whether the call brings F_TCONN for slot `k` and finds it free. -/
def asked (k : Slot) (d : TcpDestChannel) (call : Call) : Bool :=
  match call.op with
  | .onFrame ftype payload =>
    ftype==fTconn && (slotOfPayload payload).any (fun p => p.1==k) && (d.conns k).isNone
  | _ => false

/-- What is said about slot `k` in a call: by the peer, whose F_TCONN opens it, then by the
channel. -/
def said (k : Slot) (d : TcpDestChannel) (call : Call) : List UInt8 :=
  (if d.asked k call then [fTconn] else [])++types (framesFor k (d.apply call).2.frames)

theorem finishConnect_speaks (chId : UInt8) (slot : Slot) (writable : Bool) (io : Io) :
    Speaks (finishConnect chId slot writable io) := by
  intro c
  cases c with
  | none => exact .rest _
  | some c =>
    simp only [finishConnect]
    split_ifs
    · exact .rest _
    · exact closeSlot_speaks chId slot true (some c)
    · exact .rest _

theorem slotEvent_speaks (d : TcpDestChannel) (k : Slot) (readable writable : Bool) (io : Io) :
    Speaks (d.slotEvent k readable writable io) :=
  .seq (finishConnect_speaks _ _ _ _) (.seq (.guard _ (writeSlot_speaks _ _ _ _ _))
    (.seq (.guard _ (readLoop_speaks _ _ _ _ _)) (updateConnInterest_speaks _)))

/-- F_TCONN at a free slot: it opens, or the attempt ends with the one F_TCLOSE. -/
theorem openConn_leads (chId : UInt8) (slot : Slot) (io : Io) :
    SlotLeads false (openConn chId slot io none).1.isSome
      ([fTconn]++types (openConn chId slot io none).2.frames) := by
  rw [openConn]
  cases io.connect with
  | none => exact Leads.opens.trans .closes
  | some stream => exact Leads.opens.trans (.rest _)

theorem slotFrame_leads (d : TcpDestChannel) (k : Slot) (ftype : UInt8) (data : List UInt8)
    (io : Io) (c : Option TcpConn) :
    SlotLeads c.isSome (d.slotFrame k ftype data io c).1.isSome
      ((if ftype=fTconn ∧ c=none then [fTconn] else [])++
        types (d.slotFrame k ftype data io c).2.frames) := by
  by_cases hconn : ftype=fTconn
  · rw [slotFrame,if_pos hconn]
    cases c with
    | none =>
      rw [if_pos ⟨hconn,rfl⟩]
      exact openConn_leads d.chId k io
    | some c =>
      rw [if_neg (by simp)]
      exact .rest _
  · have hask : ¬(ftype=fTconn ∧ c=none) := fun h => hconn h.1
    rw [slotFrame,if_neg hconn,if_neg hask,List.nil_append]
    split_ifs
    · exact onTdata_speaks _ _ _ _ _ c
    · exact onTclose_speaks _ _ _ c
    · exact .rest _

/-- Between two changes of the link, a destination opens a session when it is asked to. -/
theorem said_leads (k : Slot) (d : TcpDestChannel) {call : Call} (hc : call.op≠.onLinkConnect)
    (hd : call.op≠.onLinkDisconnect) :
    SlotLeads (d.conns k).isSome ((d.apply call).1.conns k).isSome (said k d call) := by
  have hm := d.apply_moves call k
  unfold said
  generalize (d.apply call).1.conns k=c' at hm ⊢
  generalize framesFor k (d.apply call).2.frames=fs at hm ⊢
  generalize d.wroteTo k call=out at hm
  cases hm with
  | rest ht =>
    have hask : d.asked k call=false := by
      unfold asked
      split
      · next ftype payload ho =>
        cases hp : slotOfPayload payload with
        | none => simp
        | some p =>
          have hne : p.1≠k := by
            rintro rfl
            exact ht (by simp [target,ho,hp])
          simp [hne]
      · rfl
    rw [hask]
    exact .rest _
  | event token readable writable ho =>
    rw [show d.asked k call=false by simp [asked,ho]]
    exact d.slotEvent_speaks k readable writable call.io _
  | frame ftype payload data ho hp =>
    have hask : d.asked k call=true ↔ ftype=fTconn ∧ d.conns k=none := by
      simp [asked,ho,hp]
    rw [if_congr hask rfl rfl]
    exact d.slotFrame_leads k ftype data call.io _
  | paused p ho =>
    have hask : d.asked k call=false := by
      cases p <;> simp [asked,ho]
    rw [hask]
    exact updateConnInterest_speaks (dstConnInterest p) _
  | cleared ho => exact absurd ho (not_or.mpr ⟨hc,hd⟩)

theorem run_chId (chId : UInt8) (calls : List Call) :
    (after TcpDestChannel.apply (.new chId) calls).chId=chId :=
  after_of_step (P := fun d : TcpDestChannel => d.chId=chId) _ (fun d call h => (d.apply_sends call).1.trans h) rfl
    calls

/-- A connect that cannot even be started. -/
theorem connect_refused {d : TcpDestChannel} {k : Slot} {io : Io} {payload data : List UInt8}
    (hp : slotOfPayload payload=some (k,data)) (hfree : d.conns k=none) (hio : io.connect=none) :
    (d.apply ⟨.onFrame fTconn payload,io⟩).2.frames=[tcloseFrame d.chId k] ∧
      (d.apply ⟨.onFrame fTconn payload,io⟩).1.conns k=none := by
  rw [apply_slotFrame d hp]
  simp [slotFrame,hfree,openConn,hio,atSlot_self]

/-- A connect that turns out to have failed. -/
theorem connect_failed {d : TcpDestChannel} {k : Slot} {c : TcpConn} {token : Token}
    (readable : Bool) {io : Io} (ht : slotOfToken token=k) (hc : d.conns k=some c)
    (hconn : c.connecting=true) (hio : io.peerAddr=false) :
    (d.apply ⟨.handleEvent token readable true,io⟩).2.frames=[tcloseFrame d.chId k] ∧
      (d.apply ⟨.handleEvent token readable true,io⟩).1.conns k=none := by
  subst ht
  have hfirst : finishConnect d.chId (slotOfToken token) true io (some c)=
      (none,.sends [tcloseFrame d.chId (slotOfToken token)]) := by
    simp [finishConnect,hconn,hio,closeSlot]
  have hrest := LocalOp.seq
    (LocalOp.guard true
      (writeSlot_local d.chId (slotOfToken token) true (fun c => !c.connecting) io.write))
    (.seq (.guard readable (readLoop_local d.chId (slotOfToken token) true
      (fun c => c.connecting || c.closePending) io.reads))
      (updateConnInterest_local (dstConnInterest d.bpPaused)))
  have hevent : d.slotEvent (slotOfToken token) readable true io (some c)=
      (none,.sends [tcloseFrame d.chId (slotOfToken token)]) := by
    rw [slotEvent,SlotOp.seq,hfirst,hrest.empty,Effect.next_quiet]
  simp [TcpDestChannel.apply,tcpEvent,atSlot,hc,hevent]

end TcpDestChannel

/-- A run ends where a session begins: at the very start, or with a call in `ends`. -/
def Begins (ends : ChannelOp → Prop) (pre : List Call) : Prop :=
  pre=[] ∨ ∃calls call,pre=calls++[call] ∧ ends call.op

/-- The frame grammar of a connection id. At a source the frames of a link session are
`(F_TCONN F_TDATA* F_TCLOSE?)*`, and F_TCONN goes out at a free slot only. At a destination the
same holds of its frames together with the received F_TCONN that found the slot free; and a
connect that fails is answered by one F_TCLOSE, at whichever stage. -/
theorem tcp_frame_grammar (chId : UInt8) (k : Slot) (pre calls : List Call) :
    (Begins (·=.onLinkDisconnect) pre → (∀call∈calls,call.op≠.onLinkDisconnect) →
      trace TcpSourceChannel.apply (TcpSourceChannel.said k)
        (after TcpSourceChannel.apply (.new chId) pre) calls∈sessions fTconn fTdata fTclose) ∧
    (∀call,fTconn∈(after TcpSourceChannel.apply (.new chId) pre).said k call →
      (after TcpSourceChannel.apply (.new chId) pre).conns k=none) ∧
    (Begins (fun op => op=.onLinkConnect ∨ op=.onLinkDisconnect) pre →
      (∀call∈calls,call.op≠.onLinkConnect ∧ call.op≠.onLinkDisconnect) →
      trace TcpDestChannel.apply (TcpDestChannel.said k)
        (after TcpDestChannel.apply (.new chId) pre) calls∈sessions fTconn fTdata fTclose) ∧
    (∀io payload data,slotOfPayload payload=some (k,data) → io.connect=none →
      (after TcpDestChannel.apply (.new chId) pre).conns k=none →
      let r := (after TcpDestChannel.apply (.new chId) pre).apply ⟨.onFrame fTconn payload,io⟩
      r.2.frames=[tcloseFrame chId k] ∧ r.1.conns k=none) ∧
    (∀io token readable c,slotOfToken token=k → io.peerAddr=false → c.connecting=true →
      (after TcpDestChannel.apply (.new chId) pre).conns k=some c →
      let r := (after TcpDestChannel.apply (.new chId) pre).apply
        ⟨.handleEvent token readable true,io⟩
      r.2.frames=[tcloseFrame chId k] ∧ r.1.conns k=none) := by
  refine ⟨?_,?_,?_,?_,?_⟩
  · intro hpre hcalls
    have hfree : ((after TcpSourceChannel.apply (.new chId) pre).conns k).isSome=false := by
      rcases hpre with rfl|⟨calls,call,rfl,ho⟩
      · rfl
      · rw [after_append,after_cons,after_nil]
        simp [TcpSourceChannel.apply,ho]
    exact trace_mem_sessions TcpSourceChannel.apply
      (TcpSourceChannel.said k) (fun s call h => s.said_leads k h) hfree (always_of_forall _ hcalls)
  · intro call
    exact TcpSourceChannel.tconn_free k _
  · intro hpre hcalls
    have hfree : ((after TcpDestChannel.apply (.new chId) pre).conns k).isSome=false := by
      rcases hpre with rfl|⟨calls,call,rfl,ho⟩
      · rfl
      · rw [after_append,after_cons,after_nil]
        rcases ho with ho|ho <;> simp [TcpDestChannel.apply,ho]
    exact trace_mem_sessions TcpDestChannel.apply
      (TcpDestChannel.said k) (fun d call h => d.said_leads k h.1 h.2) hfree
      (always_of_forall _ hcalls)
  · intro io payload data hp hio hfree
    have h := TcpDestChannel.connect_refused hp hfree hio
    rwa [TcpDestChannel.run_chId] at h
  · intro io token readable c ht hio hconn hc
    have h := TcpDestChannel.connect_failed readable ht hc hconn hio
    rwa [TcpDestChannel.run_chId] at h

/-- A client that connects, sends a byte and leaves. -/
def visitCalls : List Call :=
  [⟨.onLinkConnect,.idle⟩,
    ⟨.handleEvent (primaryToken 1) true false,{Io.idle with accepts := [⟨7,true⟩]}⟩,
    ⟨.handleEvent (tcpSlotToken 1 0) true false,
      {Io.idle with reads := [.data [65] (by decide),.data [] eof_fits]}⟩]

/-- A connect that starts and is then found to have failed. -/
def failCalls : List Call := [⟨.onFrame fTconn [0,0],{Io.idle with connect := some 7}⟩]

theorem tcp_frame_grammar_visit :
    trace TcpSourceChannel.apply (TcpSourceChannel.said 0) (.new 1) visitCalls=
        [fTconn,fTdata,fTclose] ∧
      trace TcpSourceChannel.apply (TcpSourceChannel.said 0) (.new 1) visitCalls∈
        sessions fTconn fTdata fTclose ∧
      trace TcpDestChannel.apply (TcpDestChannel.said 0) (.new 1) failCalls∈
        sessions fTconn fTdata fTclose ∧
      ((TcpDestChannel.new 1).apply ⟨.onFrame fTconn [0,0],.idle⟩).2.frames=[tcloseFrame 1 0] ∧
      ((after TcpDestChannel.apply (.new 1) failCalls).apply
        ⟨.handleEvent (tcpSlotToken 1 0) false true,.idle⟩).2.frames=[tcloseFrame 1 0] := by
  obtain ⟨hsource,-,hdest,hrefused,-⟩ := tcp_frame_grammar 1 0 [] visitCalls
  obtain ⟨-,-,hdest,-,-⟩ := tcp_frame_grammar 1 0 [] failCalls
  obtain ⟨-,-,-,-,hfailed⟩ := tcp_frame_grammar 1 0 failCalls []
  refine ⟨by decide,hsource (.inl rfl) (by decide),hdest (.inl rfl) (by decide),?_,?_⟩
  · exact (hrefused .idle [0,0] [] (by decide) rfl rfl).1
  · exact (hfailed .idle (tcpSlotToken 1 0) false (.opened 7 true) (by decide) rfl rfl
      (by decide)).1

end Serialmux.Channel

import Serialmux.Framework.Machine
import Serialmux.Framework.Service
import Serialmux.Windlass.Framing

namespace Serialmux.Windlass

open Framework

/-- What one call of `Transport::receive` does: the bytes it leaves in the input buffer, the slices
it passes to `dispatch_raw`, in order, and the frames (such as acknowledgements) it outputs. -/
structure Received (τ : Type) where
  session : τ
  rest : List UInt8
  dispatched : List (List UInt8)
  output : List (List UInt8)

/-- The anchor crate, as the smart host uses it. `receive` is given what `dispatch_raw` answers for
a slice: the part it leaves unread, or a read error. -/
structure Anchor (τ : Type) where
  start : τ
  receive : (List UInt8 → Option (List UInt8)) → τ → List UInt8 → Received τ
  encodeFrame : τ → List UInt8 → τ × List UInt8
  readU8 : List UInt8 → Option (Nat × List UInt8)
  readU16 : List UInt8 → Option (Nat × List UInt8)
  readU32 : List UInt8 → Option (Nat × List UInt8)
  writeU32 : Nat → List UInt8

/-- Klipper fixed command id for `identify`. -/
def cmdIdentify : Nat := 1

section Dispatch

variable {τ : Type} (anchor : Anchor τ) (dictionary : List UInt8)

/-- What dispatch appends to: the queue to the exporter and the pending responses. -/
structure ProxyContext where
  toExporter : List (List UInt8)
  pendingResponses : List (List UInt8)

/-- Answers `identify` with the chunk of the dictionary asked for. -/
def dispatch (cmd : Nat) (frame : List UInt8) (ctx : ProxyContext) :
    Option (List UInt8) × ProxyContext :=
  if cmd≠cmdIdentify then (some frame,ctx)
  else
    match anchor.readU32 frame with
    | none => (none,ctx)
    | some (offset,frame) =>
      match anchor.readU8 frame with
      | none => (none,ctx)
      | some (count,frame) =>
        let chunk := if offset≤dictionary.length then
            (dictionary.take (min (offset+count) dictionary.length)).drop offset
          else []
        let resp := anchor.writeU32 0++anchor.writeU32 offset++anchor.writeU32 chunk.length++chunk
        (some frame,{ctx with pendingResponses := ctx.pendingResponses++[resp]})

def dispatchRaw (frame : List UInt8) (ctx : ProxyContext) : Option (List UInt8) × ProxyContext :=
  match anchor.readU16 frame with
  | none => (none,ctx)
  | some (cmd,rest) =>
    if cmd=cmdIdentify then dispatch anchor dictionary cmd rest ctx
    -- Forward non-identify commands unchanged.
    else (some [],{ctx with toExporter := ctx.toExporter++[frame]})

/-- The payloads that `dispatch_raw` sends to the exporter's queue for some slices. -/
def forwarded (slices : List (List UInt8)) : List (List UInt8) :=
  (slices.foldl (fun ctx frame => (dispatchRaw anchor dictionary frame ctx).2) ⟨[],[]⟩).toExporter

end Dispatch

/-- Where the connection handler stands between its awaits. -/
inductive Phase
  | starting
  | relaying
  | cleaning
  | returned
  deriving DecidableEq

/-- The task `cmd_fwd_task`. There is no await between its `recv` and its `send`. -/
inductive Forwarder
  | waiting
  | holding (payload : List UInt8)
  | cancelled
  deriving DecidableEq

namespace Forwarder

def hand : Forwarder → List (List UInt8)
  | .holding payload => [payload]
  | _ => []

end Forwarder

/-- One Klipper connection: the handler, its two tasks and the queues between them. `dispatched` is
all that `dispatch_raw` has sent to the exporter's queue, `usbOut` all that was sent to `usb_out`. -/
structure Connection (τ : Type) where
  phase : Phase
  session : τ
  inputBuf : List UInt8
  slotOpen : Bool
  fromMcu : List (List UInt8)
  toKlipper : List (List UInt8)
  toExporter : List (List UInt8)
  forwarder : Forwarder
  writing : Bool
  socketOut : List (List UInt8)
  dispatched : List (List UInt8)
  usbOut : List PayloadTunnelFrame

/-- What can happen next, in the handler, in its tasks or around them. -/
inductive ConnEvent
  /-- The slot's lock is taken, the tasks are spawned and the relay loop is entered. -/
  | register
  /-- A read of the socket ends: an error, or bytes (none at the end of the stream). -/
  | socketRead (result : Option (List UInt8))
  | mcuPayload
  /-- The USB reader passes a payload to the slot. -/
  | demux (payload : List UInt8)
  /-- The slot's lock is taken a second time, and the handler returns. -/
  | unregister
  | recv
  | send
  | cancelForwarder
  | write (ok : Bool)
  | cancelWriter
  deriving DecidableEq

namespace Connection

variable {τ : Type} (anchor : Anchor τ) (chId : UInt8) (dictionary : List UInt8)

def new : Connection τ :=
  ⟨.starting,anchor.start,[],false,[],[],[],.waiting,false,[],[],[]⟩

/-- `ChannelOutput::output` sends nothing for an empty buffer. -/
def output (s : Connection τ) (bufs : List (List UInt8)) : Connection τ :=
  {s with toKlipper := s.toKlipper++bufs.filter (·≠[])}

def encodeAll (s : Connection τ) (payloads : List (List UInt8)) : Connection τ :=
  payloads.foldl (fun s p =>
    output {s with session := (anchor.encodeFrame s.session p).1}
      [(anchor.encodeFrame s.session p).2]) s

/-- The socket branch of the relay loop for bytes that were read. -/
def onBytes (s : Connection τ) (bytes : List UInt8) : Connection τ :=
  let r := anchor.receive (fun frame => (dispatchRaw anchor dictionary frame ⟨[],[]⟩).1) s.session
    (s.inputBuf++bytes)
  let ctx := r.dispatched.foldl (fun ctx frame => (dispatchRaw anchor dictionary frame ctx).2)
    ⟨s.toExporter,[]⟩
  let s := {s with session := r.session,inputBuf := r.rest,toExporter := ctx.toExporter}
  let s := {s with dispatched := s.dispatched++forwarded anchor dictionary r.dispatched}
  encodeAll anchor (s.output r.output) ctx.pendingResponses

/-- The lock on the slot is there: the tasks are spawned and the relay loop is entered. -/
def register (s : Connection τ) : Connection τ :=
  if s.phase=.starting then {s with phase := .relaying,slotOpen := true,writing := true} else s

def onSocketRead (s : Connection τ) (result : Option (List UInt8)) : Connection τ :=
  if s.phase=.relaying then
    match result with
    | none | some [] => {s with phase := .cleaning}
    | some bytes => s.onBytes anchor dictionary bytes
  else s

def onMcuPayload (s : Connection τ) : Connection τ :=
  if s.phase=.relaying then
    match s.fromMcu with
    | p::rest => encodeAll anchor {s with fromMcu := rest} [p]
    -- All senders gone: the slot was cleared.
    | [] => if s.slotOpen then s else {s with phase := .cleaning}
  else s

def onDemux (s : Connection τ) (payload : List UInt8) : Connection τ :=
  if s.slotOpen then {s with fromMcu := s.fromMcu++[payload]} else s

/-- Both tasks have been told to abort when the handler waits for the lock a second time. -/
def unregister (s : Connection τ) : Connection τ :=
  if s.phase=.cleaning then {s with phase := .returned,slotOpen := false} else s

def recv (s : Connection τ) : Connection τ :=
  match s.forwarder,s.toExporter with
  | .waiting,payload::rest => {s with forwarder := .holding payload,toExporter := rest}
  | _,_ => s

def send (s : Connection τ) : Connection τ :=
  match s.forwarder with
  | .holding payload => {s with forwarder := .waiting,usbOut := s.usbOut++[⟨chId,payload⟩]}
  | _ => s

/-- The abort takes effect at an await. What is queued then is never received. -/
def cancelForwarder (s : Connection τ) : Connection τ :=
  if (s.phase=.cleaning ∨ s.phase=.returned) ∧ s.forwarder=.waiting then
    {s with forwarder := .cancelled}
  else s

def write (s : Connection τ) (ok : Bool) : Connection τ :=
  match s.writing,s.toKlipper with
  | true,bytes::rest =>
    if ok then {s with toKlipper := rest,socketOut := s.socketOut++[bytes]}
    else {s with toKlipper := rest,writing := false}
  | _,_ => s

def cancelWriter (s : Connection τ) : Connection τ :=
  if s.phase=.cleaning ∨ s.phase=.returned then {s with writing := false} else s

/-- One step. An event that cannot happen in a state leaves it as it is. -/
def step (s : Connection τ) : ConnEvent → Connection τ
  | .register => s.register
  | .socketRead result => s.onSocketRead anchor dictionary result
  | .mcuPayload => s.onMcuPayload anchor
  | .demux payload => s.onDemux payload
  | .unregister => s.unregister
  | .recv => s.recv
  | .send => s.send chId
  | .cancelForwarder => s.cancelForwarder
  | .write ok => s.write ok
  | .cancelWriter => s.cancelWriter

/-- The handler has returned only if all that was dispatched has been sent to `usb_out`. -/
def NothingLost (s : Connection τ) : Prop :=
  s.phase=.returned → s.usbOut=s.dispatched.map (⟨chId,·⟩)

/-- The step in which the handler returns finds the exporter's queue empty and the forwarder with
nothing in hand. -/
def Drained (s : Connection τ) (e : ConnEvent) : Prop :=
  e=.unregister → s.phase=.cleaning → s.toExporter=[] ∧ s.forwarder.hand=[]

/-- What was dispatched has been sent, or is in the forwarder's hand, or is queued. -/
def Accounted (s : Connection τ) : Prop :=
  s.dispatched.map (⟨chId,·⟩)=s.usbOut++(s.forwarder.hand++s.toExporter).map (⟨chId,·⟩)

/-- The parts of a connection that `Accounted` and the handler's return depend on. -/
theorem encodeAll_frame (s : Connection τ) (payloads : List (List UInt8)) :
    (s.encodeAll anchor payloads).phase=s.phase ∧
    (s.encodeAll anchor payloads).toExporter=s.toExporter ∧
    (s.encodeAll anchor payloads).forwarder=s.forwarder ∧
    (s.encodeAll anchor payloads).dispatched=s.dispatched ∧
    (s.encodeAll anchor payloads).usbOut=s.usbOut := by
  induction payloads generalizing s with
  | nil => exact ⟨rfl,rfl,rfl,rfl,rfl⟩
  | cons p payloads ih => exact ih _

end Connection

section Dispatch

variable {τ : Type} (anchor : Anchor τ) (dictionary : List UInt8)

theorem dispatch_toExporter (cmd : Nat) (frame : List UInt8) (ctx : ProxyContext) :
    (dispatch anchor dictionary cmd frame ctx).2.toExporter=ctx.toExporter := by
  unfold dispatch
  split_ifs
  · rfl
  · split
    · rfl
    · split <;> rfl

/-- A call of `dispatch_raw` appends what it forwards, whatever the context. -/
theorem dispatchRaw_toExporter (frame : List UInt8) (ctx ctx' : ProxyContext) :
    ∃sent,(dispatchRaw anchor dictionary frame ctx).2.toExporter=ctx.toExporter++sent ∧
      (dispatchRaw anchor dictionary frame ctx').2.toExporter=ctx'.toExporter++sent := by
  unfold dispatchRaw
  split
  · exact ⟨[],by simp⟩
  · split_ifs
    · exact ⟨[],by simp [dispatch_toExporter]⟩
    · exact ⟨[frame],rfl,rfl⟩

theorem foldl_dispatchRaw (slices : List (List UInt8)) (ctx : ProxyContext) :
    (slices.foldl (fun ctx frame => (dispatchRaw anchor dictionary frame ctx).2) ctx).toExporter=
      ctx.toExporter++forwarded anchor dictionary slices := by
  have haux (ctx ctx' : ProxyContext) : ∃sent,
      (slices.foldl (fun ctx frame => (dispatchRaw anchor dictionary frame ctx).2) ctx).toExporter=
        ctx.toExporter++sent ∧
      (slices.foldl (fun ctx frame => (dispatchRaw anchor dictionary frame ctx).2) ctx').toExporter=
        ctx'.toExporter++sent := by
    induction slices generalizing ctx ctx' with
    | nil => exact ⟨[],by simp⟩
    | cons frame slices ih =>
      obtain ⟨sent,h1,h2⟩ := dispatchRaw_toExporter anchor dictionary frame ctx ctx'
      obtain ⟨more,h3,h4⟩ := ih (dispatchRaw anchor dictionary frame ctx).2
        (dispatchRaw anchor dictionary frame ctx').2
      refine ⟨sent++more,?_,?_⟩
      · rw [List.foldl_cons,h3,h1,List.append_assoc]
      · rw [List.foldl_cons,h4,h2,List.append_assoc]
  obtain ⟨sent,h1,h2⟩ := haux ctx ⟨[],[]⟩
  have hf : forwarded anchor dictionary slices=sent := h2
  rw [h1,hf]

end Dispatch

namespace Connection

variable {τ : Type} (anchor : Anchor τ) (chId : UInt8) (dictionary : List UInt8)

/-- What a step can do with the commands. -/
inductive Moves (s : Connection τ) (e : ConnEvent) (s' : Connection τ) : Prop
  /-- Nothing, and the handler does not return. -/
  | rests (queue : s'.toExporter=s.toExporter) (hand : s'.forwarder.hand=s.forwarder.hand)
    (log : s'.dispatched=s.dispatched) (out : s'.usbOut=s.usbOut)
    (phase : s'.phase=.returned → s.phase=.returned) (event : e≠.unregister ∨ s.phase≠.cleaning)
  /-- The relay loop dispatches more of them. -/
  | dispatches (more : List (List UInt8)) (queue : s'.toExporter=s.toExporter++more)
    (hand : s'.forwarder.hand=s.forwarder.hand) (log : s'.dispatched=s.dispatched++more)
    (out : s'.usbOut=s.usbOut) (phase : s'.phase=.relaying) (event : e≠.unregister)
  /-- The forwarder takes one out of the queue. -/
  | takes (payload : List UInt8) (queue : s.toExporter=payload::s'.toExporter)
    (hand : s.forwarder.hand=[]) (hand' : s'.forwarder.hand=[payload])
    (log : s'.dispatched=s.dispatched) (out : s'.usbOut=s.usbOut) (phase : s'.phase=s.phase)
    (event : e≠.unregister)
  /-- The forwarder sends the one in its hand. -/
  | sends (payload : List UInt8) (queue : s'.toExporter=s.toExporter)
    (hand : s.forwarder.hand=[payload]) (hand' : s'.forwarder.hand=[])
    (log : s'.dispatched=s.dispatched) (out : s'.usbOut=s.usbOut++[⟨chId,payload⟩])
    (phase : s'.phase=s.phase) (event : e≠.unregister)
  /-- The handler returns. -/
  | returns (queue : s'.toExporter=s.toExporter) (hand : s'.forwarder.hand=s.forwarder.hand)
    (log : s'.dispatched=s.dispatched) (out : s'.usbOut=s.usbOut) (phase : s.phase=.cleaning)
    (phase' : s'.phase=.returned) (event : e=.unregister)

theorem Moves.refl {s : Connection τ} {e : ConnEvent} (h : e≠.unregister ∨ s.phase≠.cleaning) :
    Moves chId s e s := .rests rfl rfl rfl rfl id h

theorem onBytes_moves (s : Connection τ) (bytes : List UInt8) (hs : s.phase=.relaying) {e : ConnEvent}
    (he : e≠.unregister) : Moves chId s e (s.onBytes anchor dictionary bytes) := by
  unfold onBytes
  obtain ⟨hp,hq,hf,hd,hu⟩ := encodeAll_frame anchor _ _
  refine .dispatches _ (hq.trans ?_) (congrArg Forwarder.hand hf) hd hu (hp.trans hs) he
  exact foldl_dispatchRaw anchor dictionary _ _

theorem register_moves (s : Connection τ) : Moves chId s .register s.register := by
  unfold register
  split_ifs
  · exact .rests rfl rfl rfl rfl (fun h => by cases h) (.inl (by simp))
  · exact .refl chId (.inl (by simp))

theorem onSocketRead_moves (s : Connection τ) (result : Option (List UInt8)) :
    Moves chId s (.socketRead result) (s.onSocketRead anchor dictionary result) := by
  unfold onSocketRead
  split_ifs with hr
  · split
    · exact .rests rfl rfl rfl rfl (fun h => by cases h) (.inl (by simp))
    · exact .rests rfl rfl rfl rfl (fun h => by cases h) (.inl (by simp))
    · exact onBytes_moves anchor chId dictionary s _ hr (by simp)
  · exact .refl chId (.inl (by simp))

theorem onMcuPayload_moves (s : Connection τ) :
    Moves chId s .mcuPayload (s.onMcuPayload anchor) := by
  unfold onMcuPayload
  by_cases hr : s.phase=.relaying
  · rw [if_pos hr]
    cases s.fromMcu with
    | nil =>
      dsimp only
      split_ifs
      · exact .refl chId (.inl (by simp))
      · exact .rests rfl rfl rfl rfl (fun h => by cases h) (.inl (by simp))
    | cons p rest =>
      obtain ⟨hp,hq,hf,hd,hu⟩ := encodeAll_frame anchor {s with fromMcu := rest} [p]
      exact .rests hq (congrArg Forwarder.hand hf) hd hu (fun h => hp.symm.trans h)
        (.inl (by simp))
  · rw [if_neg hr]
    exact .refl chId (.inl (by simp))

theorem onDemux_moves (s : Connection τ) (payload : List UInt8) :
    Moves chId s (.demux payload) (s.onDemux payload) := by
  unfold onDemux
  split_ifs
  · exact .rests rfl rfl rfl rfl id (.inl (by simp))
  · exact .refl chId (.inl (by simp))

theorem unregister_moves (s : Connection τ) : Moves chId s .unregister s.unregister := by
  unfold unregister
  split_ifs with hc
  · exact .returns rfl rfl rfl rfl hc rfl rfl
  · exact .refl chId (.inr hc)

theorem recv_moves (s : Connection τ) : Moves chId s .recv s.recv := by
  unfold recv
  split
  · rename_i payload rest hw hq
    exact .takes payload hq (by rw [hw]; rfl) rfl rfl rfl rfl (by simp)
  · exact .refl chId (.inl (by simp))

theorem send_moves (s : Connection τ) : Moves chId s .send (s.send chId) := by
  unfold send
  split
  · rename_i payload hw
    exact .sends payload rfl (by rw [hw]; rfl) rfl rfl rfl rfl (by simp)
  · exact .refl chId (.inl (by simp))

/-- A forwarder is cancelled only while it has nothing in its hand. -/
theorem cancelForwarder_moves (s : Connection τ) :
    Moves chId s .cancelForwarder s.cancelForwarder := by
  unfold cancelForwarder
  split_ifs with hc
  · exact .rests rfl (by rw [hc.2]; rfl) rfl rfl id (.inl (by simp))
  · exact .refl chId (.inl (by simp))

theorem write_moves (s : Connection τ) (ok : Bool) : Moves chId s (.write ok) (s.write ok) := by
  unfold write
  split
  · split_ifs
    · exact .rests rfl rfl rfl rfl id (.inl (by simp))
    · exact .rests rfl rfl rfl rfl id (.inl (by simp))
  · exact .refl chId (.inl (by simp))

theorem cancelWriter_moves (s : Connection τ) : Moves chId s .cancelWriter s.cancelWriter := by
  unfold cancelWriter
  split_ifs
  · exact .rests rfl rfl rfl rfl id (.inl (by simp))
  · exact .refl chId (.inl (by simp))

theorem step_moves (s : Connection τ) (e : ConnEvent) :
    Moves chId s e (s.step anchor chId dictionary e) := by
  cases e with
  | register => exact register_moves chId s
  | socketRead result => exact onSocketRead_moves anchor chId dictionary s result
  | mcuPayload => exact onMcuPayload_moves anchor chId s
  | demux payload => exact onDemux_moves chId s payload
  | unregister => exact unregister_moves chId s
  | recv => exact recv_moves chId s
  | send => exact send_moves chId s
  | cancelForwarder => exact cancelForwarder_moves chId s
  | write ok => exact write_moves chId s ok
  | cancelWriter => exact cancelWriter_moves chId s

theorem Moves.accounted {s s' : Connection τ} {e : ConnEvent} (h : Moves chId s e s')
    (hs : s.Accounted chId) : s'.Accounted chId := by
  unfold Accounted at hs ⊢
  cases h with
  | rests queue hand log out => rw [queue,hand,log,out,hs]
  | dispatches more queue hand log out =>
    rw [queue,hand,log,out,List.map_append,hs]
    simp only [List.map_append,List.append_assoc]
  | takes payload queue hand hand' log out => rw [hand',log,out,hs,hand,queue]; rfl
  | sends payload queue hand hand' log out =>
    rw [queue,hand',log,out,hs,hand,List.append_assoc]
    rfl
  | returns queue hand log out => rw [queue,hand,log,out,hs]

/-- The handler has returned only if the exporter's queue and the forwarder's hand are empty. -/
def Settled (s : Connection τ) : Prop :=
  s.phase=.returned → s.toExporter=[] ∧ s.forwarder.hand=[]

theorem Accounted.nothingLost_iff {s : Connection τ} (h : s.Accounted chId) :
    s.NothingLost chId ↔ s.Settled := by
  unfold NothingLost Settled
  rw [h]
  refine imp_congr_right fun _ => ?_
  rw [List.self_eq_append_right,List.map_eq_nil_iff,List.append_eq_nil_iff]
  exact and_comm

/-- The return itself is the only step that can leave something behind. -/
theorem Moves.settled_iff {s s' : Connection τ} {e : ConnEvent} (h : Moves chId s e s')
    (hs : s.Settled) : s'.Settled ↔ Drained s e := by
  unfold Settled at hs ⊢
  unfold Drained
  cases h with
  | rests queue hand log out phase event =>
    rw [queue,hand]
    constructor
    · intro _ he hp
      rcases event with event|event
      · exact absurd he event
      · exact absurd hp event
    · intro _ hp
      exact hs (phase hp)
  | dispatches more queue hand log out phase event =>
    constructor
    · intro _ he
      exact absurd he event
    · intro _ hp
      rw [phase] at hp
      cases hp
  | takes payload queue hand hand' log out phase event =>
    constructor
    · intro _ he
      exact absurd he event
    · intro _ hp
      -- A returned handler has left nothing to take.
      have hnil := (hs (phase ▸ hp)).1
      rw [queue] at hnil
      cases hnil
  | sends payload queue hand hand' log out phase event =>
    constructor
    · intro _ he
      exact absurd he event
    · intro _ hp
      rw [queue,hand']
      exact ⟨(hs (phase ▸ hp)).1,rfl⟩
  | returns queue hand log out phase phase' event =>
    rw [queue,hand]
    exact ⟨fun h _ _ => h phase',fun h _ => h event phase⟩

/-- The handler's turn in a run has no output of its own. -/
def turn (s : Connection τ) (e : ConnEvent) : Connection τ × Unit :=
  (s.step anchor chId dictionary e,())

/-- No dispatched command is missing from `usb_out` in any state in which the handler has returned,
exactly if every return in the run finds the exporter's queue and the forwarder's hand empty. -/
theorem always_drained_iff (events : List ConnEvent) :
    Always (turn anchor chId dictionary)
      (fun s e => (s.step anchor chId dictionary e).NothingLost chId) (new anchor) events ↔
    Always (turn anchor chId dictionary) Drained (new anchor) events := by
  refine always_iff (turn anchor chId dictionary) (P := fun s => s.Accounted chId ∧ s.Settled)
    (R := fun _ _ => True) ?_ ⟨rfl,fun h => nomatch h⟩ (always_of_forall _ (fun _ _ => trivial))
  intro s e hs _
  have hmoves := step_moves anchor chId dictionary s e
  have hacc := hmoves.accounted chId hs.1
  have hset := hmoves.settled_iff chId hs.2
  exact ⟨(hacc.nothingLost_iff chId).trans hset,fun hd => ⟨hacc,hset.mpr hd⟩⟩

/-- The commands in what a read of the socket brings, as the transport and `dispatch_raw` find them. -/
def commandsIn (s : Connection τ) (bytes : List UInt8) : List (List UInt8) :=
  forwarded anchor dictionary
    (anchor.receive (fun frame => (dispatchRaw anchor dictionary frame ⟨[],[]⟩).1) s.session
      (s.inputBuf++bytes)).dispatched

/-- What an event means for the forwarder's schedule. It is told by the event, by where the handler
stands and by what is read, and by nothing that the forwarder has done. -/
def mark (s : Connection τ) : ConnEvent → ServiceMark
  | .socketRead (some (b::bs)) =>
    if s.phase=.relaying then .arrive (s.commandsIn anchor dictionary (b::bs)).length else .other
  | .recv => .take
  | .send => .finish
  | .cancelForwarder => if s.phase=.cleaning ∨ s.phase=.returned then .abort else .other
  | _ => .other

/-- The forwarder's schedule in a run. -/
def schedule : Connection τ → List ConnEvent → List ServiceMark
  | _,[] => []
  | s,e::es => s.mark anchor dictionary e::schedule (s.step anchor chId dictionary e) es

/-- The schedule counts what the forwarder still has to send, and knows where the forwarder stands. -/
structure Counts (s : Connection τ) (v : Service) : Prop where
  owed : v.owed=s.toExporter.length+s.forwarder.hand.length
  server : v.server=match s.forwarder with
    | .waiting => .waiting
    | .holding _ => .busy
    | .cancelled => .gone

/-- The parts of a connection that `Counts` is about. -/
theorem Counts.same {s s' : Connection τ} {v : Service} (h : s.Counts v)
    (hq : s'.toExporter=s.toExporter) (hf : s'.forwarder=s.forwarder) : s'.Counts v := by
  obtain ⟨ho,hs⟩ := h
  rw [← hq,← hf] at ho
  rw [← hf] at hs
  exact ⟨ho,hs⟩

theorem Counts.recv {s : Connection τ} {v : Service} (h : s.Counts v) : s.recv.Counts (v.next .take) := by
  obtain ⟨owed,server⟩ := v
  obtain ⟨ho,hs⟩ := h
  dsimp only at ho hs
  unfold Connection.recv
  split
  · rename_i payload rest hw hq
    rw [hw,hq] at ho
    rw [hw] at hs
    have howed : owed=rest.length+1 := by simpa [Forwarder.hand] using ho
    exact ⟨by simp [Service.next,hs,howed,Forwarder.hand],by simp [Service.next,hs,howed]⟩
  · rename_i hnone
    have hidle : ¬(server=.waiting ∧ 0 < owed) := by
      rintro ⟨hwait,hpos⟩
      cases hf : s.forwarder with
      | holding payload => simp [hf,hwait] at hs
      | cancelled => simp [hf,hwait] at hs
      | waiting =>
        cases hq : s.toExporter with
        | nil => simp [hf,hq,Forwarder.hand] at ho; omega
        | cons payload rest => exact hnone payload rest hf hq
    have hnext : Service.next ⟨owed,server⟩ .take=⟨owed,server⟩ := if_neg hidle
    rw [hnext]
    exact ⟨ho,hs⟩

theorem Counts.send {s : Connection τ} {v : Service} (h : s.Counts v) :
    (s.send chId).Counts (v.next .finish) := by
  obtain ⟨owed,server⟩ := v
  obtain ⟨ho,hs⟩ := h
  dsimp only at ho hs
  unfold Connection.send
  cases hf : s.forwarder with
  | holding payload =>
    rw [hf] at ho hs
    have howed : owed=s.toExporter.length+1 := ho
    exact ⟨by simp [Service.next,hs,howed,Forwarder.hand],by simp [Service.next,hs]⟩
  | waiting | cancelled =>
    rw [hf] at ho hs
    refine ⟨?_,?_⟩
    · simpa [Service.next,hs,hf] using ho
    · simp [Service.next,hs,hf]

theorem Counts.cancel {s : Connection τ} {v : Service} (h : s.Counts v) :
    s.cancelForwarder.Counts (v.next (s.mark anchor dictionary .cancelForwarder)) := by
  obtain ⟨owed,server⟩ := v
  unfold Connection.cancelForwarder mark
  by_cases hp : s.phase=.cleaning ∨ s.phase=.returned
  · obtain ⟨ho,hs⟩ := h
    dsimp only at ho hs
    rw [if_pos hp]
    cases hf : s.forwarder with
    | waiting =>
      rw [hf] at ho hs
      rw [if_pos ⟨hp,rfl⟩]
      exact ⟨by simpa [Service.next,hs,Forwarder.hand] using ho,by simp [Service.next,hs]⟩
    | holding payload | cancelled =>
      rw [hf] at ho hs
      rw [if_neg (by simp)]
      refine ⟨?_,?_⟩
      · simpa [Service.next,hs,hf] using ho
      · simp [Service.next,hs,hf]
  · rw [if_neg hp,if_neg (fun hc => hp hc.1)]
    exact h

theorem Counts.read {s : Connection τ} {v : Service} (h : s.Counts v) (b : UInt8)
    (bs : List UInt8) : (s.onBytes anchor dictionary (b::bs)).Counts
      (v.next (.arrive (s.commandsIn anchor dictionary (b::bs)).length)) := by
  unfold onBytes
  obtain ⟨-,hq,hf,-,-⟩ := encodeAll_frame anchor _ _
  refine Counts.same (s := {s with
    toExporter := s.toExporter++s.commandsIn anchor dictionary (b::bs)}) ?_ (hq.trans ?_) hf
  · obtain ⟨ho,hv⟩ := h
    refine ⟨?_,hv⟩
    simp only [Service.next,ho,List.length_append]
    omega
  · exact foldl_dispatchRaw anchor dictionary _ _

theorem Counts.step {s : Connection τ} {v : Service} (h : s.Counts v) (e : ConnEvent) :
    (s.step anchor chId dictionary e).Counts (v.next (s.mark anchor dictionary e)) := by
  cases e with
  | recv => exact h.recv
  | send => exact h.send chId
  | cancelForwarder => exact h.cancel anchor dictionary
  | socketRead result =>
    simp only [Connection.step,onSocketRead]
    split_ifs with hr
    · cases result with
      | none => exact h.same rfl rfl
      | some bytes =>
        cases bytes with
        | nil => exact h.same rfl rfl
        | cons b bs =>
          rw [mark,if_pos hr]
          exact h.read anchor dictionary b bs
    · cases result with
      | none => exact h
      | some bytes =>
        cases bytes with
        | nil => exact h
        | cons b bs =>
          rw [mark,if_neg hr]
          exact h
  | mcuPayload =>
    simp only [Connection.step,onMcuPayload]
    by_cases hr : s.phase=.relaying
    · rw [if_pos hr]
      cases s.fromMcu with
      | nil =>
        dsimp only
        split_ifs
        · exact h
        · exact h.same rfl rfl
      | cons p rest =>
        obtain ⟨-,hq,hf,-,-⟩ := encodeAll_frame anchor {s with fromMcu := rest} [p]
        exact h.same hq hf
    · rw [if_neg hr]
      exact h
  | register | demux | unregister | cancelWriter =>
    refine h.same ?_ ?_
    all_goals
      simp only [Connection.step,register,onDemux,unregister,cancelWriter]
      split_ifs <;> rfl
  | write ok =>
    refine h.same ?_ ?_
    all_goals
      simp only [Connection.step,write]
      split
      · split_ifs <;> rfl
      · rfl

theorem Counts.run {s : Connection τ} {v : Service} (h : s.Counts v) (events : List ConnEvent) :
    (after (turn anchor chId dictionary) s events).Counts
      ((s.schedule anchor chId dictionary events).foldl Service.next v) := by
  induction events generalizing s v with
  | nil => exact h
  | cons e es ih => exact ih (h.step anchor chId dictionary e)

/-- At a return nothing is queued or held exactly if the schedule leaves nothing unsettled. -/
theorem drained_iff_owes (events : List ConnEvent) (e : ConnEvent) :
    Drained (after (turn anchor chId dictionary) (new anchor) events) e ↔
      (e=.unregister → (after (turn anchor chId dictionary) (new anchor) events).phase=.cleaning →
        Service.owes ((new anchor).schedule anchor chId dictionary events)=0) := by
  have hcounts := Counts.run anchor chId dictionary (s := new anchor) (v := .start) ⟨rfl,rfl⟩ events
  refine imp_congr_right fun _ => imp_congr_right fun _ => ?_
  rw [Service.owes,hcounts.owed,Nat.add_eq_zero_iff,List.length_eq_zero_iff,List.length_eq_zero_iff]

/-- Over any interleaving of the handler, its tasks and the socket: no dispatched command is missing
from `usb_out` in any state in which the handler has returned, exactly if at every return the
schedule has given each command that a read brought a turn of `cmd_fwd_task` of its own. It has if
from every moment before the return on, and before the abort, the task takes as many turns as
commands are dispatched. -/
theorem run_nothingLost_iff (events : List ConnEvent) :
    (Always (turn anchor chId dictionary)
        (fun s e => (s.step anchor chId dictionary e).NothingLost chId) (new anchor) events ↔
      ∀past rest,events=past++.unregister::rest →
        (after (turn anchor chId dictionary) (new anchor) past).phase=.cleaning →
          Service.owes ((new anchor).schedule anchor chId dictionary past)=0) ∧
    ((∀past rest,events=past++.unregister::rest →
        (after (turn anchor chId dictionary) (new anchor) past).phase=.cleaning →
          Service.Enough ((new anchor).schedule anchor chId dictionary past)) →
      Always (turn anchor chId dictionary)
        (fun s e => (s.step anchor chId dictionary e).NothingLost chId) (new anchor) events) := by
  have hiff : Always (turn anchor chId dictionary)
        (fun s e => (s.step anchor chId dictionary e).NothingLost chId) (new anchor) events ↔
      ∀past rest,events=past++.unregister::rest →
        (after (turn anchor chId dictionary) (new anchor) past).phase=.cleaning →
          Service.owes ((new anchor).schedule anchor chId dictionary past)=0 := by
    rw [always_drained_iff,always_iff_split]
    constructor
    · intro h past rest hsplit
      exact (drained_iff_owes anchor chId dictionary past _).mp (h past _ rest hsplit) rfl
    · intro h past e rest hsplit
      refine (drained_iff_owes anchor chId dictionary past e).mpr ?_
      intro he
      exact h past rest (he ▸ hsplit)
  exact ⟨hiff,fun h => hiff.mpr fun past rest hsplit hp => Service.owes_eq_zero (h past rest hsplit hp)⟩

/-- A transport that knows one frame, which carries the command 10 without arguments. -/
def commandAnchor : Anchor Unit where
  start := ()
  receive _ _ buf :=
    if buf=[6,0x10,0x0A,0xD5,0x21,0x7E] then ⟨(),[],[[0x0A]],[[5,0x11,0x8F,0x08,0x7E]]⟩
    else ⟨(),buf,[],[]⟩
  encodeFrame s p := (s,p)
  readU8 | [] => none | b::rest => some (b.toNat,rest)
  readU16 | [] => none | b::rest => some (b.toNat,rest)
  readU32 | [] => none | b::rest => some (b.toNat,rest)
  writeU32 n := [UInt8.ofNat n]

/-- Klipper sends a command and closes its socket; the abort comes before the forwarder runs. The
command is then gone for good. -/
theorem close_loses_command :
    let events := [.register,.socketRead (some [6,0x10,0x0A,0xD5,0x21,0x7E]),.socketRead (some []),
      .cancelForwarder,.unregister]
    let s := after (turn commandAnchor 3 []) (new commandAnchor) events
    ¬s.NothingLost 3 ∧ s.phase=.returned ∧ s.forwarder=.cancelled ∧
      s.dispatched=[[0x0A]] ∧ s.usbOut=[] := by
  refine ⟨fun h => absurd (h rfl) (by decide),rfl,rfl,rfl,rfl⟩

/-- The same run leaves nothing unsettled if the forwarder gets its turn before the abort. -/
example : Service.owes ((new commandAnchor).schedule commandAnchor 3 []
    [.register,.socketRead (some [6,0x10,0x0A,0xD5,0x21,0x7E]),.socketRead (some []),.recv,.send,
      .cancelForwarder])=0 := by decide

end Connection

end Serialmux.Windlass

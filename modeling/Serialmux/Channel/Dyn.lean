import Serialmux.Channel.Mcu
import Serialmux.Channel.Pty
import Serialmux.Channel.TcpFrames

namespace Serialmux.Channel

open Protocol

/-- A channel behind the trait's interface. -/
inductive DynChannel where
  | mcu (c : McuChannel)
  | pty (c : PtyChannel)
  | tcpSource (c : TcpSourceChannel)
  | tcpDest (c : TcpDestChannel)

namespace DynChannel

def channelId : DynChannel → UInt8
  | mcu c => c.chId
  | pty c => c.chId
  | tcpSource c => c.chId
  | tcpDest c => c.chId

def apply (c : DynChannel) (call : Call) : DynChannel × Effect :=
  match c with
  | mcu c => (.mcu (c.apply call).1,(c.apply call).2)
  | pty c => (.pty (c.apply call).1,(c.apply call).2)
  | tcpSource c => (.tcpSource (c.apply call).1,(c.apply call).2)
  | tcpDest c => (.tcpDest (c.apply call).1,(c.apply call).2)

/-- A channel as the command line creates it. -/
def fresh (io : Io) : DynChannel → DynChannel
  | mcu c => .mcu (.new c.chId io)
  | pty c => .pty (.new c.chId)
  | tcpSource c => .tcpSource (.new c.chId)
  | tcpDest c => .tcpDest (.new c.chId)

/-- Only UARTs have deadlines. -/
def nextDeadline : DynChannel → Option Instant
  | mcu c => c.nextDeadline
  | _ => none

end DynChannel

/-- The frame types the daemon answers itself. -/
def isControl (ftype : UInt8) : Bool :=
  ftype==fPing || ftype==fPong || ftype==fHello || ftype==fAck

/-- A frame that channel `id` may enqueue. -/
structure ChannelFrame (id : UInt8) (f : Frame) : Prop where
  channel : f.channel=id
  routed : isControl f.ftype=false
  fits : f.payload.length ≤ maxPayload

theorem TcpFrame.channelFrame {chId : UInt8} {slot : Slot} {f : Frame} (h : TcpFrame chId slot f) :
    ChannelFrame chId f := by
  refine ⟨h.channel,?_,h.fits⟩
  cases h with
  | tconn => exact (by decide : isControl fTconn=false)
  | tdata => exact (by decide : isControl fTdata=false)
  | tclose => exact (by decide : isControl fTclose=false)

theorem McuChannel.apply_channelFrame (c : McuChannel) (call : Call) :
    ∀f∈(c.apply call).2.frames,ChannelFrame c.chId f := by
  have hup : ∀{fs : List Frame},(∀f∈fs,ChannelFrame c.chId f) →
      ∀f∈c.whenUp fs,ChannelFrame c.chId f := by
    intro fs h f hf
    unfold whenUp at hf
    split_ifs at hf
    · exact h f hf
    · simp at hf
  have hstatus : ∀ftype,isControl ftype=false → ChannelFrame c.chId (c.frame ftype []) :=
    fun ftype h => ⟨rfl,h,Nat.zero_le _⟩
  have hdata : ∀bs : List UInt8,bs.length≤4096 → ChannelFrame c.chId (c.frame fData bs) :=
    fun bs h => ⟨rfl,(by decide : isControl fData=false),h.trans (by decide)⟩
  obtain ⟨hm,-⟩ := apply_moves c call
  cases hm with
  | connect _ _ _ he =>
    rw [he]
    intro f hf
    rw [List.mem_singleton.mp hf]
    apply hstatus
    split_ifs <;> decide
  | disconnect _ _ _ he =>
    rw [he]
    exact nofun
  | stay _ _ _ hf =>
    rw [hf]
    exact nofun
  | forward _ _ _ _ hn hf =>
    rw [hf]
    apply hup
    intro f hf
    rw [List.mem_singleton.mp hf]
    exact hdata _ hn
  | wake _ _ _ _ hn hf =>
    rw [hf]
    apply hup
    intro f hf
    rcases List.mem_pair.mp hf with rfl|rfl
    · exact hstatus fReady (by decide)
    · exact hdata _ ((List.dropWhile_suffix _).length_le.trans hn)
  | reset _ _ _ _ _ hf =>
    rw [hf]
    apply hup
    intro f hf
    rw [List.mem_singleton.mp hf]
    exact hstatus fFlush (by decide)

theorem PtyChannel.apply_channelFrame (c : PtyChannel) (call : Call) :
    ∀f∈(c.apply call).2.frames,ChannelFrame c.chId f := by
  rcases apply_frames c call with h|⟨hn,hf⟩
  · rw [h]
    exact nofun
  · rw [hf]
    intro f hmem
    rw [List.mem_singleton.mp hmem]
    exact ⟨rfl,(by decide : isControl fData=false),hn.trans (by decide)⟩

namespace DynChannel

@[simp] theorem apply_channelId (c : DynChannel) (call : Call) :
    (c.apply call).1.channelId=c.channelId := by
  cases c with
  | mcu c => exact (c.apply_moves call).2
  | pty c => exact c.apply_chId call
  | tcpSource c => exact (c.apply_sends call).1
  | tcpDest c => exact (c.apply_sends call).1

theorem fresh_channelId (io : Io) (c : DynChannel) : (c.fresh io).channelId=c.channelId := by
  cases c with
  | mcu c => exact (McuChannel.openUart_same _ io).1
  | pty c => rfl
  | tcpSource c => rfl
  | tcpDest c => rfl

/-- Whatever a channel enqueues bears its id and is left to the channels by the peer's daemon. -/
theorem apply_channelFrame (c : DynChannel) (call : Call) :
    ∀f∈(c.apply call).2.frames,ChannelFrame c.channelId f := by
  cases c with
  | mcu c => exact c.apply_channelFrame call
  | pty c => exact c.apply_channelFrame call
  | tcpSource c =>
    intro f hf
    obtain ⟨slot,h⟩ := (c.apply_sends call).2 f hf
    exact h.channelFrame
  | tcpDest c =>
    intro f hf
    obtain ⟨slot,h⟩ := (c.apply_sends call).2 f hf
    exact h.channelFrame

theorem disconnect_frames (c : DynChannel) (io : Io) :
    (c.apply ⟨.onLinkDisconnect,io⟩).2.frames=[] := by
  cases c <;> rfl

theorem pause_frames (c : DynChannel) (io : Io) :
    (c.apply ⟨.pauseSourceReads,io⟩).2.frames=[] := by
  cases c <;> rfl

theorem resume_frames (c : DynChannel) (io : Io) :
    (c.apply ⟨.resumeSourceReads,io⟩).2.frames=[] := by
  cases c <;> rfl

end DynChannel

/-- The channels of a daemon by wire id, in the order its hash map happens to iterate. -/
structure ChannelMap where
  keys : List UInt8
  get : UInt8 → Option DynChannel
  nodup : keys.Nodup
  covers : ∀id,id∈keys ↔ (get id).isSome
  ids : ∀id c,get id=some c → c.channelId=id

namespace ChannelMap

/-- The map of a daemon with a single channel. -/
def single (c : DynChannel) : ChannelMap where
  keys := [c.channelId]
  get id := if id=c.channelId then some c else none
  nodup := List.nodup_singleton _
  covers id := by
    by_cases h : id=c.channelId <;> simp [h]
  ids id c' h := by
    obtain ⟨hid,hc⟩ := Option.ite_none_right_eq_some.mp h
    rw [hid,← Option.some.inj hc]

/-- One channel in the state a call leaves it in. -/
def set (m : ChannelMap) (id : UInt8) (call : Call) : ChannelMap where
  keys := m.keys
  get := Function.update m.get id ((m.get id).map (fun c => (c.apply call).1))
  nodup := m.nodup
  covers j := by
    rw [m.covers]
    by_cases h : j=id
    · subst h
      simp
    · simp [h]
  ids j c hc := by
    by_cases h : j=id
    · subst h
      rw [Function.update_self] at hc
      obtain ⟨c',hc',rfl⟩ := Option.map_eq_some_iff.mp hc
      rw [DynChannel.apply_channelId]
      exact m.ids j c' hc'
    · rw [Function.update_of_ne h] at hc
      exact m.ids j c hc

/-- The channels of a process that has just started with the same arguments. -/
def fresh (m : ChannelMap) (ios : UInt8 → Io) : ChannelMap where
  keys := m.keys
  get id := (m.get id).map (DynChannel.fresh (ios id))
  nodup := m.nodup
  covers id := by
    rw [m.covers,Option.isSome_map]
  ids id c hc := by
    obtain ⟨c',hc',rfl⟩ := Option.map_eq_some_iff.mp hc
    rw [DynChannel.fresh_channelId]
    exact m.ids id c' hc'

/-- What a call of channel `id` enqueues; an id without a channel enqueues nothing. -/
def frames (m : ChannelMap) (id : UInt8) (call : Call) : List Frame :=
  match m.get id with
  | none => []
  | some c => (c.apply call).2.frames

theorem frames_silent (m : ChannelMap) {call : Call}
    (h : ∀c : DynChannel,(c.apply call).2.frames=[]) (id : UInt8) : m.frames id call=[] := by
  unfold frames
  split
  · rfl
  · exact h _

theorem frames_channelFrame (m : ChannelMap) (id : UInt8) (call : Call) :
    ∀f∈m.frames id call,ChannelFrame id f := by
  unfold frames
  cases hc : m.get id with
  | none => exact nofun
  | some c =>
    intro f hf
    exact m.ids id c hc ▸ c.apply_channelFrame call f hf

@[simp] theorem set_get_self (m : ChannelMap) (id : UInt8) (call : Call) :
    (m.set id call).get id=(m.get id).map (fun c => (c.apply call).1) := by
  simp [set]

theorem set_get_other (m : ChannelMap) {id j : UInt8} (call : Call) (h : j≠id) :
    (m.set id call).get j=m.get j := by
  simp [set,h]

@[simp] theorem set_keys (m : ChannelMap) (id : UInt8) (call : Call) :
    (m.set id call).keys=m.keys := rfl

end ChannelMap

end Serialmux.Channel

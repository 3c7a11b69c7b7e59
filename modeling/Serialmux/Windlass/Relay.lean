import Serialmux.Framework.Interleave
import Serialmux.Windlass.Framing

namespace Serialmux.Windlass

open Framework

/-- What one channel's device sends: some bytes before the first sync byte, then complete frames,
idle sync bytes before each, cut into reads in some way. -/
structure ChannelInput where
  garbage : List UInt8
  frames : List (Nat × KlipperFrame)
  reads : List (List UInt8)
  garbageClean : messageValueSync∉garbage
  readsEq : reads.flatten=garbage++messageValueSync::
    frames.flatMap (fun (idle,f) => List.replicate idle messageValueSync++f.bytes)

/-- The UART → USB task of a channel: every frame its framer hands out goes to the USB writer's
queue under the channel's id. -/
def uartToUsb (chId : UInt8) (reads : List (List UInt8)) : List TunnelFrame :=
  (KlipperFramer.codec.framedRead .new [] reads).1.map (⟨chId,·⟩)

/-- The USB writer task, the only one that writes to the link. -/
def usbWriter (queue : List TunnelFrame) : List UInt8 :=
  queue.foldl (fun dst tf => TunnelCodec.encode tf dst) []

/-- The map `uart_write_txs`, with what has been sent to each task so far. -/
abbrev UartWriteTxs := UInt8 → Option (List (List UInt8))

/-- The USB demux: a frame goes to the task of its channel; one for an unknown channel is dropped. -/
def route (txs : UartWriteTxs) (tf : TunnelFrame) : UartWriteTxs :=
  match txs tf.chId with
  | some sent => Function.update txs tf.chId (some (sent++[tf.frame]))
  | none => txs

/-- The USB reader task. -/
def usbReader (txs : UartWriteTxs) (reads : List (List UInt8)) : UartWriteTxs :=
  (TunnelCodec.codec.framedRead () [] reads).1.foldl route txs

namespace KlipperFramer

theorem drain_garbage {garbage : List UInt8} (h : messageValueSync∉garbage) (ys : List UInt8) :
    decoder.drain ⟨false⟩ (garbage++messageValueSync::ys)=decoder.drain ⟨true⟩ ys := by
  induction garbage with
  | nil =>
    have hm : decoder.move ⟨false⟩ (messageValueSync::ys)=some ⟨⟨true⟩,none,1⟩ := rfl
    exact decoder.drain_move hm
  | cons b garbage ih =>
    obtain ⟨hb,hrest⟩ := not_or.mp (fun hc => h (List.mem_cons.mpr hc))
    have hne : (b==messageValueSync)=false := beq_false_of_ne (Ne.symm hb)
    have hm : decoder.move ⟨false⟩ (b::(garbage++messageValueSync::ys))=
        some ⟨⟨b==messageValueSync⟩,none,1⟩ := rfl
    rw [List.cons_append,decoder.drain_move hm,hne]
    exact ih hrest

theorem drain_idle (idle : Nat) (ys : List UInt8) :
    decoder.drain ⟨true⟩ (List.replicate idle messageValueSync++ys)=decoder.drain ⟨true⟩ ys := by
  induction idle with
  | zero => rfl
  | succ idle ih =>
    have hm : decoder.move ⟨true⟩ (messageValueSync::(List.replicate idle messageValueSync++ys))=
        some ⟨⟨true⟩,none,1⟩ := rfl
    rw [List.replicate_succ,List.cons_append,decoder.drain_move hm]
    exact ih

/-- Once synced the framer hands out every frame, through any number of idle bytes. -/
theorem drain_frames (frames : List (Nat × KlipperFrame)) :
    decoder.drain ⟨true⟩
      (frames.flatMap (fun (idle,f) => List.replicate idle messageValueSync++f.bytes))=
    (frames.map (·.2.bytes),⟨true⟩,[]) := by
  induction frames with
  | nil => exact decoder.drain_wait rfl
  | cons p frames ih =>
    obtain ⟨idle,f⟩ := p
    rw [List.flatMap_cons,List.append_assoc,drain_idle,decoder.drain_move (move_frame f _),
      List.drop_left,ih]
    rfl

end KlipperFramer

theorem uartToUsb_input (chId : UInt8) (input : ChannelInput) :
    uartToUsb chId input.reads=input.frames.map (fun p => ⟨chId,p.2.bytes⟩) := by
  have h := KlipperFramer.codec_implements.framedRead_eq_drain (s := KlipperFramer.new) rfl
    input.reads
  rw [input.readsEq] at h
  rw [uartToUsb,h,KlipperFramer.new,KlipperFramer.drain_garbage input.garbageClean,
    KlipperFramer.drain_frames,List.map_map]
  rfl

theorem usbWriter_eq (queue : List TunnelFrame) :
    usbWriter queue=(queue.map (TunnelCodec.encode · [])).flatten := by
  have haux (dst : List UInt8) : queue.foldl (fun dst tf => TunnelCodec.encode tf dst) dst=
      dst++(queue.map (TunnelCodec.encode · [])).flatten := by
    induction queue generalizing dst with
    | nil => simp
    | cons tf queue ih =>
      rw [List.foldl_cons,ih,List.map_cons,List.flatten_cons,← List.append_assoc]
      rfl
  exact haux []

/-- The tunnel codec reads back what the writer wrote, however the link cuts it. -/
theorem framedRead_usbWriter {queue : List TunnelFrame} {reads : List (List UInt8)}
    (hq : ∀tf∈queue,IsKlipperFrame tf.frame) (hr : reads.flatten=usbWriter queue) :
    (TunnelCodec.codec.framedRead () [] reads).1=queue := by
  rw [usbWriter_eq] at hr
  have e := TunnelCodec.codec_implements.framedRead_encoded (s := ()) rfl (TunnelCodec.encode · []) id
    (fun tf htf => TunnelCodec.move_frame tf.chId ⟨tf.frame,hq tf htf⟩) hr
  rw [e,List.map_id]

theorem foldl_route (txs : UartWriteTxs) (queue : List TunnelFrame) (chId : UInt8) :
    queue.foldl route txs chId=
      (txs chId).map (·++(queue.filter (fun tf => tf.chId=chId)).map (·.frame)) := by
  induction queue generalizing txs with
  | nil => simp
  | cons tf queue ih =>
    rw [List.foldl_cons,ih,List.filter_cons]
    unfold route
    by_cases hc : tf.chId=chId
    · subst hc
      cases ht : txs tf.chId with
      | none => simp [ht]
      | some sent => simp
    · cases ht : txs tf.chId with
      | none => simp [hc]
      | some sent => simp [hc,Function.update_of_ne (Ne.symm hc)]

/-- The relay is transparent. The channels are the ids that `inputs` knows; their frames enter the
USB writer's queue in any order that keeps each channel's own. Then each channel's task at the other
end is sent exactly the frames of the channel, and nothing is sent for other ids. -/
theorem relay_transparent (inputs : UInt8 → Option ChannelInput) (queue : List TunnelFrame)
    (hqueue : Interleaves (fun chId => (inputs chId).elim [] (uartToUsb chId ·.reads)) queue)
    (reads : List (List UInt8)) (hreads : reads.flatten=usbWriter queue) (chId : UInt8) :
    usbReader (fun id => (inputs id).map (fun _ => [])) reads chId=
      (inputs chId).map (fun input => input.frames.map (·.2.bytes)) := by
  have hsrc (id : UInt8) : (inputs id).elim [] (uartToUsb id ·.reads)=
      (inputs id).elim [] (fun input => input.frames.map (fun p => ⟨id,p.2.bytes⟩)) := by
    cases inputs id with
    | none => rfl
    | some input => exact uartToUsb_input id input
  simp only [hsrc] at hqueue
  have hof : ∀id,∀tf∈(inputs id).elim [] (fun input => input.frames.map
      (fun p => (⟨id,p.2.bytes⟩ : TunnelFrame))),tf.chId=id ∧ IsKlipperFrame tf.frame := by
    intro id tf htf
    cases hi : inputs id with
    | none => simp [hi] at htf
    | some input =>
      rw [hi] at htf
      obtain ⟨p,-,rfl⟩ := List.mem_map.mp htf
      exact ⟨rfl,p.2.wf⟩
  have hwf : ∀tf∈queue,IsKlipperFrame tf.frame := by
    intro tf htf
    obtain ⟨id,hid⟩ := hqueue.mem tf htf
    exact (hof id tf hid).2
  have hown := hqueue.filter TunnelFrame.chId (fun id tf htf => (hof id tf htf).1) chId
  rw [usbReader,framedRead_usbWriter hwf hreads,foldl_route,hown]
  cases inputs chId with
  | none => rfl
  | some input => simp

/-- A frame whose inside holds a sync byte, read in two pieces after an idle byte. -/
def toolheadInput : ChannelInput where
  garbage := [9]
  frames := [(1,⟨[6,0x10,0x7E,0,0,0x7E],by decide⟩)]
  reads := [[9,0x7E,0x7E,6],[0x10,0x7E,0,0,0x7E]]
  garbageClean := by decide
  readsEq := by decide

def bedInput : ChannelInput where
  garbage := []
  frames := [(0,⟨[5,0x10,0,0,0x7E],by decide⟩)]
  reads := [[0x7E,5,0x10,0],[0,0x7E]]
  garbageClean := by decide
  readsEq := by decide

theorem relay_transparent_twoChannels :
    usbReader (fun id => (if id=3 then some toolheadInput else if id=4 then some bedInput
        else none).map (fun _ => []))
      [[4,5,0x10,0,0],[0x7E,3,6,0x10,0x7E],[0,0,0x7E]] 3=some [[6,0x10,0x7E,0,0,0x7E]] := by
  refine relay_transparent (fun id => if id=3 then some toolheadInput else if id=4 then
      some bedInput else none) [⟨4,[5,0x10,0,0,0x7E]⟩,⟨3,[6,0x10,0x7E,0,0,0x7E]⟩] ?_ _ (by decide) 3
  refine .take 4 (uartToUsb_input 4 bedInput) (.take 3 (uartToUsb_input 3 toolheadInput) (.done ?_))
  intro id
  by_cases h3 : id=3
  · rw [h3,Function.update_self]
    rfl
  rw [Function.update_of_ne h3]
  by_cases h4 : id=4
  · rw [h4,Function.update_self]
    rfl
  · rw [Function.update_of_ne h4,if_neg h3,if_neg h4]
    rfl

end Serialmux.Windlass

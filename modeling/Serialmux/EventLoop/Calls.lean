import Serialmux.EventLoop.Daemon

namespace Serialmux.EventLoop

open Protocol Channel

namespace Daemon

variable {Q W : Type} (lq : LinkQueue Q W)

theorem sendAll_append (q : Q) (fs gs : List Frame) :
    sendAll lq q (fs++gs)=sendAll lq (sendAll lq q fs) gs := List.foldl_append

/-- A round of calls over some of the channels; each sees its own state only. -/
private theorem round_eq (call : UInt8 → Call) {ids : List UInt8} (hn : ids.Nodup) (d : Daemon Q) :
    ∃m : ChannelMap,
      ids.foldl (fun d id => callChannel lq d id (call id)) d=
        {d with
          channels := m
          txq := sendAll lq d.txq (ids.flatMap (fun id => d.channels.frames id (call id)))} ∧
      m.keys=d.channels.keys ∧
      (∀id∈ids,m.get id=(d.channels.get id).map (fun c => (c.apply (call id)).1)) ∧
      ∀id,id∉ids → m.get id=d.channels.get id := by
  induction ids generalizing d with
  | nil => exact ⟨d.channels,rfl,rfl,nofun,fun _ _ => rfl⟩
  | cons i ids ih =>
    obtain ⟨hi,hn⟩ := List.nodup_cons.mp hn
    obtain ⟨m,hm,hk,hin,hout⟩ := ih hn (callChannel lq d i (call i))
    have hother : ∀id∈ids,id≠i := fun id h he => hi (he ▸ h)
    have hframes : ids.flatMap (fun id => (d.channels.set i (call i)).frames id (call id))=
        ids.flatMap (fun id => d.channels.frames id (call id)) := by
      apply List.flatMap_congr
      intro id hid
      simp only [ChannelMap.frames,ChannelMap.set_get_other _ _ (hother id hid)]
    refine ⟨m,?_,hk,?_,?_⟩
    · rw [List.foldl_cons,hm]
      simp only [callChannel,List.flatMap_cons,sendAll_append,hframes]
    · intro id hid
      by_cases he : id=i
      · subst he
        rw [hout id hi]
        exact ChannelMap.set_get_self _ _ _
      · rw [hin id ((List.mem_cons.mp hid).resolve_left he)]
        simp only [callChannel,ChannelMap.set_get_other _ _ he]
    · intro id hid
      obtain ⟨hne,hid⟩ := not_or.mp (fun h => hid (List.mem_cons.mpr h))
      rw [hout id hid]
      exact ChannelMap.set_get_other _ _ hne

/-- A call of every channel: each channel takes its own step, and their frames are enqueued in the
order of the map. -/
theorem eachChannel_eq (d : Daemon Q) (call : UInt8 → Call) :
    ∃m : ChannelMap,
      eachChannel lq d call={d with
        channels := m
        txq := sendAll lq d.txq
          (d.channels.keys.flatMap (fun id => d.channels.frames id (call id)))} ∧
      m.keys=d.channels.keys ∧
      ∀id,m.get id=(d.channels.get id).map (fun c => (c.apply (call id)).1) := by
  obtain ⟨m,hm,hk,hin,hout⟩ := round_eq lq call d.channels.nodup d
  refine ⟨m,hm,hk,?_⟩
  intro id
  by_cases h : id∈d.channels.keys
  · exact hin id h
  · have hnone : d.channels.get id=none := by
      have hs := mt (d.channels.covers id).mpr h
      simpa using hs
    rw [hout id h,hnone]
    rfl

/-- A call that no channel answers with a frame leaves the queue alone. -/
theorem eachChannel_silent (d : Daemon Q) {call : UInt8 → Call}
    (hq : ∀id,d.channels.frames id (call id)=[]) :
    ∃m : ChannelMap,
      eachChannel lq d call={d with channels := m} ∧
      ∀id,m.get id=(d.channels.get id).map (fun c => (c.apply (call id)).1) := by
  obtain ⟨m,hm,-,hget⟩ := eachChannel_eq lq d call
  refine ⟨m,?_,hget⟩
  have hnone : d.channels.keys.flatMap (fun id => d.channels.frames id (call id))=[] :=
    List.flatMap_eq_nil_iff.mpr (fun id _ => hq id)
  rw [hm,hnone]
  rfl

theorem setLinkWriteInterest_eq (d : Daemon Q) (b : Bool) :
    ∃b',d.setLinkWriteInterest b={d with wantWrite := b'} := by
  unfold setLinkWriteInterest
  split_ifs
  · exact ⟨d.wantWrite,rfl⟩
  · exact ⟨b,rfl⟩

theorem touch_txq (d : Daemon Q) (now : Instant) : (touch lq d now).txq=d.txq := by
  obtain ⟨b,hb⟩ := setLinkWriteInterest_eq {d with lastTx := some now} (!lq.isEmpty d.txq)
  rw [touch,hb]

/-- What an event may be followed by: the pause of all channels, which leaves the queue alone. -/
theorem checkBpHigh_eq (d : Daemon Q) :
    ∃(m : ChannelMap) (bp : Bool),checkBpHigh lq d={d with channels := m, linkBp := bp} ∧
      (linkHighWater≤lq.used d.txq → bp=true) ∧
      ∀id,m.get id=d.channels.get id ∨
        m.get id=(d.channels.get id).map (fun c => (c.apply ⟨.pauseSourceReads,Io.idle⟩).1) := by
  unfold checkBpHigh
  split_ifs with h
  · obtain ⟨m,hm,hget⟩ := eachChannel_silent lq {d with linkBp := true}
      (d.channels.frames_silent (DynChannel.pause_frames · Io.idle))
    exact ⟨m,true,hm,fun _ => rfl,fun id => .inr (hget id)⟩
  · refine ⟨d.channels,d.linkBp,rfl,?_,fun _ => .inl rfl⟩
    intro hhigh
    by_contra hbp
    exact h ⟨by simpa using hbp,hhigh⟩

theorem checkBpHigh_txq (d : Daemon Q) : (checkBpHigh lq d).txq=d.txq := by
  obtain ⟨m,bp,hd,-⟩ := checkBpHigh_eq lq d
  rw [hd]

/-- A link that goes down: every channel is told, perhaps after it was resumed. -/
theorem closeLink_get {d : Daemon Q} (hd : d.disconnected=false) (now : Instant) :
    (closeLink lq d now).linkUp=false ∧ (closeLink lq d now).disconnected=true ∧
      (closeLink lq d now).linkFd=none ∧
      ∀id c,d.channels.get id=some c → ∃c',
        (closeLink lq d now).channels.get id=some (c'.apply ⟨.onLinkDisconnect,Io.idle⟩).1 ∧
        (c'=c ∨ c'=(c.apply ⟨.resumeSourceReads,Io.idle⟩).1) := by
  unfold closeLink resumeAll
  simp only [hd,Bool.false_eq_true,if_false]
  split_ifs
  · obtain ⟨m,hm,-,hget⟩ := eachChannel_eq lq {d with
      disconnected := true, linkUp := false, linkFd := none, txq := lq.reset d.txq
      linkBp := false} (fun _ => ⟨.resumeSourceReads,Io.idle⟩)
    rw [hm]
    obtain ⟨m',hm',-,hget'⟩ := eachChannel_eq lq
      _ (fun _ => ⟨.onLinkDisconnect,Io.idle⟩)
    rw [hm']
    refine ⟨rfl,rfl,rfl,?_⟩
    intro id c hc
    refine ⟨_,?_,.inr rfl⟩
    simp only [scheduleReopen,hget',hget,hc,Option.map_some]
  · obtain ⟨m,hm,-,hget⟩ := eachChannel_eq lq {d with
      disconnected := true, linkUp := false, linkFd := none, txq := lq.reset d.txq}
      (fun _ => ⟨.onLinkDisconnect,Io.idle⟩)
    rw [hm]
    refine ⟨rfl,rfl,rfl,?_⟩
    intro id c hc
    refine ⟨_,?_,.inl rfl⟩
    simp only [scheduleReopen,hget,hc,Option.map_some]

/-- No channel has a word for the link that goes down. -/
theorem closeLink_txq {d : Daemon Q} (hd : d.disconnected=false) (now : Instant) :
    (closeLink lq d now).txq=lq.reset d.txq := by
  have hresume : (resumeAll lq {d with
      disconnected := true, linkUp := false, linkFd := none, txq := lq.reset d.txq}).txq=
        lq.reset d.txq := by
    unfold resumeAll
    split_ifs
    · obtain ⟨m,hm,-⟩ := eachChannel_silent lq {d with
        disconnected := true, linkUp := false, linkFd := none, txq := lq.reset d.txq
        linkBp := false} (d.channels.frames_silent (DynChannel.resume_frames · Io.idle))
      rw [hm]
    · rfl
  have hsilent : ∀d' : Daemon Q,
      (eachChannel lq d' (fun _ => ⟨.onLinkDisconnect,Io.idle⟩)).txq=d'.txq := by
    intro d'
    obtain ⟨m,hm,-⟩ := eachChannel_silent lq d'
      (d'.channels.frames_silent (DynChannel.disconnect_frames · Io.idle))
    rw [hm]
  simp only [closeLink,hd,Bool.false_eq_true,if_false,scheduleReopen]
  exact (hsilent _).trans hresume

/-- The rule for rounds: what one call keeps, a call of every channel keeps. -/
theorem eachChannel_induct {P : Daemon Q → Prop} (call : UInt8 → Call)
    (hstep : ∀d id,P d → P (callChannel lq d id (call id))) {d : Daemon Q} (h : P d) :
    P (eachChannel lq d call) := by
  unfold eachChannel
  generalize d.channels.keys=ids
  induction ids generalizing d with
  | nil => exact h
  | cons i ids ih => exact ih (hstep d i h)

end Daemon

end Serialmux.EventLoop

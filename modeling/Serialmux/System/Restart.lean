import Serialmux.Framework.Machine
import Serialmux.Channel.TcpLive
import Serialmux.System.Pair

namespace Serialmux.System

open Framework Protocol Channel EventLoop

theorem slotMark_channel {id j : UInt8} {k : Slot} {f : Frame} (h : ChannelFrame j f)
    (hj : j≠id) : slotMark id k f=none := by
  have hr := h.routed
  simp only [isControl,Bool.or_eq_false_iff,beq_eq_false_iff_ne] at hr
  simp [slotMark,h.channel,hj,hr]

theorem slotMark_keepalive {id : UInt8} {k : Slot} {f : Frame}
    (h : f.ftype=fPing ∨ f.ftype=fPong) : slotMark id k f=none := by
  have hp : fPing≠fHello ∧ fPing≠fAck ∧ fPing≠fTconn ∧ fPing≠fTclose := by decide
  have hq : fPong≠fHello ∧ fPong≠fAck ∧ fPong≠fTconn ∧ fPong≠fTclose := by decide
  rcases h with h|h
  · simp [slotMark,h,hp]
  · simp [slotMark,h,hq]

/-- A frame for a slot goes to the channel and the cid it names. -/
theorem slotMark_routed {id : UInt8} {k : Slot} {f : Frame} {m : SlotMark}
    (hf : isControl f.ftype=false) (h : slotMark id k f=some m) :
    f.channel=id ∧ f.ftype=(if m=.conn then fTconn else fTclose) ∧
      ∃data,slotOfPayload f.payload=some (k,data) := by
  simp only [isControl,Bool.or_eq_false_iff,beq_eq_false_iff_ne] at hf
  have hc : ¬(f.ftype=fHello ∨ f.ftype=fAck) := by simp [hf]
  rw [slotMark,if_neg hc] at h
  split_ifs at h with hid h₁ h₂
  · obtain rfl := Option.some.inj h
    exact ⟨hid.1,h₁,slotOfPayload_of_cid hid.2⟩
  · obtain rfl := Option.some.inj h
    exact ⟨hid.1,h₂,slotOfPayload_of_cid hid.2⟩

theorem slotMark_control {id : UInt8} {k : Slot} {f : Frame} {m : SlotMark}
    (h : slotMark id k f=some m) (hm : m≠.greeting) : isControl f.ftype=false := by
  unfold slotMark at h
  split_ifs at h with _ _ h₁ h₂
  · exact absurd (Option.some.inj h).symm hm
  · rw [h₁]
    decide
  · rw [h₂]
    decide

/-- Slot `k` of the destination is, or after the frames on their way will be, in use; `m` is the last
of them that concerns it and `live` whether it is in use now. -/
def Served (m : Option SlotMark) (live : Prop) : Prop := m=some .conn ∨ m=none ∧ live

/-- A frame that arrives need only be looked at where it is the last one with a mark. -/
theorem Served.arrive {id : UInt8} {k : Slot} {f : Frame} {fs : List Frame} {l l' told : Prop}
    (h : Served (lastMark (slotMark id k) (f::fs)) l)
    (hlast : Served (slotMark id k f) l → l' ∨ told) :
    Served (lastMark (slotMark id k) fs) l' ∨ told := by
  rw [lastMark_cons] at h
  cases hm : lastMark (slotMark id k) fs with
  | some x =>
    rw [hm,Option.some_or] at h
    rcases h with h|⟨h,-⟩
    · exact .inl (.inl h)
    · exact nomatch h
  | none =>
    rw [hm,Option.none_or] at h
    exact (hlast h).imp_left (fun hl => .inr ⟨rfl,hl⟩)

/-- A frame towards the exporter that ends the connection of slot `k`, or comes from a host that has
lost it. -/
def Recalls (id : UInt8) (k : Slot) (f : Frame) : Prop :=
  slotMark id k f=some .close ∨ f.ftype=fHello

/-- The exporter of channel `id`, where `wire` is what it has put on the link, `live` says whether
the destination uses the slot and `back` whether it has revoked it. -/
structure Sources (id : UInt8) (k : Slot) (wire : List Frame) (live back : Prop)
    (d : Daemon (List Frame)) : Prop where
  source : ∃s,d.channels.get id=some (.tcpSource s) ∧
    (Live (s.conns k) → Served (lastMark (slotMark id k) (wire++d.txq)) live ∨ back) ∧
    (d.disconnected=true → s.linkUp=false ∧ ¬Live (s.conns k))
  down : d.disconnected=true → d.linkFd=none

namespace Sources

variable {id : UInt8} {k : Slot} {wire : List Frame} {live back back' : Prop}
  {d : Daemon (List Frame)}

theorem mono (hb : back → back') (h : Sources id k wire live back d) :
    Sources id k wire live back' d := by
  obtain ⟨⟨s,hs,hserved,hdis⟩,hdown⟩ := h
  exact ⟨⟨s,hs,fun hl => (hserved hl).imp_right hb,hdis⟩,hdown⟩

theorem call {j : UInt8} {c : Call} (hc : c.op≠.onLinkConnect ∧ c.op≠.onLinkDisconnect)
    (h : Sources id k wire live back d) :
    Sources id k wire live back (Daemon.callChannel fifoLink d j c) := by
  obtain ⟨⟨s,hs,hserved,hdis⟩,hdown⟩ := h
  refine ⟨?_,hdown⟩
  rw [Daemon.callChannel_txq,← List.append_assoc]
  by_cases hj : id=j
  · subst hj
    have hid : s.chId=id := d.channels.ids id _ hs
    have hframes : d.channels.frames id c=(s.apply c).2.frames := by
      simp [ChannelMap.frames,hs,DynChannel.apply]
    have hlive := s.apply_live c k
    rw [hid] at hlive
    refine ⟨(s.apply c).1,by simp [Daemon.callChannel,hs,DynChannel.apply],?_,?_⟩
    · intro hl
      rw [hframes]
      rcases hlive hl with ⟨hl',hf⟩|⟨-,hf⟩
      · rw [lastMark_append_unmarked _ hf]
        exact hserved hl'
      · rw [lastMark_append,hf,Option.some_or]
        exact .inl (.inl rfl)
    · intro hd
      obtain ⟨hup,hnl⟩ := hdis hd
      refine ⟨(s.apply_linkUp hc).trans hup,?_⟩
      intro hl
      rcases hlive hl with ⟨hl',-⟩|⟨hup',-⟩
      · exact hnl hl'
      · rw [hup] at hup'
        exact Bool.false_ne_true hup'
  · refine ⟨s,(ChannelMap.set_get_other _ _ hj).trans hs,?_,hdis⟩
    rw [lastMark_append_unmarked]
    · exact hserved
    · intro f hf
      exact slotMark_channel (d.channels.frames_channelFrame j c f hf) (Ne.symm hj)

/-- Once a frame that recalls the slot has been routed, the slot is no longer in use. -/
theorem onFrame {io : Io} {f : Frame} (hf : isControl f.ftype=false)
    (hb : slotMark id k f≠some .close → back → back') (h : Sources id k wire live back d) :
    Sources id k wire live back'
      (Daemon.callChannel fifoLink d f.channel ⟨.onFrame f.ftype f.payload,io⟩) := by
  have hcall := h.call (j := f.channel) (c := ⟨.onFrame f.ftype f.payload,io⟩) ⟨nofun,nofun⟩
  by_cases hm : slotMark id k f=some .close
  · obtain ⟨hch,hty,data,hp⟩ := slotMark_routed hf hm
    obtain ⟨⟨s,hs,-,-⟩,-⟩ := h
    obtain ⟨⟨s',hs',-,hdis⟩,hdown⟩ := hcall
    refine ⟨⟨s',hs',?_,hdis⟩,hdown⟩
    intro hl
    have happly : s'=(s.apply ⟨.onFrame f.ftype f.payload,io⟩).1 := by
      simpa [Daemon.callChannel,hch,hs,DynChannel.apply] using hs'.symm
    rw [happly,hty] at hl
    exact absurd hl (s.apply_tclose io hp)
  · exact hcall.mono (hb hm)

theorem control {now : Instant} {ftype : UInt8} (hf : ftype=fPing ∨ ftype=fPong)
    (h : Sources id k wire live back d) :
    Sources id k wire live back (Daemon.enqueueFrame fifoLink d now (Daemon.controlFrame ftype)) := by
  rcases Daemon.enqueueFrame_fifo d now ftype with ⟨he,-⟩|⟨b,he⟩
  · rw [he]
    exact h
  · rw [he]
    obtain ⟨⟨s,hs,hserved,hdis⟩,hdown⟩ := h
    have hn : slotMark id k (Daemon.controlFrame ftype)=none := slotMark_keepalive hf
    refine ⟨⟨s,hs,?_,hdis⟩,hdown⟩
    rw [← List.append_assoc,lastMark_append_unmarked _ (by simpa using hn)]
    exact hserved

/-- A new link leaves the connections of the source alone. -/
theorem connected {now : Instant} (hd : d.disconnected=false)
    (h : Sources id k wire live back d) :
    Sources id k wire live back (Daemon.connectChannels fifoLink {d with linkUp := true} now) := by
  obtain ⟨⟨s,hs,hserved,-⟩,-⟩ := h
  obtain ⟨m,b,hc,-,hget⟩ := Daemon.connectChannels_fifo {d with linkUp := true} now
  rw [hc]
  have hdis : d.disconnected≠true := by simp [hd]
  refine ⟨⟨{s with linkUp := true},?_,?_,fun h => absurd h hdis⟩,fun h => absurd h hdis⟩
  · simp [hget,hs,DynChannel.apply,TcpSourceChannel.apply]
  · rw [← List.append_assoc,lastMark_append_unmarked]
    · exact hserved
    · intro f hf
      obtain ⟨j,-,hf⟩ := List.mem_flatMap.mp hf
      by_cases hj : j=id
      · subst hj
        simp [ChannelMap.frames,hs,DynChannel.apply,TcpSourceChannel.apply] at hf
      · exact slotMark_channel (d.channels.frames_channelFrame j _ f hf) hj

theorem closed {now : Instant} (h : Sources id k wire live back d) :
    Sources id k wire live back (Daemon.closeLink fifoLink d now) := by
  by_cases hd : d.disconnected=true
  · rw [Daemon.closeLink,if_pos hd]
    exact h
  · obtain ⟨s,hs,-,-⟩ := h.source
    obtain ⟨-,-,hfd,hget⟩ := Daemon.closeLink_get fifoLink (by simpa using hd) now
    obtain ⟨c,hc,hres⟩ := hget id _ hs
    have hsource : ∃s' : TcpSourceChannel,c=.tcpSource s' := by
      rcases hres with rfl|rfl
      · exact ⟨s,rfl⟩
      · exact ⟨_,rfl⟩
    obtain ⟨s',rfl⟩ := hsource
    exact ⟨⟨_,hc,fun hl => absurd hl not_live_none,fun _ => ⟨rfl,not_live_none⟩⟩,fun _ => hfd⟩

theorem turns : Daemon.Turns (fun _ c => c.op≠.onLinkConnect ∧ c.op≠.onLinkDisconnect)
    (Sources id k wire live back) where
  core := by
    intro d d' h hc hq _ hdis hfd _
    obtain ⟨h₁,h₂⟩ := h
    refine ⟨?_,?_⟩
    · rw [hc,hq,hdis]
      exact h₁
    · rw [hdis,hfd]
      exact h₂
  call := call
  pause _ := ⟨nofun,nofun⟩
  resume _ := ⟨nofun,nofun⟩
  opened := by
    intro d now dev h hdis
    cases dev with
    | none => exact ⟨h.source,h.down⟩
    | some fd =>
      obtain ⟨s,hs,-,hidle⟩ := h.source
      exact ⟨⟨s,hs,fun hl => absurd hl (hidle hdis).2,nofun⟩,nofun⟩
  closed := closed
  ping := control (.inl rfl)

/-- A received frame, which takes one frame off those that may have revoked the slot. -/
theorem dispatch {now : Instant} {io : Io} {f : Frame} (hfd : d.linkFd≠none)
    (hb : back → back' ∨ Recalls id k f)
    (hhello : f.ftype=fHello → ∀s,d.channels.get id=some (.tcpSource s) → s.conns k=none)
    (h : Sources id k wire live back d) :
    Sources id k wire live back' (Daemon.dispatchFrame fifoLink d now io f) := by
  have hdis : d.disconnected=false := by
    by_contra hd
    exact hfd (h.down (by simpa using hd))
  have hskip : ¬Recalls id k f → Sources id k wire live back' d :=
    fun hn => h.mono (fun hback => (hb hback).resolve_right hn)
  have hka : f.ftype=fPing ∨ f.ftype=fPong → ¬Recalls id k f := by
    intro hp hr
    rcases hr with hr|hr
    · rw [slotMark_keepalive hp] at hr
      cases hr
    · rw [hr] at hp
      exact absurd hp (by decide)
  have hack : f.ftype=fAck → ¬Recalls id k f := by
    intro ha hr
    rcases hr with hr|hr
    · rw [slotMark,if_pos (.inr ha)] at hr
      cases hr
    · rw [ha] at hr
      exact absurd hr (by decide)
  apply Daemon.dispatchFrame_induct
  · intro hp
    exact (hskip (hka (.inl hp))).control (.inr rfl)
  · intro hp
    exact hskip (hka (.inr hp))
  · intro hh
    -- The slot must be free here: nothing tells the client of a connection the host has lost.
    obtain ⟨s,hs,-,-⟩ := h.source
    have hfree : ¬Live (s.conns k) := by
      rw [hhello hh s hs]
      exact not_live_none
    have hany : ∀d' : Daemon (List Frame),d'.channels=d.channels →
        d'.disconnected=d.disconnected → Sources id k wire live back' d' := by
      intro d' hch hd'
      refine ⟨⟨s,hch ▸ hs,fun hl => absurd hl hfree,?_⟩,?_⟩ <;> rw [hd',hdis] <;> simp
    rcases Daemon.enqueueFrame_fifo d now fAck with ⟨he,-⟩|⟨b,he⟩
    · rw [he]
      exact (hany d rfl rfl).connected hdis
    · rw [he]
      exact (hany {d with
        txq := d.txq++[Daemon.controlFrame fAck], lastTx := some now, wantWrite := b}
        rfl rfl).connected hdis
  · intro ha _
    exact hskip (hack ha)
  · intro ha _
    exact (hskip (hack ha)).connected hdis
  · intro hf
    have hbp : Sources id k wire live back
        (if f.ftype=fData ∨ f.ftype=fTdata then Daemon.checkBpHigh fifoLink d else d) := by
      split_ifs
      · exact turns.toKept.checkBpHigh h
      · exact h
    refine turns.toKept.touch now (hbp.onFrame hf ?_)
    intro hm hback
    refine (hb hback).resolve_right ?_
    rintro (hr|hr)
    · exact hm hr
    · simp [isControl,hr] at hf

/-- The exporter's side of a turn, with the frames it puts on the link. -/
theorem own {op : DaemonOp (Option Nat)} (h : Sources id k wire live back d) :
    Sources id k (wire++d.puts op) live back (d.turn fifoLink op) := by
  have hok : Daemon.Calls (fun _ c => c.op≠.onLinkConnect ∧ c.op≠.onLinkDisconnect) op := by
    cases op with
    | head now later dev ios => exact fun _ => ⟨nofun,nofun⟩
    | event now token readable writable io => exact fun _ => ⟨nofun,nofun⟩
    | start | send | readError | restart => trivial
  apply turns.step hok
  · intro now w hop hfd
    subst hop
    have hsent : d.puts (.send now w)=d.txq.take (w.getD 0) := if_neg hfd
    refine ⟨?_,h.down⟩
    rw [hsent,List.append_assoc,Daemon.drain_append]
    exact h.source
  · intro now ios _
    obtain ⟨s,hs,-,-⟩ := h.source
    refine ⟨⟨.new s.chId,?_,fun hl => absurd hl not_live_none,fun _ => ⟨rfl,not_live_none⟩⟩,
      fun _ => rfl⟩
    simp [Daemon.new,ChannelMap.fresh,hs,DynChannel.fresh]
  · intro hnil
    rw [hnil,List.append_nil]
    exact h

end Sources

/-- The host of channel `id`, where `m` is the last mark on its way to it, `live` says whether the
source uses the slot and `wire` is what the host has put on the link. -/
structure Dests (id : UInt8) (k : Slot) (m : Option SlotMark) (live : Prop) (wire : List Frame)
    (d : Daemon (List Frame)) : Prop where
  dest : ∃t,d.channels.get id=some (.tcpDest t) ∧
    (live → Served m (Live (t.conns k)) ∨ (∃f∈wire++d.txq,Recalls id k f) ∨ d.disconnected=true)
  down : d.disconnected=true → d.linkUp=false ∧ d.linkFd=none

namespace Dests

variable {id : UInt8} {k : Slot} {m m' : Option SlotMark} {live : Prop} {wire : List Frame}
  {d : Daemon (List Frame)}

/-- A change that adds frames to the queue. -/
theorem mono {d' : Daemon (List Frame)} {fs : List Frame} {t' : TcpDestChannel}
    (h : Dests id k m live wire d) (hdis : d'.disconnected=d.disconnected)
    (hdown' : d'.disconnected=true → d'.linkUp=false ∧ d'.linkFd=none)
    (hq : d'.txq=d.txq++fs) (ht' : d'.channels.get id=some (.tcpDest t'))
    (hserved : ∀t,d.channels.get id=some (.tcpDest t) → Served m (Live (t.conns k)) →
      Served m' (Live (t'.conns k)) ∨ ∃f∈fs,Recalls id k f) : Dests id k m' live wire d' := by
  obtain ⟨⟨t,ht,hs⟩,-⟩ := h
  refine ⟨⟨t',ht',?_⟩,hdown'⟩
  intro hl
  rw [hq,hdis,← List.append_assoc]
  rcases hs hl with hs|⟨f,hf,hr⟩|hd
  · rcases hserved t ht hs with hs|⟨f,hf,hr⟩
    · exact .inl hs
    · exact .inr (.inl ⟨f,List.mem_append_right _ hf,hr⟩)
  · exact .inr (.inl ⟨f,List.mem_append_left _ hf,hr⟩)
  · exact .inr (.inr hd)

/-- A call, of which the channel itself says what becomes of the slot. -/
theorem call {j : UInt8} {c : Call} (hother : j≠id → m'=m)
    (hown : ∀t,d.channels.get id=some (.tcpDest t) → j=id → Served m (Live (t.conns k)) →
      Served m' (Live ((t.apply c).1.conns k)) ∨
        ∃f∈(t.apply c).2.frames,slotMark t.chId k f=some .close)
    (h : Dests id k m live wire d) :
    Dests id k m' live wire (Daemon.callChannel fifoLink d j c) := by
  obtain ⟨t,ht,-⟩ := h.dest
  by_cases hj : j=id
  · subst hj
    have hid : t.chId=j := d.channels.ids j _ ht
    have hget : (Daemon.callChannel fifoLink d j c).channels.get j=
        some (.tcpDest (t.apply c).1) := by
      simp [Daemon.callChannel,ht,DynChannel.apply]
    refine h.mono rfl h.down (Daemon.callChannel_txq d j c) hget ?_
    intro t₁ ht₁ hs
    obtain rfl : t₁=t := by simpa [ht] using ht₁.symm
    have hframes : d.channels.frames j c=(t₁.apply c).2.frames := by
      simp [ChannelMap.frames,ht,DynChannel.apply]
    rw [hframes]
    rcases hown t₁ ht rfl hs with hs|⟨f,hf,hm⟩
    · exact .inl hs
    · exact .inr ⟨f,hf,.inl (hid ▸ hm)⟩
  · have hget : (Daemon.callChannel fifoLink d j c).channels.get id=some (.tcpDest t) :=
      (ChannelMap.set_get_other _ _ (Ne.symm hj)).trans ht
    refine h.mono rfl h.down (Daemon.callChannel_txq d j c) hget ?_
    intro t₁ ht₁ hs
    obtain rfl : t₁=t := by simpa [ht] using ht₁.symm
    rw [hother hj]
    exact .inl hs

/-- The calls that an event, a timer or backpressure makes. -/
def Unsolicited (c : Call) : Prop :=
  c.op≠.onLinkConnect ∧ c.op≠.onLinkDisconnect ∧ ∀ftype payload,c.op≠.onFrame ftype payload

theorem turns : Daemon.Turns (fun _ c => Unsolicited c) (Dests id k m live wire) where
  core := by
    intro d d' h hc hq hup hdis hfd _
    obtain ⟨h₁,h₂⟩ := h
    refine ⟨?_,?_⟩
    · rw [hc,hq,hdis]
      exact h₁
    · rw [hdis,hup,hfd]
      exact h₂
  call := by
    intro d j c hc h
    refine h.call (fun _ => rfl) ?_
    intro t _ _ hs
    rcases hs with hm|⟨hm,hl⟩
    · exact .inl (.inl hm)
    · rcases t.apply_live ⟨hc.1,hc.2.1⟩ (fun _ _ ho => absurd ho (hc.2.2 _ _)) hl with hl|hf
      · exact .inl (.inr ⟨hm,hl⟩)
      · exact .inr hf
  pause _ := ⟨nofun,nofun,nofun⟩
  resume _ := ⟨nofun,nofun,nofun⟩
  opened := by
    intro d now dev h hdis
    obtain ⟨t,ht,-⟩ := h.dest
    cases dev with
    | none => exact ⟨h.dest,h.down⟩
    | some fd =>
      have hhello : Daemon.controlFrame fHello∈
          wire++(Daemon.openLink fifoLink d now (some fd)).txq :=
        List.mem_append_right _ (List.mem_singleton_self _)
      exact ⟨⟨t,ht,fun _ => .inr (.inl ⟨_,hhello,.inr rfl⟩)⟩,nofun⟩
  closed := by
    intro d now h
    by_cases hd : d.disconnected=true
    · rw [Daemon.closeLink,if_pos hd]
      exact h
    · obtain ⟨t,ht,-⟩ := h.dest
      obtain ⟨hup,hdis,hfd,hget⟩ := Daemon.closeLink_get fifoLink (by simpa using hd) now
      obtain ⟨c,hc,hres⟩ := hget id _ ht
      have hdest : ∃t' : TcpDestChannel,c=.tcpDest t' := by
        rcases hres with rfl|rfl
        · exact ⟨t,rfl⟩
        · exact ⟨_,rfl⟩
      obtain ⟨t',rfl⟩ := hdest
      exact ⟨⟨_,hc,fun _ => .inr (.inr hdis)⟩,fun _ => ⟨hup,hfd⟩⟩
  ping := by
    intro d now h
    obtain ⟨t,ht,-⟩ := h.dest
    rcases Daemon.enqueueFrame_fifo d now fPing with ⟨he,-⟩|⟨b,he⟩
    · rw [he]
      exact h
    · rw [he]
      refine h.mono rfl h.down rfl ht ?_
      intro t₁ ht₁ hs
      obtain rfl : t₁=t := by simpa [ht] using ht₁.symm
      exact .inl hs

section Arrival

variable {f : Frame} {fs : List Frame}
  (h : Dests id k (lastMark (slotMark id k) (f::fs)) live wire d)
include h

/-- A frame of no concern to the slot, perhaps with an answer to it. -/
theorem unmarked {d' : Daemon (List Frame)} {gs : List Frame} (hn : slotMark id k f=none)
    (hdis : d'.disconnected=d.disconnected)
    (hdown : d'.disconnected=true → d'.linkUp=false ∧ d'.linkFd=none) (hq : d'.txq=d.txq++gs)
    (hch : d'.channels=d.channels) : Dests id k (lastMark (slotMark id k) fs) live wire d' := by
  obtain ⟨t,ht,-⟩ := h.dest
  refine h.mono hdis hdown hq (hch ▸ ht) ?_
  intro t₁ ht₁ hs
  obtain rfl : t₁=t := by simpa [ht] using ht₁.symm
  refine hs.arrive ?_
  rw [hn]
  rintro (hm|⟨-,hl⟩)
  · exact nomatch hm
  · exact .inl hl

/-- A greeting, which may close the slot: something must follow it. -/
theorem greeted {d' : Daemon (List Frame)} {gs : List Frame} {t' : TcpDestChannel}
    (hn : slotMark id k f=some .greeting) (hdis : d'.disconnected=d.disconnected)
    (hdown : d'.disconnected=true → d'.linkUp=false ∧ d'.linkFd=none) (hq : d'.txq=d.txq++gs)
    (ht' : d'.channels.get id=some (.tcpDest t')) :
    Dests id k (lastMark (slotMark id k) fs) live wire d' := by
  refine h.mono hdis hdown hq ht' ?_
  intro t _ hs
  refine hs.arrive ?_
  rw [hn]
  rintro (hm|⟨hm,-⟩) <;> exact nomatch hm

theorem connected {now : Instant} {d' : Daemon (List Frame)} {gs : List Frame}
    (hn : slotMark id k f=some .greeting) (hd : d.disconnected≠true)
    (hdis : d'.disconnected=d.disconnected) (hq : d'.txq=d.txq++gs)
    (hch : d'.channels=d.channels) :
    Dests id k (lastMark (slotMark id k) fs) live wire
      (Daemon.connectChannels fifoLink {d' with linkUp := true} now) := by
  obtain ⟨t,ht,-⟩ := h.dest
  obtain ⟨cs,b,hc,-,hget⟩ := Daemon.connectChannels_fifo {d' with linkUp := true} now
  have hget' : cs.get id=some (.tcpDest {t with conns := fun _ => none}) := by
    simp [hget,hch,ht,DynChannel.apply,TcpDestChannel.apply]
  have hq' : d'.txq++Daemon.greetings d'.channels=d.txq++(gs++Daemon.greetings d'.channels) := by
    rw [hq,List.append_assoc]
  rw [hc]
  exact h.greeted hn hdis (fun h' => absurd (hdis.symm.trans h') hd) hq' hget'

/-- A frame for the channels, where F_TCONN must not meet a slot that still drains. -/
theorem routed {io : Io} (hf : isControl f.ftype=false)
    (hdrain : slotMark id k f=some .conn → ∀t,d.channels.get id=some (.tcpDest t) →
      ∀c,t.conns k=some c → c.closePending=false) :
    Dests id k (lastMark (slotMark id k) fs) live wire
      (Daemon.callChannel fifoLink d f.channel ⟨.onFrame f.ftype f.payload,io⟩) := by
  refine h.call ?_ ?_
  · intro hch
    have hn : slotMark id k f=none := by
      by_contra hm
      obtain ⟨m,hm⟩ := Option.ne_none_iff_exists'.mp hm
      exact hch (slotMark_routed hf hm).1
    rw [lastMark_cons,hn,Option.or_none]
  · intro t ht hch hs
    refine hs.arrive ?_
    rintro (hm|⟨hm,hl⟩)
    · obtain ⟨-,hty,data,hp⟩ := slotMark_routed hf hm
      rw [hty]
      exact t.apply_tconn io hp (hdrain hm t ht)
    · refine t.apply_live ⟨nofun,nofun⟩ ?_ hl
      intro payload data ho hp
      obtain ⟨hty,rfl⟩ : f.ftype=fTclose ∧ f.payload=payload := by simpa using ho
      have hcid : cidOf f=some k := by simp [cidOf,hp]
      have hne : fTclose≠fHello ∧ fTclose≠fAck ∧ fTclose≠fTconn := by decide
      simp [slotMark,hty,hne,hch,hcid] at hm

/-- The first of the frames on their way arrives. -/
theorem dispatch {now : Instant} {io : Io} (hfd : d.linkFd≠none)
    (hdrain : slotMark id k f=some .conn → ∀t,d.channels.get id=some (.tcpDest t) →
      ∀c,t.conns k=some c → c.closePending=false) :
    Dests id k (lastMark (slotMark id k) fs) live wire
      (Daemon.dispatchFrame fifoLink d now io f) := by
  have hdis : d.disconnected≠true := fun hd => hfd (h.down hd).2
  obtain ⟨t,ht,-⟩ := h.dest
  apply Daemon.dispatchFrame_induct
  · intro hp
    rcases Daemon.enqueueFrame_fifo d now fPong with ⟨he,-⟩|⟨b,he⟩
    · rw [he]
      exact h.unmarked (slotMark_keepalive (.inl hp)) rfl h.down (List.append_nil _).symm rfl
    · rw [he]
      exact h.unmarked (slotMark_keepalive (.inl hp)) rfl h.down rfl rfl
  · intro hp
    exact h.unmarked (slotMark_keepalive (.inr hp)) rfl h.down (List.append_nil _).symm rfl
  · intro hh
    rcases Daemon.enqueueFrame_fifo d now fAck with ⟨he,-⟩|⟨b,he⟩
    · rw [he]
      exact h.connected (if_pos (.inl hh)) hdis rfl (List.append_nil _).symm rfl
    · rw [he]
      exact h.connected (if_pos (.inl hh)) hdis rfl rfl rfl
  · intro ha _
    exact h.greeted (if_pos (.inr ha)) rfl h.down (List.append_nil _).symm ht
  · intro ha _
    exact h.connected (if_pos (.inr ha)) hdis rfl (List.append_nil _).symm rfl
  · intro hf
    refine turns.toKept.touch now ?_
    split_ifs with hbulk
    · refine (turns.toKept.checkBpHigh h).routed hf ?_
      intro hm
      -- Backpressure is only looked at for frames that open no connection.
      have hty := (slotMark_routed hf hm).2.1
      rw [hty] at hbulk
      exact absurd hbulk (by decide)
    · exact h.routed hf hdrain

end Arrival

/-- The host's side of a turn, with the frames it puts on the link. -/
theorem own {op : DaemonOp (Option Nat)} (h : Dests id k m live wire d) :
    Dests id k m live (wire++d.puts op) (d.turn fifoLink op) := by
  have hok : Daemon.Calls (fun _ c => Unsolicited c) op := by
    cases op with
    | head now later dev ios => exact fun _ => ⟨nofun,nofun,nofun⟩
    | event now token readable writable io => exact fun _ => ⟨nofun,nofun,nofun⟩
    | start | send | readError | restart => trivial
  apply turns.step hok
  · intro now w hop hfd
    subst hop
    have hsent : d.puts (.send now w)=d.txq.take (w.getD 0) := if_neg hfd
    refine ⟨?_,h.down⟩
    rw [hsent,List.append_assoc,Daemon.drain_append]
    exact h.dest
  · intro now ios _
    obtain ⟨t,ht,-⟩ := h.dest
    refine ⟨⟨.new t.chId,?_,fun _ => .inr (.inr rfl)⟩,fun _ => ⟨rfl,rfl⟩⟩
    simp [Daemon.new,ChannelMap.fresh,ht,DynChannel.fresh]
  · intro hnil
    rw [hnil,List.append_nil]
    exact h

end Dests

/-- The connections of the source channel `id`. -/
def Pair.sourceConns (id : UInt8) (p : Pair) : Slot → Option TcpConn :=
  match p.exporter.daemon.channels.get id with
  | some (.tcpSource s) => s.conns
  | _ => fun _ => none

def Pair.destConns (id : UInt8) (p : Pair) : Slot → Option TcpConn :=
  match p.host.daemon.channels.get id with
  | some (.tcpDest t) => t.conns
  | _ => fun _ => none

/-- No connection only drains. -/
def Pair.Settled (id : UInt8) (p : Pair) : Prop :=
  ∀k,(∀c∈p.sourceConns id k,c.closePending=false) ∧ ∀c∈p.destConns id k,c.closePending=false

instance (id : UInt8) (p : Pair) : Decidable (p.Settled id) := Nat.decidableForallFin _

/-- A step that goes wrong in neither of two ways: HELLO reaches an exporter that still holds
connections, or F_TCONN reaches a slot of the host that still drains. -/
def Orderly (id : UInt8) (p : Pair) : PairOp → Prop
  | .exporter (.deliver _ _) =>
    ∀f∈p.exporter.incoming.head?,f.ftype=fHello → ∀k,p.sourceConns id k=none
  | .host (.deliver _ _) =>
    ∀f∈p.host.incoming.head?,∀k,f.channel=id → f.ftype=fTconn → cidOf f=some k →
      ∀c∈p.destConns id k,c.closePending=false
  | _ => True

instance (id : UInt8) (p : Pair) : ∀op,Decidable (Orderly id p op)
  | .exporter (.own _) => inferInstanceAs (Decidable True)
  | .exporter (.deliver _ _) => inferInstanceAs (Decidable
      (∀f∈p.exporter.incoming.head?,f.ftype=fHello → ∀k,p.sourceConns id k=none))
  | .exporter (.lose _) => inferInstanceAs (Decidable True)
  | .host (.own _) => inferInstanceAs (Decidable True)
  | .host (.deliver _ _) => inferInstanceAs (Decidable
      (∀f∈p.host.incoming.head?,∀k,f.channel=id → f.ftype=fTconn → cidOf f=some k →
        ∀c∈p.destConns id k,c.closePending=false))
  | .host (.lose _) => inferInstanceAs (Decidable True)

/-- The invariant of slot `k`: while the source uses it, so does the destination or will once the
frames on their way have arrived, or the source will hear that it does not. -/
structure Paired (id : UInt8) (k : Slot) (p : Pair) : Prop where
  dest : ∃t,p.host.daemon.channels.get id=some (.tcpDest t) ∧
    Sources id k p.host.incoming (Live (t.conns k))
      ((∃f∈p.towardsExporter,Recalls id k f) ∨ p.host.daemon.disconnected=true) p.exporter.daemon
  down : p.host.daemon.disconnected=true →
    p.host.daemon.linkUp=false ∧ p.host.daemon.linkFd=none

namespace Paired

variable {id : UInt8} {k : Slot} {p : Pair}

theorem exporter {op : EndpointOp} (h : Paired id k p) (hop : Orderly id p (.exporter op)) :
    Paired id k (p.step (.exporter op)).1 := by
  obtain ⟨⟨t,ht,hsrc⟩,hdown⟩ := h
  obtain ⟨s,hs,hserved,hdis⟩ := hsrc.source
  have hconns : p.sourceConns id=s.conns := by simp [Pair.sourceConns,hs]
  refine ⟨⟨t,ht,?_⟩,hdown⟩
  cases op with
  | own op => exact hsrc.own
  | deliver now io =>
    simp only [Pair.step,Endpoint.step,Pair.towardsExporter]
    cases hin : p.exporter.incoming with
    | nil =>
      rw [List.append_nil]
      exact hsrc
    | cons f fs =>
      dsimp only
      split_ifs with hfd
      · rw [List.append_nil]
        exact hsrc
      · rw [List.append_nil,Daemon.receive,if_neg hfd]
        have hsrc' : Sources id k p.host.incoming (Live (t.conns k))
            ((∃f∈p.towardsExporter,Recalls id k f) ∨ p.host.daemon.disconnected=true)
            {p.exporter.daemon with lastRx := some now} := ⟨hsrc.source,hsrc.down⟩
        refine hsrc'.dispatch hfd ?_ ?_
        · rintro (⟨g,hg,hr⟩|hd)
          · rw [Pair.towardsExporter,hin,List.cons_append] at hg
            rcases List.mem_cons.mp hg with rfl|hg
            · exact .inr hr
            · exact .inl (.inl ⟨g,hg,hr⟩)
          · exact .inl (.inr hd)
        · intro hh s' hs'
          obtain rfl : s'=s := by simpa [hs] using hs'.symm
          rw [← hconns]
          exact hop f (by simp [hin]) hh k
  | lose n =>
    simp only [Pair.step,Endpoint.step,Pair.towardsExporter]
    split_ifs with hd
    · rw [List.append_nil]
      exact ⟨⟨s,hs,fun hl => absurd hl (hdis hd).2,hdis⟩,hsrc.down⟩
    · rw [List.append_nil]
      exact hsrc

theorem host {op : EndpointOp} (h : Paired id k p) (hop : Orderly id p (.host op)) :
    Paired id k (p.step (.host op)).1 := by
  obtain ⟨⟨t,ht,⟨s,hs,hserved,hdis⟩,hsdown⟩,hdown⟩ := h
  have hconns : p.destConns id=t.conns := by simp [Pair.destConns,ht]
  have hdst : Dests id k (lastMark (slotMark id k) (p.host.incoming++p.exporter.daemon.txq))
      (Live (s.conns k)) p.exporter.incoming p.host.daemon := ⟨⟨t,ht,hserved⟩,hdown⟩
  have hback : ∀{e : Endpoint} {out : List Frame},
      Dests id k (lastMark (slotMark id k) (e.incoming++p.exporter.daemon.txq))
        (Live (s.conns k)) (p.exporter.incoming++out) e.daemon →
      Paired id k ⟨{p.exporter with incoming := p.exporter.incoming++out},e⟩ := by
    intro e out h
    obtain ⟨⟨t',ht',hserved'⟩,hdown'⟩ := h
    exact ⟨⟨t',ht',⟨s,hs,hserved',hdis⟩,hsdown⟩,hdown'⟩
  refine hback ?_
  cases op with
  | own op => exact hdst.own
  | deliver now io =>
    simp only [Endpoint.step]
    cases hin : p.host.incoming with
    | nil =>
      rw [List.append_nil]
      exact hdst
    | cons f fs =>
      dsimp only
      split_ifs with hfd
      · rw [List.append_nil]
        exact hdst
      · rw [hin] at hdst
        have hdst' : Dests id k (lastMark (slotMark id k) (f::(fs++p.exporter.daemon.txq)))
            (Live (s.conns k)) p.exporter.incoming
            {p.host.daemon with lastRx := some now} := ⟨hdst.dest,hdst.down⟩
        rw [List.append_nil,Daemon.receive,if_neg hfd]
        refine hdst'.dispatch hfd ?_
        intro hm t' ht' c hc
        obtain rfl : t'=t := by simpa [ht] using ht'.symm
        obtain ⟨hch,hty,data,hp⟩ := slotMark_routed (slotMark_control hm (by simp)) hm
        exact hop f (by simp [hin]) k hch hty (by simp [cidOf,hp]) c (hconns ▸ hc)
  | lose n =>
    simp only [Endpoint.step]
    split_ifs with hd
    · rw [List.append_nil]
      exact ⟨⟨t,ht,fun _ => .inr (.inr hd)⟩,hdown⟩
    · rw [List.append_nil]
      exact hdst

theorem step {op : PairOp} (h : Paired id k p) (hop : Orderly id p op) :
    Paired id k (p.step op).1 := by
  cases op with
  | exporter op => exact h.exporter hop
  | host op => exact h.host hop

theorem new {exporter host : ChannelMap} (hexp : exporter.get id=some (.tcpSource (.new id)))
    (hhost : host.get id=some (.tcpDest (.new id))) (now : Instant) :
    Paired id k (Pair.new exporter host now) :=
  ⟨⟨_,hhost,⟨_,hexp,fun hl => absurd hl not_live_none,fun _ => ⟨rfl,not_live_none⟩⟩,
    fun _ => rfl⟩,fun _ => ⟨rfl,rfl⟩⟩

end Paired

/-- In a run without the two defects no connection of the source is left without one at the
destination, whenever the handshake is complete, nothing is on its way and no slot drains. -/
theorem source_slots_served {exporter host : ChannelMap} {id : UInt8}
    (hexp : exporter.get id=some (.tcpSource (.new id)))
    (hhost : host.get id=some (.tcpDest (.new id))) (now : Instant) {ops : List PairOp}
    (hops : Always Pair.step (Orderly id) (Pair.new exporter host now) ops)
    (hup : (after Pair.step (Pair.new exporter host now) ops).Connected)
    (hq : (after Pair.step (Pair.new exporter host now) ops).Quiescent)
    (hs : (after Pair.step (Pair.new exporter host now) ops).Settled id) :
    ∀k,(after Pair.step (Pair.new exporter host now) ops).sourceConns id k≠none →
      (after Pair.step (Pair.new exporter host now) ops).destConns id k≠none := by
  intro k
  have hinv : Paired id k (after Pair.step (Pair.new exporter host now) ops) :=
    after_of_always Pair.step (fun _ _ h hop => h.step hop) (Paired.new hexp hhost now) hops
  generalize after Pair.step (Pair.new exporter host now) ops=p at hup hq hs hinv
  obtain ⟨⟨t,ht,⟨s,hsrc,hserved,-⟩,-⟩,hdown⟩ := hinv
  have hsconns : p.sourceConns id=s.conns := by simp [Pair.sourceConns,hsrc]
  have hdconns : p.destConns id=t.conns := by simp [Pair.destConns,ht]
  intro hocc
  obtain ⟨c,hc⟩ := Option.ne_none_iff_exists'.mp hocc
  have hlive : Live (s.conns k) := ⟨c,hsconns ▸ hc,(hs k).1 c hc⟩
  have hnil : p.host.incoming++p.exporter.daemon.txq=[] := hq.1
  rcases hserved hlive with (hm|⟨-,x,hx,-⟩)|⟨f,hf,-⟩|hd
  · rw [hnil] at hm
    exact nomatch hm
  · rw [hdconns,hx]
    exact nofun
  · rw [hq.2] at hf
    exact absurd hf List.not_mem_nil
  · exact absurd hup.2 (by simp [(hdown hd).1])

/-- A kernel with a client to accept and a destination to connect to. -/
def tcpIo : Io := {Io.idle with accepts := [⟨7,true⟩], connect := some 8, peerAddr := true}

/-- Both sides open their link and complete the handshake. -/
def handshake : List PairOp :=
  [.exporter (.own (.start 0 (some 3))),.host (.own (.start 0 (some 3))),
    .exporter (.own (.send 0 (some 1))),.host (.own (.send 0 (some 1))),
    .exporter (.deliver 0 Io.idle),.host (.deliver 0 Io.idle),
    .exporter (.own (.send 0 (some 1))),.host (.own (.send 0 (some 1))),
    .exporter (.deliver 0 Io.idle),.host (.deliver 0 Io.idle)]

/-- A client is accepted and its connection opened at the other side. -/
def oneClient : List PairOp :=
  handshake++[.exporter (.own (.event 1 (primaryToken 0) true false tcpIo)),
    .exporter (.own (.send 1 (some 1))),.host (.deliver 1 tcpIo),
    .host (.own (.event 1 (tcpSlotToken 0 0) false true tcpIo))]

/-- The host process restarts; the link of the exporter stays up. -/
def hostRestart : List PairOp :=
  oneClient++[.host (.own (.restart 2 (fun _ => Io.idle))),.host (.own (.start 2 (some 3))),
    .host (.own (.send 2 (some 1))),.exporter (.deliver 2 Io.idle),
    .exporter (.own (.send 2 (some 1))),.host (.deliver 2 Io.idle)]

/-- Both daemons with the one TCP channel 0. -/
def tcpPair : Pair := Pair.new (.single (.tcpSource (.new 0))) (.single (.tcpDest (.new 0))) 0

theorem source_slots_served_oneClient :
    (after Pair.step tcpPair oneClient).sourceConns 0 0≠none ∧
      ∀k,(after Pair.step tcpPair oneClient).sourceConns 0 k≠none →
        (after Pair.step tcpPair oneClient).destConns 0 k≠none := by
  refine ⟨by decide +kernel,?_⟩
  have hexp : (ChannelMap.single (.tcpSource (.new 0))).get 0=some (.tcpSource (.new 0)) := rfl
  exact source_slots_served hexp rfl 0 (by decide +kernel) (by decide +kernel)
    (by decide +kernel) (by decide +kernel)

theorem stale_source_slot :
    ¬∀ops,(after Pair.step tcpPair ops).Connected → (after Pair.step tcpPair ops).Quiescent →
      (after Pair.step tcpPair ops).Settled 0 →
      ∀k,(after Pair.step tcpPair ops).sourceConns 0 k≠none →
        (after Pair.step tcpPair ops).destConns 0 k≠none := by
  intro h
  have hstale := h hostRestart (by decide +kernel) (by decide +kernel) (by decide +kernel) 0
    (by decide +kernel)
  exact absurd hstale (by decide +kernel)

end Serialmux.System

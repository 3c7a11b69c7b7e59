import Serialmux.Reference.TcpHands

namespace Serialmux.Reference

open Framework Protocol Channel

/-- The ids of the table of channels, in the order of the loops over it. -/
def channelIds : List UInt8 := (List.range 256).map UInt8.ofNat

theorem channelIds_nodup : channelIds.Nodup := by
  refine List.Nodup.map_on ?_ List.nodup_range
  intro i hi j hj h
  have heq := congrArg UInt8.toNat h
  rwa [UInt8.toNat_ofNat_of_lt' (List.mem_range.mp hi),UInt8.toNat_ofNat_of_lt' (List.mem_range.mp hj)]
    at heq

theorem mem_channelIds (id : UInt8) : id∈channelIds := by
  refine List.mem_map.mpr ⟨id.toNat,List.mem_range.mpr id.toNat_lt,UInt8.ofNat_toNat⟩

namespace Daemon

/-- What the channels send in a loop over them, each according to its own state. -/
def gather (d : Daemon) (frames : UInt8 → ChannelT → List Frame) (ids : List UInt8) : List Frame :=
  ids.flatMap (fun id => (d.channels id).elim [] (frames id))

end Daemon

section Loop

variable {crc : List UInt8 → UInt32} {frames : UInt8 → ChannelT → List Frame}
  {eff : UInt8 → McuCh → McuCh} {f : Daemon → UInt8 → Option Daemon}

/-- A loop over the channels: what each of them sends, and what becomes of the MCUs. -/
structure Loops (crc : List UInt8 → UInt32) (frames : UInt8 → ChannelT → List Frame)
    (eff : UInt8 → McuCh → McuCh) (ids : List UInt8) (d d' : Daemon) : Prop where
  pushed : Pushed crc (d.offered (d.gather frames ids)) d d'
  link : d'.link=d.link
  mcus : ∀id m,d.channels id=some (.mcu m) → ∃m',d'.channels id=some (.mcu m') ∧
    m'.settled=(if id∈ids then eff id m else m).settled

namespace Loops

theorem nil (d : Daemon) : Loops crc frames eff [] d d := by
  refine ⟨?_,rfl,fun id m hm => ⟨m,hm,rfl⟩⟩
  rw [Daemon.gather,List.flatMap_nil,Daemon.offered_nil]
  exact .nil rfl

variable {d d₁ d' : Daemon} {id : UInt8} {ids : List UInt8}

/-- An id without a channel. -/
theorem skip (hget : d.channels id=none) (h : Loops crc frames eff ids d d') :
    Loops crc frames eff (id::ids) d d' := by
  refine ⟨?_,h.link,fun j m hm => ?_⟩
  · rw [Daemon.gather,List.flatMap_cons,hget]
    exact h.pushed
  · have hj : j≠id := by
      rintro rfl
      exact nomatch hget.symm.trans hm
    simpa [hj] using h.mcus j m hm

/-- The other channels send what they would have sent when the loop began. -/
theorem gather_eq (hframes : ∀id ch ch',ch'.settled=ch.settled → frames id ch'=frames id ch)
    (hnot : id∉ids) (hothers : ∀j,j≠id →
      (d₁.channels j).map ChannelT.settled=(d.channels j).map ChannelT.settled) :
    d₁.gather frames ids=d.gather frames ids := by
  refine List.flatMap_congr (fun j hj => ?_)
  have hsame := hothers j (fun h => hnot (h ▸ hj))
  cases hd : d.channels j with
  | none =>
    rw [hd] at hsame
    rw [Option.map_eq_none_iff.mp hsame]
  | some ch₀ =>
    rw [hd] at hsame
    obtain ⟨ch₁,hch₁,hs⟩ := Option.map_eq_some_iff.mp hsame
    rw [hch₁]
    exact hframes j ch₀ ch₁ hs

/-- The first channel of the loop, and then the rest. -/
theorem cons (hframes : ∀id ch ch',ch'.settled=ch.settled → frames id ch'=frames id ch)
    (heff : ∀id m m',m'.settled=m.settled → (eff id m').settled=(eff id m).settled) (hnot : id∉ids)
    {ch : ChannelT} (hget : d.channels id=some ch)
    (h₁ : Hands crc id (frames id ch)
      (fun ch' => ∀m,ch=.mcu m → ch'.settled=(ChannelT.mcu (eff id m)).settled) d d₁)
    (h : Loops crc frames eff ids d₁ d') : Loops crc frames eff (id::ids) d d' := by
  refine ⟨?_,h.link.trans h₁.link,fun j m hm => ?_⟩
  · have hcons : d.gather frames (id::ids)=frames id ch++d.gather frames ids := by
      rw [Daemon.gather,List.flatMap_cons,hget]
      rfl
    rw [hcons,Daemon.offered_append,← gather_eq hframes hnot h₁.others,
      ← Daemon.offered_of_link h₁.link (d₁.gather frames ids)]
    exact h₁.pushed.trans h.pushed
  · by_cases hj : j=id
    · subst hj
      obtain ⟨ch₁,hch₁,hP⟩ := h₁.own
      obtain ⟨m₁,rfl,hm₁⟩ := ChannelT.mcu_of_settled (hP m (Option.some.inj (hget.symm.trans hm)))
      obtain ⟨m',hm',hs⟩ := h.mcus j m₁ hch₁
      refine ⟨m',hm',?_⟩
      rw [hs,if_neg hnot,if_pos List.mem_cons_self,hm₁]
    · have hsame := h₁.others j hj
      rw [hm] at hsame
      obtain ⟨ch₁,hch₁,hs₁⟩ := Option.map_eq_some_iff.mp hsame
      obtain ⟨m₁,rfl,hm₁⟩ := ChannelT.mcu_of_settled hs₁
      obtain ⟨m',hm',hs⟩ := h.mcus j m₁ hch₁
      refine ⟨m',hm',hs.trans ?_⟩
      by_cases hmem : j∈ids
      · rw [if_pos hmem,if_pos (List.mem_cons_of_mem id hmem)]
        exact heff j m m₁ hm₁
      · rw [if_neg hmem,if_neg (by simp [hj,hmem])]
        exact hm₁

end Loops

theorem loops_of_hands (hframes : ∀id ch ch',ch'.settled=ch.settled → frames id ch'=frames id ch)
    (heff : ∀id m m',m'.settled=m.settled → (eff id m').settled=(eff id m).settled)
    (hf : ∀d id ch,d.channels id=some ch → Allows (Hands crc id (frames id ch)
      (fun ch' => ∀m,ch=.mcu m → ch'.settled=(ChannelT.mcu (eff id m)).settled) d) (f d id))
    {ids : List UInt8} (hids : ids.Nodup) (d : Daemon) :
    Allows (Loops crc frames eff ids d)
      (ids.foldlM (fun d id => if (d.channels id).isSome then f d id else some d) d) := by
  induction ids generalizing d with
  | nil => exact .some (.nil d)
  | cons id ids ih =>
    obtain ⟨hnot,hids⟩ := List.nodup_cons.mp hids
    rw [List.foldlM_cons]
    cases hget : d.channels id with
    | none => exact .next (a := d) (by simp) ((ih hids d).mono (fun d' h => h.skip hget))
    | some ch =>
      have hsome : (if (some ch).isSome then f d id else some d)=f d id := rfl
      rw [hsome]
      refine (hf d id ch hget).bind (fun d₁ h₁ => (ih hids d₁).mono (fun d' h => ?_))
      exact .cons hframes heff hnot hget h₁ h

end Loop

/-- What a channel tells the peer when the link comes up. -/
def linkUpFrames (id : UInt8) : ChannelT → List Frame
  | .mcu m => [⟨if m.state=.active then fReady else fFlush,id,[]⟩]
  | _ => []

/-- What a channel sends for its timer. -/
def tickFrames (nowMs : Millis) (id : UInt8) : ChannelT → List Frame
  | .mcu m => m.tickFrames id nowMs
  | _ => []

theorem McuCh.openUart_settled (m : McuCh) (io : Io) :
    (mcuOpenUart m io).settled=(mcuOpenUart m.settled io).settled := by
  unfold mcuOpenUart
  cases io.openSerialFd with
  | none => rfl
  | some fd =>
    dsimp only
    rw [mcuUpdateInterest_settled,mcuUpdateInterest_settled]
    rfl

theorem McuCh.moved_settled (m : McuCh) (s : McuState) :
    (m.moved s).settled=(m.settled.moved s).settled := by
  have hsame : m.settled.state=m.state := rfl
  unfold moved
  rw [hsame]
  split_ifs
  · rfl
  · cases s <;> rfl

theorem McuCh.ticked_settled (m : McuCh) (nowMs : Millis) (io : Io) :
    (m.ticked nowMs io).settled=(m.settled.ticked nowMs io).settled := by
  have hsame : m.settled.fd=m.fd ∧ m.settled.reopenAtMs=m.reopenAtMs ∧
      m.settled.silent nowMs=m.silent nowMs := ⟨rfl,rfl,rfl⟩
  unfold ticked
  rw [hsame.1,hsame.2.1,hsame.2.2]
  split_ifs
  · exact openUart_settled m io
  · exact moved_settled m .resetting
  · rfl

section Broadcast

variable {crc : List UInt8 → UInt32} {d : Daemon}

theorem mcuOnLinkUp_hands {id : UInt8} {m : McuCh} (hget : d.channels id=some (.mcu m))
    (clock : Millis) :
    Allows (Hands crc id (linkUpFrames id (.mcu m))
        (·.settled=(ChannelT.mcu {m with linkUp := true, lastRxMs := clock}).settled) d)
      (chOnLinkUp crc clock d id) := by
  rw [chOnLinkUp,hget]
  exact Hands.from_put _ (daemonSend_hands (d.put_self id _) clock _ id [])

theorem chOnLinkUp_hands {id : UInt8} {ch : ChannelT} (hget : d.channels id=some ch) (clock : Millis) :
    Allows (Hands crc id (linkUpFrames id ch) (fun ch' => ∀m,ch=.mcu m →
        ch'.settled=(ChannelT.mcu {m with linkUp := true, lastRxMs := clock}).settled) d)
      (chOnLinkUp crc clock d id) := by
  cases ch with
  | mcu m =>
    refine (mcuOnLinkUp_hands hget clock).mono (fun d' h => h.mono (fun ch' hch' m' hm' => ?_))
    obtain rfl := ChannelT.mcu.inj hm'
    exact hch'
  | pty p =>
    rw [chOnLinkUp,hget]
    exact .some (.put (fun m hm => nomatch hm))
  | src s =>
    rw [chOnLinkUp,hget]
    exact .some (.put (fun m hm => nomatch hm))
  | dst t =>
    rw [chOnLinkUp,hget]
    exact .some (.put (fun m hm => nomatch hm))

/-- All channels are told that the link is up. -/
theorem linkUp_loops (d : Daemon) (clock : Millis) :
    Allows (Loops crc linkUpFrames (fun _ m => {m with linkUp := true, lastRxMs := clock}) channelIds d)
      (d.eachChannel (chOnLinkUp crc clock)) := by
  refine loops_of_hands ?_ ?_ (fun d id ch hget => chOnLinkUp_hands hget clock) channelIds_nodup d
  · intro id ch ch' h
    have hsame (ch : ChannelT) : linkUpFrames id ch=linkUpFrames id ch.settled := by cases ch <;> rfl
    rw [hsame ch',h,← hsame ch]
  · intro id m m' h
    exact congrArg (fun m => {m with linkUp := true, lastRxMs := clock}) h

/-- The timers of all channels. -/
theorem tick_loops (d : Daemon) (nowMs : Millis) (ios : UInt8 → Io) :
    Allows (Loops crc (tickFrames nowMs) (fun id m => m.ticked nowMs (ios id)) channelIds d)
      (d.eachChannel (fun d id => chTick crc d id nowMs (ios id))) := by
  refine loops_of_hands ?_ ?_ ?_ channelIds_nodup d
  · intro id ch ch' h
    have hsame (ch : ChannelT) : tickFrames nowMs id ch=tickFrames nowMs id ch.settled := by
      cases ch <;> rfl
    rw [hsame ch',h,← hsame ch]
  · intro id m m' h
    rw [McuCh.ticked_settled m',h,← McuCh.ticked_settled m]
  · intro d id ch hget
    cases ch with
    | mcu m =>
      refine (chTick_hands hget nowMs (ios id)).mono (fun d' h => h.mono (fun ch' hch' m' hm' => ?_))
      obtain rfl := ChannelT.mcu.inj hm'
      exact hch'
    | pty p =>
      rw [chTick,hget]
      exact .some (.rest hget (fun m hm => nomatch hm))
    | src s =>
      rw [chTick,hget]
      exact .some (.rest hget (fun m hm => nomatch hm))
    | dst t =>
      rw [chTick,hget]
      exact .some (.rest hget (fun m hm => nomatch hm))

end Broadcast

namespace Daemon

/-- The frames that `on_frame` calls `enqueue_frame` with. -/
def frameCalls (d : Daemon) (f : Frame) (io : Io) : List Frame :=
  if f.ftype=fPing then [⟨fPong,0,[]⟩]
  else if f.ftype=fPong then []
  else if f.ftype=fHello then ⟨fAck,0,[]⟩::d.offered (d.gather linkUpFrames channelIds)
  else if f.ftype=fAck then if d.linkUp then [] else d.offered (d.gather linkUpFrames channelIds)
  else d.offered ((d.channels f.channel).elim []
    (fun ch => chFrameFrames f.channel ch f.ftype f.payload io))

end Daemon

/-- What no frame changes. -/
def Daemon.session (d : Daemon) : Bool × Millis := (d.disconnected,d.reopenDelayMs)

theorem Daemon.session_of_link {d d' : Daemon} (h : d'.link=d.link) : d'.session=d.session :=
  Prod.ext (congrArg (·.2.2.1) h) (congrArg (·.2.2.2.2.2) h)

/-- The loop by which a link comes up. -/
theorem connected_calls (crc : List UInt8 → UInt32) {d d₁ : Daemon} (hc : d₁.channels=d.channels)
    (hs : d₁.session=d.session) (clock : Millis) :
    Allows (fun d' => d'.session=d.session ∧
        Pushed crc (d.offered (d.gather linkUpFrames channelIds)) d₁ d')
      (Daemon.eachChannel {d₁ with linkUp := true} (chOnLinkUp crc clock)) := by
  have hdis : d₁.disconnected=d.disconnected := congrArg Prod.fst hs
  have hsent : Daemon.offered {d₁ with linkUp := true}
      (Daemon.gather {d₁ with linkUp := true} linkUpFrames channelIds)=
        d.offered (d.gather linkUpFrames channelIds) := by
    simp only [Daemon.offered,Daemon.gather,hc,hdis]
  refine (linkUp_loops _ clock).mono (fun d' h => ⟨(Daemon.session_of_link h.link).trans hs,?_⟩)
  rw [← hsent]
  exact ⟨h.pushed.sized,h.pushed.ring⟩

/-- What `on_frame` does to the ring, and that it keeps the link. -/
theorem onFrame_calls (crc : List UInt8 → UInt32) (d : Daemon) (f : Frame) (io : Io) :
    Allows (fun d' => d'.session=d.session ∧ Pushed crc (d.frameCalls f io) d d')
      (onFrame crc d f io) := by
  unfold onFrame Daemon.frameCalls
  split_ifs
  · refine (enqueueFrame_allows io.clock fPong 0 []).mono ?_
    intro d' ⟨_,hl,_,hpushed⟩
    exact ⟨Daemon.session_of_link hl,hpushed⟩
  · exact .some ⟨rfl,.nil rfl⟩
  · refine (enqueueFrame_allows io.clock fAck 0 []).bind ?_
    intro d₁ ⟨hc,hl,_,hpushed⟩
    refine (connected_calls crc hc (Daemon.session_of_link hl) io.clock).mono ?_
    intro d' ⟨hs,hpushed'⟩
    exact ⟨hs,hpushed.trans hpushed'⟩
  · exact .some ⟨rfl,.nil rfl⟩
  · exact connected_calls crc rfl rfl io.clock
  · cases hget : d.channels f.channel with
    | none =>
      rw [chOnFrame,hget]
      refine .some ⟨rfl,?_⟩
      rw [Option.elim_none,Daemon.offered_nil]
      exact .nil rfl
    | some ch =>
      refine (chOnFrame_hands hget f.ftype f.payload io).mono (fun d' h => ?_)
      exact ⟨Daemon.session_of_link h.link,h.pushed⟩

end Serialmux.Reference

import Serialmux.Reference.Enqueue

namespace Serialmux.Reference

open Framework Protocol Channel

abbrev maxTickMs : Millis := 1000

/-- `ch_deadline`; 0 is none. -/
def chDeadline : ChannelT → Millis
  | .mcu m =>
    if m.fd=none then m.reopenAtMs
    else if m.state=.active ∧ 0 < m.lastRxMs then m.lastRxMs+resetSilenceMs
    else 0
  | _ => 0

/-- The earlier of two deadlines, as the source picks it. -/
def earlier (deadline t : Millis) : Millis := if t<deadline then t else deadline

def nextTimeoutMs (d : Daemon) (nowMs : Millis) : Millis :=
  let deadline := nowMs+maxTickMs
  let deadline :=
    if d.disconnected then earlier deadline d.reopenAtMs
    else if d.linkUp then
      let deadline := earlier deadline (d.lastTxMs+kaIntervalMs)
      if 0 < d.lastRxMs then earlier deadline (d.lastRxMs+kaTimeoutMs) else deadline
    else deadline
  let deadline := channelIds.foldl (fun deadline id =>
    match d.channels id with
    | none => deadline
    | some ch => if 0 < chDeadline ch then earlier deadline (chDeadline ch) else deadline) deadline
  let rem := deadline-nowMs
  if rem≤0 then 0 else if maxTickMs < rem then maxTickMs else rem

namespace Daemon

/-- The deadlines of the link that `next_timeout_ms` takes into account. -/
def linkDeadlines (d : Daemon) : List Millis :=
  if d.disconnected then [d.reopenAtMs]
  else if d.linkUp then
    (d.lastTxMs+kaIntervalMs)::(if 0 < d.lastRxMs then [d.lastRxMs+kaTimeoutMs] else [])
  else []

/-- Those of a channel. -/
def channelDeadline (d : Daemon) (id : UInt8) : Option Millis :=
  (d.channels id).bind (fun ch => if 0 < chDeadline ch then some (chDeadline ch) else none)

/-- All of them. -/
def deadlines (d : Daemon) : List Millis := d.linkDeadlines++channelIds.filterMap d.channelDeadline

end Daemon

theorem foldl_min_le (ts : List Millis) (a : Millis) :
    ts.foldl min a≤a ∧ ∀t∈ts,ts.foldl min a≤t := by
  induction ts generalizing a with
  | nil => exact ⟨Int.le_refl a,nofun⟩
  | cons b ts ih =>
    obtain ⟨hfirst,hrest⟩ := ih (min a b)
    refine ⟨Int.le_trans hfirst (Int.min_le_left a b),List.forall_mem_cons.mpr ⟨?_,hrest⟩⟩
    exact Int.le_trans hfirst (Int.min_le_right a b)

/-- The loop waits for the first of them, a tick at most. -/
theorem nextTimeoutMs_eq (d : Daemon) (nowMs : Millis) :
    nextTimeoutMs d nowMs=max 0 (d.deadlines.foldl min (nowMs+maxTickMs)-nowMs) := by
  have hmin (a b : Millis) : earlier a b=min a b := by
    unfold earlier Millis at *
    omega
  have hlink : (if d.disconnected then earlier (nowMs+maxTickMs) d.reopenAtMs
      else if d.linkUp then
        let deadline := earlier (nowMs+maxTickMs) (d.lastTxMs+kaIntervalMs)
        if 0 < d.lastRxMs then earlier deadline (d.lastRxMs+kaTimeoutMs) else deadline
      else nowMs+maxTickMs)=d.linkDeadlines.foldl min (nowMs+maxTickMs) := by
    simp only [hmin,Daemon.linkDeadlines]
    split_ifs <;> rfl
  have hchannels (ids : List UInt8) (a : Millis) : ids.foldl (fun deadline id =>
      match d.channels id with
      | none => deadline
      | some ch => if 0 < chDeadline ch then earlier deadline (chDeadline ch) else deadline) a=
        (ids.filterMap d.channelDeadline).foldl min a := by
    induction ids generalizing a with
    | nil => rfl
    | cons id ids ih =>
      rw [List.foldl_cons,ih,List.filterMap_cons]
      cases hget : d.channels id with
      | none => simp [Daemon.channelDeadline,hget]
      | some ch => by_cases hpos : 0 < chDeadline ch <;> simp [Daemon.channelDeadline,hget,hpos,hmin]
  have hle := (foldl_min_le d.deadlines (nowMs+maxTickMs)).1
  unfold nextTimeoutMs
  dsimp only at hlink ⊢
  rw [hlink,hchannels,← List.foldl_append,← Daemon.deadlines]
  unfold Millis maxTickMs at *
  split_ifs <;> omega

/-- With a deadline that is over the loop does not wait. -/
theorem nextTimeoutMs_overdue {d : Daemon} {nowMs t : Millis} (ht : t∈d.deadlines) (hover : t≤nowMs) :
    nextTimeoutMs d nowMs=0 := by
  have hmin := (foldl_min_le d.deadlines (nowMs+maxTickMs)).2 t ht
  rw [nextTimeoutMs_eq]
  unfold Millis at *
  omega

/-- The MCU of a UART that is closed is not seen to run. -/
def ChannelT.Rested : ChannelT → Prop
  | mcu m => m.fd=none → m.state≠.active
  | _ => True

namespace ChannelT.Rested

theorem of_settled {ch ch' : ChannelT} (hs : ch'.settled=ch.settled) (h : ch.Rested) : ch'.Rested := by
  have hsame (ch : ChannelT) : ch.Rested ↔ ch.settled.Rested := by cases ch <;> exact Iff.rfl
  rw [hsame ch',hs,← hsame ch]
  exact h

theorem of_spec {ch : ChannelT} (h : ch.spec≠.mcu) : ch.Rested := by
  cases ch with
  | mcu m => exact absurd rfl h
  | pty p => trivial
  | src s => trivial
  | dst t => trivial

variable {m : McuCh}

theorem of_mcu {m' : McuCh} (hs : m'.settled=m.settled) (h : (mcu m).Rested) : (mcu m').Rested := by
  have hch : (mcu m').settled=(mcu m).settled := congrArg mcu hs
  exact of_settled hch h

theorem resetting (m : McuCh) : (mcu (m.moved .resetting)).Rested := by
  intro _ hactive
  unfold McuCh.moved at hactive
  split_ifs at hactive with hs
  exact nomatch hs.trans hactive

theorem afterRead (h : (mcu m).Rested) (io : Io) : (mcu (m.afterRead io)).Rested := by
  unfold McuCh.afterRead
  by_cases hfd : m.fd=none
  · rw [readFd,if_pos hfd]
    exact resetting (mcuCloseUart m)
  rw [readFd,if_neg hfd]
  -- A UART that is open stays so, unless it cannot be read.
  cases io.read with
  | wouldBlock => exact h
  | error e => exact resetting (mcuCloseUart m)
  | data bs hbs =>
    cases bs with
    | nil => exact h
    | cons b bs =>
      intro hnone
      dsimp only at hnone
      have hopen : (McuCh.awaited {m with lastRxMs := io.clock} (b::bs)).fd=m.fd := by
        unfold McuCh.awaited McuCh.moved
        split
        · rfl
        · split_ifs <;> rfl
      split_ifs at hnone
      · exact absurd hnone hfd
      · exact absurd (hopen.symm.trans hnone) hfd

theorem drained (h : (mcu m).Rested) (io : Io) : (mcu (m.drained io)).Rested := by
  unfold McuCh.drained
  split_ifs
  · exact h
  · cases io.write <;> exact h

theorem afterEvent (h : (mcu m).Rested) (readable writable : Bool) (io : Io) :
    (mcu (m.afterEvent readable writable io)).Rested := by
  have hread : (mcu (if readable then m.afterRead io else m)).Rested := by
    split_ifs
    · exact h.afterRead io
    · exact h
  unfold McuCh.afterEvent
  generalize (if readable then m.afterRead io else m)=m₁ at hread ⊢
  dsimp only
  split_ifs
  · exact hread.drained io
  · exact hread

theorem openUart (h : (mcu m).Rested) (io : Io) : (mcu (mcuOpenUart m io)).Rested := by
  unfold mcuOpenUart
  cases io.openSerialFd with
  | none => exact h
  | some fd =>
    exact of_mcu (m := {m with fd := some fd, watch := .fresh}) (mcuUpdateInterest_settled _)
      (fun hnone => nomatch hnone)

theorem ticked (h : (mcu m).Rested) (nowMs : Millis) (io : Io) : (mcu (m.ticked nowMs io)).Rested := by
  unfold McuCh.ticked
  split_ifs
  · exact h.openUart io
  · exact resetting m
  · exact h

theorem onFrame (h : (mcu m).Rested) (ftype : UInt8) (payload : List UInt8) (io : Io) :
    Allows (fun m' => (mcu m').Rested) (mcuOnFrame m ftype payload io) := by
  unfold mcuOnFrame
  split_ifs
  · exact .some h
  · intro m' hm'
    obtain ⟨txbuf,-,hm'⟩ := Option.bind_eq_some_iff.mp hm'
    have hfilled : (mcu {m with txbuf := txbuf}).Rested := h
    exact of_mcu (mcuUartDrain_settled _ io m' hm') (hfilled.drained io)

theorem linkDown {ch : ChannelT} (h : ch.Rested) : (chOnLinkDown ch).Rested := by
  cases ch with
  | mcu m =>
    exact of_mcu (m := {m with linkUp := false, txbuf := []}) (mcuUpdateInterest_settled _) h
  | pty p => trivial
  | src s => trivial
  | dst t => trivial

end ChannelT.Rested

/-- The invariant that the timers rely on. -/
structure Daemon.Timed (crc : List UInt8 → UInt32) (specs : UInt8 → Option Spec) (d : Daemon) :
    Prop where
  sound : d.Sound False crc specs
  delay : 0≤d.reopenDelayMs
  rested : ∀id ch,d.channels id=some ch → ch.Rested

namespace Daemon.Timed

variable {crc : List UInt8 → UInt32} {specs : UInt8 → Option Spec} {d d' : Daemon} {id : UInt8}

theorem of_same (h : Timed crc specs d) (hd' : d'.Sound False crc specs) (hs : d'.session=d.session)
    (hc : d'.channels=d.channels) : Timed crc specs d' := by
  have hdelay : d'.reopenDelayMs=d.reopenDelayMs := congrArg Prod.snd hs
  exact ⟨hd',hdelay ▸ h.delay,hc ▸ h.rested⟩

/-- What a handler keeps if it does so for its own channel. -/
theorem of_hands {fs : List Frame} {P : ChannelT → Prop} (h : Timed crc specs d)
    (hd' : d'.Sound False crc specs) (hh : Hands crc id fs P d d') (hP : ∀ch,P ch → ch.spec=.mcu → ch.Rested) :
    Timed crc specs d' := by
  have hdelay : d'.reopenDelayMs=d.reopenDelayMs := congrArg (·.2.2.2.2.2) hh.link
  refine ⟨hd',hdelay ▸ h.delay,fun j ch hget => ?_⟩
  by_cases hj : j=id
  · subst hj
    obtain ⟨ch',hget',hch'⟩ := hh.own
    obtain rfl := Option.some.inj (hget.symm.trans hget')
    by_cases hspec : ch.spec=.mcu
    · exact hP ch hch' hspec
    · exact .of_spec hspec
  · have hsame := hh.others j hj
    rw [hget] at hsame
    obtain ⟨ch₀,hget₀,hs⟩ := Option.map_eq_some_iff.mp hsame.symm
    exact .of_settled hs.symm (h.rested j ch₀ hget₀)

/-- Events and frames of a channel that is no MCU. -/
theorem of_hands_other {fs : List Frame} {P : ChannelT → Prop} (h : Timed crc specs d)
    (hd' : d'.Sound False crc specs) (hh : Hands crc id fs P d d') (hk : specs id≠some .mcu) :
    Timed crc specs d' := by
  obtain ⟨ch',hget',hch'⟩ := hh.own
  have hother : Hands crc id fs (fun ch => ch.spec≠.mcu) d d' := by
    refine ⟨hh.pushed,hh.link,⟨ch',hget',fun hspec => hk ?_⟩,hh.others⟩
    rw [hd'.kind hget',hspec]
  exact h.of_hands hd' hother (fun ch hne hspec => absurd hspec hne)

theorem chHandleEvent (h : Timed crc specs d) (id : UInt8) (kind info : Nat)
    (readable writable : Bool) (io : Io) :
    Yields (Timed crc specs) (chHandleEvent crc d id kind info readable writable io) := by
  have hsound := h.sound.chHandleEvent id kind info readable writable io
  cases hget : d.channels id with
  | none =>
    rw [chHandleEvent_none hget]
    exact .some h
  | some ch =>
    by_cases hk : ch.spec=.mcu
    · cases ch with
      | mcu m =>
        rw [chHandleEvent_mcu hget] at hsound ⊢
        refine .when (fun hkind => ?_) h
        rw [if_pos hkind] at hsound
        refine (hsound.and_allows (mcuEvent_hands hget readable writable io)).mono ?_
        intro d' ⟨hd',hh⟩
        refine h.of_hands hd' hh (fun ch' hch' _ => .of_settled hch' ?_)
        exact .afterEvent (h.rested id _ hget) readable writable io
      | pty p => exact nomatch hk
      | src s => exact nomatch hk
      | dst t => exact nomatch hk
    · refine (hsound.and_allows (chHandleEvent_hands hget kind info readable writable io)).mono ?_
      intro d' ⟨hd',hh⟩
      refine h.of_hands_other hd' hh (fun hspec => hk ?_)
      exact Option.some.inj ((h.sound.kind hget).symm.trans hspec)

theorem chOnFrame (h : Timed crc specs d) (id ftype : UInt8) (payload : List UInt8) (io : Io) :
    Yields (Timed crc specs) (chOnFrame crc d id ftype payload io) := by
  have hsound := h.sound.chOnFrame id ftype payload io (by simp)
  cases hget : d.channels id with
  | none =>
    rw [Reference.chOnFrame,hget]
    exact .some h
  | some ch =>
    by_cases hk : ch.spec=.mcu
    · cases ch with
      | mcu m =>
        refine (hsound.and_allows (Q := Timed crc specs) ?_).mono (fun d' hd' => hd'.2)
        intro d' hd'
        have hs := hsound.get hd'
        rw [Reference.chOnFrame,hget] at hd'
        obtain ⟨m',hm',hd'⟩ := Option.bind_eq_some_iff.mp hd'
        obtain rfl := Option.some.inj hd'
        have hrested : (ChannelT.mcu m').Rested := .onFrame (h.rested id _ hget) ftype payload io m' hm'
        exact h.of_hands hs (.put (P := (· =.mcu m')) rfl) (fun ch hch _ => hch ▸ hrested)
      | pty p => cases hk
      | src s => cases hk
      | dst t => cases hk
    · refine (hsound.and_allows (chOnFrame_hands hget ftype payload io)).mono ?_
      rintro d' ⟨hd',hh⟩
      refine h.of_hands_other hd' hh (fun hspec => hk ?_)
      exact Option.some.inj ((h.sound.kind hget).symm.trans hspec)

/-- A loop over the channels that keeps the MCUs in order. -/
theorem of_loops {frames : UInt8 → ChannelT → List Frame} {eff : UInt8 → McuCh → McuCh}
    (h : Timed crc specs d) (hd' : d'.Sound False crc specs)
    (hl : Loops crc frames eff channelIds d d')
    (heff : ∀id m,(ChannelT.mcu m).Rested → (ChannelT.mcu (eff id m)).Rested) : Timed crc specs d' := by
  have hdelay : d'.reopenDelayMs=d.reopenDelayMs := congrArg (·.2.2.2.2.2) hl.link
  refine ⟨hd',hdelay ▸ h.delay,fun id ch hget => ?_⟩
  by_cases hk : ch.spec=.mcu
  · have hspec : specs id=some .mcu := by rw [hd'.kind hget,hk]
    obtain ⟨m,hm,-,-⟩ := h.sound.mcu hspec
    obtain ⟨m',hm',hs⟩ := hl.mcus id m hm
    obtain rfl := Option.some.inj (hget.symm.trans hm')
    rw [if_pos (mem_channelIds id)] at hs
    exact .of_mcu hs (heff id m (h.rested id _ hm))
  · exact .of_spec hk

theorem enqueueFrame (h : Timed crc specs d) (clock : Millis) (ftype channel : UInt8) :
    Yields (Timed crc specs) (enqueueFrame crc d clock ftype channel []) := by
  refine ((h.sound.enqueueFrame clock ftype channel (by decide)).and_allows
    (enqueueFrame_allows clock ftype channel [])).mono ?_
  intro d' ⟨hd',hc,hl,_,_⟩
  exact h.of_same hd' (session_of_link hl) hc

theorem connected (h : Timed crc specs d) (clock : Millis) :
    Yields (Timed crc specs)
      (Daemon.eachChannel {d with linkUp := true} (Reference.chOnLinkUp crc clock)) := by
  have hup : Timed crc specs {d with linkUp := true} :=
    ⟨⟨h.sound.parser,h.sound.ring,h.sound.kinds,h.sound.channels⟩,h.delay,h.rested⟩
  refine ((h.sound.connected clock).and_allows (linkUp_loops _ clock)).mono ?_
  intro d' ⟨hd',hl⟩
  exact hup.of_loops hd' hl (fun _ _ hm => hm)

theorem onFrame (h : Timed crc specs d) (f : Frame) (io : Io) :
    Yields (Timed crc specs) (onFrame crc d f io) := by
  unfold Reference.onFrame
  split_ifs
  · exact h.enqueueFrame io.clock fPong 0
  · exact .some h
  · exact (h.enqueueFrame io.clock fAck 0).bind (fun d' h' => h'.connected io.clock)
  · exact .some h
  · exact h.connected io.clock
  · exact h.chOnFrame _ _ _ io

theorem scheduleReopen (h : Timed crc specs d) (clock : Millis) :
    Timed crc specs (scheduleReopen d clock) := by
  refine ⟨h.sound.scheduleReopen clock,?_,h.rested⟩
  have hdelay := h.delay
  unfold Reference.scheduleReopen Millis at *
  dsimp only
  split_ifs <;> omega

theorem openLink (h : Timed crc specs d) (clock : Millis) (dev : Option RawFd) :
    Yields (Timed crc specs) (openLink crc d clock dev) := by
  cases dev with
  | none => exact .some (h.scheduleReopen clock)
  | some fd =>
    refine enqueueFrame ?_ clock fHello 0
    exact ⟨⟨rfl,⟨_,.zero⟩,h.sound.kinds,h.sound.channels⟩,(by decide : (0 : Millis)≤500),h.rested⟩

theorem mapChannels (h : Timed crc specs d) {f : ChannelT → ChannelT}
    (hk : ∀ch,(f ch).spec=ch.spec) (hs : ∀ch,ch.Sound False → (f ch).Sound False)
    (hf : ∀ch,ch.Rested → (f ch).Rested) : Timed crc specs (d.mapChannels f) := by
  refine ⟨h.sound.mapChannels hk hs,h.delay,fun id ch hget => ?_⟩
  obtain ⟨ch₀,hget₀,rfl⟩ := Option.map_eq_some_iff.mp hget
  exact hf ch₀ (h.rested id ch₀ hget₀)

theorem resumed (h : Timed crc specs d) :
    Timed crc specs {d.mapChannels chResume with linkBpPaused := false} := by
  have hset := h.mapChannels (ChannelT.setPaused_spec false) (fun _ hch => hch.setPaused false)
    (fun ch hch => .of_settled (ChannelT.setPaused_settled false ch) hch)
  exact ⟨⟨hset.sound.parser,hset.sound.ring,hset.sound.kinds,hset.sound.channels⟩,hset.delay,
    hset.rested⟩

theorem closeLink (h : Timed crc specs d) (clock : Millis) : Timed crc specs (closeLink d clock) := by
  unfold Reference.closeLink
  by_cases hdis : d.disconnected=true
  · rw [if_pos hdis]
    exact h
  rw [if_neg hdis]
  dsimp only
  generalize (if d.linkFd=none then d.linkWatch else epollUpdate d.linkWatch none)=watch
  have hdown : Timed crc specs {d with
      disconnected := true, linkUp := false, linkFd := none, linkWatch := watch, txq := .zero} :=
    ⟨⟨h.sound.parser,⟨_,.zero⟩,h.sound.kinds,h.sound.channels⟩,h.delay,h.rested⟩
  refine scheduleReopen (mapChannels ?_ ChannelT.linkDown_spec (fun _ hch => hch.linkDown)
    (fun _ hch => hch.linkDown)) clock
  split_ifs
  · exact hdown.resumed
  · exact hdown

theorem chTick (h : Timed crc specs d) (id : UInt8) (nowMs : Millis) (io : Io) :
    Yields (Timed crc specs) (chTick crc d id nowMs io) := by
  have hsound := h.sound.chTick id nowMs io
  by_cases hm : ∃m,d.channels id=some (.mcu m)
  · obtain ⟨m,hget⟩ := hm
    refine (hsound.and_allows (chTick_hands hget nowMs io)).mono ?_
    intro d' ⟨hd',hh⟩
    refine h.of_hands hd' hh (fun ch' hch' _ => .of_settled hch' ?_)
    exact .ticked (h.rested id _ hget) nowMs io
  · unfold Reference.chTick
    split
    · next m hget => exact absurd ⟨m,hget⟩ hm
    · exact .some h

theorem kept : Kept crc (fun _ _ _ => True) (Timed crc specs) where
  parser h := h.sound.parser
  ring h := h.sound.ring
  onFrame h f io _ := h.onFrame f io
  event h := h.chHandleEvent
  tick h := h.chTick
  openLink h := h.openLink
  closeLink h := h.closeLink
  ping h clock := h.enqueueFrame clock fPing 0
  resumed h := h.resumed
  received h r := ⟨Sound.kept.received h.sound r,h.delay,h.rested⟩
  parsed h p hp := ⟨Sound.kept.parsed h.sound p hp,h.delay,h.rested⟩
  drained h _ _ ht := ⟨Sound.kept.drained h.sound ht,h.delay,h.rested⟩
  watched h w := ⟨Sound.kept.watched h.sound w,h.delay,h.rested⟩

theorem init (crc : List UInt8 → UInt32) (specs : UInt8 → Option Spec) (ios : UInt8 → Io) :
    Timed crc specs (daemonInit specs ios) := by
  refine ⟨.init crc specs ios,(by decide : (0 : Millis)≤500),fun id ch hget => ?_⟩
  obtain ⟨spec,-,rfl⟩ := Option.map_eq_some_iff.mp hget
  cases spec with
  | mcu => exact .openUart (m := ⟨none,.fresh,.init,false,false,0,0,[]⟩) (fun _ => nofun) (ios id)
  | pty => trivial
  | tcpSrc => trivial
  | tcpDst => trivial

/-- The invariant holds after every run. -/
theorem run (crc : List UInt8 → UInt32) (specs : UInt8 → Option Spec) (ios : UInt8 → Io)
    (clock : Millis) (dev : Option RawFd) (steps : List LoopStep) :
    Yields (Timed crc specs) (daemonRun crc specs ios clock dev steps) := by
  refine ((init crc specs ios).openLink clock dev).bind (fun d h => ?_)
  exact .run (fun d s h hs => kept.loopStep h s hs) h (.of_forall (EachFrame.of_forall (fun _ _ _ => trivial)) _ _)

end Daemon.Timed

section Stamp

variable {crc : List UInt8 → UInt32} {d : Daemon} {id : UInt8} {m : McuCh}

/-- A frame that goes out is when the link was last written to. -/
theorem daemonSend_lastTx (clock : Millis) (ftype channel : UInt8) (payload : List UInt8) :
    Allows (fun d' => d'.lastTxMs=if d.disconnected then d.lastTxMs else clock)
      (daemonSend crc d clock ftype channel payload) := by
  unfold daemonSend
  split_ifs
  · exact .some rfl
  · intro d' hd'
    obtain ⟨used,-,hd'⟩ := Option.bind_eq_some_iff.mp hd'
    exact (enqueueFrame_allows clock ftype channel payload d' hd').2.2.1

theorem mcuReset_lastTx (hget : d.channels id=some (.mcu m)) (hdis : d.disconnected=false)
    (hne : .resetting≠m.state) (hup : m.linkUp=true) (clock : Millis) :
    Allows (fun d' => d'.lastTxMs=clock) (mcuTransition crc d id clock .resetting) := by
  refine .next (Daemon.mcu_of_get hget) ?_
  rw [if_neg hne]
  have hup' : (mcuUpdateInterest {m with state := .resetting, lastRxMs := 0, txbuf := []}).linkUp=
      true := by
    unfold mcuUpdateInterest
    split_ifs <;> exact hup
  dsimp only
  rw [if_pos hup']
  refine (daemonSend_lastTx clock fFlush id []).mono (fun d' h => h.trans (if_neg ?_))
  rw [Daemon.put,hdis]
  decide

theorem McuCh.announces_reset (hne : .resetting≠m.state) (hup : m.linkUp=true) :
    m.announces id .resetting=[⟨fFlush,id,[]⟩] := by
  rw [announces.eq_def,if_neg hne]
  exact if_pos hup

theorem chTick_lastTx (hget : d.channels id=some (.mcu m)) (hdis : d.disconnected=false)
    (nowMs : Millis) (io : Io) :
    Allows (fun d' => d'.lastTxMs=if m.tickFrames id nowMs=[] then d.lastTxMs else io.clock)
      (chTick crc d id nowMs io) := by
  unfold chTick McuCh.tickFrames
  rw [hget]
  dsimp only
  by_cases hdue : m.fd=none ∧ m.reopenAtMs≤nowMs
  · rw [if_pos hdue,if_pos hdue,if_pos rfl]
    exact .some rfl
  rw [if_neg hdue,if_neg hdue]
  by_cases hs : m.silent nowMs=true
  · have hon := (m.silent_iff nowMs).mp hs
    have hne : McuState.resetting≠m.state := by
      rw [hon.2.1]
      decide
    rw [if_pos hs,if_pos hon,McuCh.announces_reset hne hon.1,if_neg (List.cons_ne_nil _ _)]
    exact mcuReset_lastTx hget hdis hne hon.1 io.clock
  · rw [if_neg hs,if_neg (hs∘(m.silent_iff nowMs).mpr),if_pos rfl]
    exact .some rfl

/-- The MCU has something to send for its timer. -/
def Daemon.Fires (d : Daemon) (nowMs : Millis) (id : UInt8) : Prop :=
  ∃m,d.channels id=some (.mcu m) ∧ m.tickFrames id nowMs≠[]

theorem Daemon.fires_of_settled {d' : Daemon}
    (h : (d'.channels id).map ChannelT.settled=(d.channels id).map ChannelT.settled) (nowMs : Millis) :
    d'.Fires nowMs id ↔ d.Fires nowMs id := by
  have hone {d d' : Daemon}
      (h : (d'.channels id).map ChannelT.settled=(d.channels id).map ChannelT.settled)
      (hf : d.Fires nowMs id) : d'.Fires nowMs id := by
    obtain ⟨m,hget,hne⟩ := hf
    rw [hget] at h
    obtain ⟨ch,hget',hch⟩ := Option.map_eq_some_iff.mp h
    obtain ⟨m',rfl,hm'⟩ := ChannelT.mcu_of_settled hch
    have hsame (m : McuCh) : m.tickFrames id nowMs=m.settled.tickFrames id nowMs := rfl
    exact ⟨m',hget',by rw [hsame m',hm',← hsame m]; exact hne⟩
  exact ⟨hone h.symm,hone h⟩

/-- The loop over the timers writes to the link exactly if one of them fires. -/
theorem tick_lastTx {nowMs : Millis} {ios : UInt8 → Io} (hios : ∀id,nowMs≤(ios id).clock)
    {ids : List UInt8} (hids : ids.Nodup) (hdis : d.disconnected=false) :
    Allows (fun d' => ((∀id∈ids,¬d.Fires nowMs id) → d'.lastTxMs=d.lastTxMs) ∧
        ((∃id∈ids,d.Fires nowMs id) → nowMs≤d'.lastTxMs))
      (ids.foldlM (fun d id => if (d.channels id).isSome then chTick crc d id nowMs (ios id)
        else some d) d) := by
  induction ids generalizing d with
  | nil => exact .some ⟨fun _ => rfl,fun ⟨_,h,_⟩ => nomatch h⟩
  | cons id ids ih =>
    obtain ⟨hnot,hids⟩ := List.nodup_cons.mp hids
    rw [List.foldlM_cons]
    by_cases hm : ∃m,d.channels id=some (.mcu m)
    · obtain ⟨m,hget⟩ := hm
      have hsome : (if (d.channels id).isSome then chTick crc d id nowMs (ios id) else some d)=
          chTick crc d id nowMs (ios id) := by rw [hget]; rfl
      rw [hsome]
      intro d' hd'
      obtain ⟨d₁,hd₁,hd'⟩ := Option.bind_eq_some_iff.mp hd'
      have hh := chTick_hands hget nowMs (ios id) d₁ hd₁
      have htx := chTick_lastTx hget hdis nowMs (ios id) d₁ hd₁
      obtain ⟨hquiet,hfired⟩ := ih hids ((Daemon.disconnected_of_link hh.link).trans hdis) d' hd'
      have hsame (j : UInt8) (hj : j∈ids) : d₁.Fires nowMs j ↔ d.Fires nowMs j :=
        Daemon.fires_of_settled (hh.others j (fun h => hnot (h ▸ hj))) nowMs
      have hrest (hf : ∃j∈ids,d.Fires nowMs j) : nowMs≤d'.lastTxMs := by
        obtain ⟨j,hj,hf⟩ := hf
        exact hfired ⟨j,hj,(hsame j hj).mpr hf⟩
      refine ⟨fun hall => ?_,fun ⟨j,hj,hf⟩ => ?_⟩
      · have hnil : m.tickFrames id nowMs=[] :=
          not_not.mp (fun hne => hall id List.mem_cons_self ⟨m,hget,hne⟩)
        rw [if_pos hnil] at htx
        rw [hquiet (fun j hj hf => hall j (List.mem_cons_of_mem id hj) ((hsame j hj).mp hf)),htx]
      · rcases List.mem_cons.mp hj with rfl|hj
        · by_cases hmore : ∃i∈ids,d.Fires nowMs i
          · exact hrest hmore
          · obtain ⟨m',hget',hne⟩ := hf
            obtain rfl := ChannelT.mcu.inj (Option.some.inj (hget.symm.trans hget'))
            rw [if_neg hne] at htx
            rw [hquiet (fun i hi hf => hmore ⟨i,hi,(hsame i hi).mp hf⟩),htx]
            exact hios j
        · exact hrest ⟨j,hj,hf⟩
    · have hskip : (if (d.channels id).isSome then chTick crc d id nowMs (ios id) else some d)=
          some d := by
        unfold chTick
        split_ifs
        · split
          · next m hget => exact absurd ⟨m,hget⟩ hm
          · rfl
        · rfl
      have hid : ¬d.Fires nowMs id := fun ⟨m,hget,_⟩ => hm ⟨m,hget⟩
      refine .next hskip ((ih hids hdis).mono (fun d' ⟨hquiet,hfired⟩ => ⟨fun hall => ?_,?_⟩))
      · exact hquiet (fun j hj => hall j (List.mem_cons_of_mem id hj))
      · intro ⟨j,hj,hf⟩
        rcases List.mem_cons.mp hj with rfl|hj
        · exact absurd hf hid
        · exact hfired ⟨j,hj,hf⟩

end Stamp

/-- What the loop head does about the link before the timers of the channels. -/
inductive LinkHead (d : Daemon) (nowMs clock : Millis) : Daemon → Prop where
  | opened {d' : Daemon} (hdis : d.disconnected=true) (hc : d'.channels=d.channels)
      (hdis' : d'.disconnected=false) (hup' : d'.linkUp=false) : LinkHead d nowMs clock d'
  | waits {d' : Daemon} (hdis : d.disconnected=true) (hc : d'.channels=d.channels)
      (hdis' : d'.disconnected=true) (hdue : nowMs≤d'.reopenAtMs) : LinkHead d nowMs clock d'
  | closed (hdis : d.disconnected=false) (hlost : d.lost nowMs=true) :
      LinkHead d nowMs clock (closeLink d clock)
  | pinged {d' : Daemon} (hdis : d.disconnected=false) (hlost : d.lost nowMs=false)
      (hping : d.pings nowMs=true) (hc : d'.channels=d.channels) (hlink : d'.link=d.link)
      (htx : d'.lastTxMs=clock) : LinkHead d nowMs clock d'
  | kept (hdis : d.disconnected=false) (hlost : d.lost nowMs=false) (hping : d.pings nowMs=false) :
      LinkHead d nowMs clock d

section Head

variable {crc : List UInt8 → UInt32} {specs : UInt8 → Option Spec} {d d' : Daemon}
  {nowMs clock : Millis}

theorem linkHead (h : d.Timed crc specs) (hclock : nowMs≤clock) (dev : Option RawFd) :
    Allows (LinkHead d nowMs clock)
      (reopenLink crc d nowMs clock dev>>=fun d₁ => tickKeepalive crc d₁ nowMs clock) := by
  unfold reopenLink
  by_cases hdis : d.disconnected=true
  · by_cases hdue : d.reopenAtMs≤nowMs
    · rw [if_pos ⟨hdis,hdue⟩]
      cases dev with
      | none =>
        refine .next rfl ?_
        have hdis' : (scheduleReopen d clock).disconnected=true := rfl
        rw [tickKeepalive_eq,if_pos hdis']
        refine .some (.waits hdis rfl rfl (Int.le_trans hclock ?_))
        exact Int.le_add_of_nonneg_right h.delay
      | some fd =>
        refine (enqueueFrame_allows clock fHello 0 []).bind ?_
        rintro d₁ ⟨hc,hl,-,-⟩
        have hdis₁ : d₁.disconnected=false := Daemon.disconnected_of_link hl
        have hup₁ : d₁.linkUp=false := congrArg (·.2.1) hl
        have hrx₁ : d₁.lastRxMs=clock := congrArg (·.2.2.2.1) hl
        -- The link was heard of when it was opened.
        have hlost : d₁.lost nowMs=false := by
          have hsoon : ¬kaTimeoutMs<nowMs-clock := by
            unfold kaTimeoutMs Millis at *
            omega
          simp [Daemon.lost,hrx₁,hsoon]
        have hping : d₁.pings nowMs=false := by simp [Daemon.pings,hup₁]
        rw [tickKeepalive_eq,if_neg (by simp [hdis₁]),if_neg (by simp [hlost]),if_neg (by simp [hping])]
        exact .some (.opened hdis hc hdis₁ hup₁)
    · rw [if_neg (fun hd => hdue hd.2)]
      refine .next rfl ?_
      rw [tickKeepalive_eq,if_pos hdis]
      exact .some (.waits hdis rfl hdis (Int.le_of_lt (Int.not_le.mp hdue)))
  · have hdis' : d.disconnected=false := by simpa using hdis
    rw [if_neg (fun hd => hdis hd.1)]
    refine .next rfl ?_
    rw [tickKeepalive_eq,if_neg hdis]
    by_cases hlost : d.lost nowMs=true
    · rw [if_pos hlost]
      exact .some (.closed hdis' hlost)
    rw [if_neg hlost]
    have hlost' : d.lost nowMs=false := by simpa using hlost
    by_cases hping : d.pings nowMs=true
    · rw [if_pos hping]
      refine (enqueueFrame_allows clock fPing 0 []).mono ?_
      rintro d₁ ⟨hc,hl,htx,-⟩
      exact .pinged hdis' hlost' hping hc hl htx
    · rw [if_neg hping]
      exact .some (.kept hdis' hlost' (by simpa using hping))

/-- The state of an MCU when its timer is looked at: a link that is lost is down by then. -/
def McuCh.beforeTick (m : McuCh) (down : Bool) : McuCh :=
  if down then {m with linkUp := false, txbuf := []} else m

theorem closeLink_mcu {id : UInt8} {m : McuCh} (hdis : d.disconnected=false)
    (hget : d.channels id=some (.mcu m)) : ∃m',(closeLink d clock).channels id=some (.mcu m') ∧
      m'.settled=(m.beforeTick true).settled := by
  unfold closeLink
  rw [if_neg (by simp [hdis])]
  dsimp only
  by_cases hbp : d.linkBpPaused=true
  · rw [if_pos hbp]
    obtain ⟨m₁,hm₁,hs₁⟩ := ChannelT.mcu_of_settled (ChannelT.setPaused_settled false (.mcu m))
    refine ⟨mcuUpdateInterest {m₁ with linkUp := false, txbuf := []},?_,?_⟩
    · simp only [scheduleReopen,Daemon.mapChannels,hget,Option.map_some]
      rw [chResume,hm₁,chOnLinkDown]
    · rw [mcuUpdateInterest_settled]
      exact congrArg (fun m : McuCh => {m with linkUp := false, txbuf := []}) hs₁
  · rw [if_neg hbp]
    refine ⟨mcuUpdateInterest {m with linkUp := false, txbuf := []},?_,mcuUpdateInterest_settled _⟩
    simp only [scheduleReopen,Daemon.mapChannels,hget,Option.map_some]
    rfl

theorem LinkHead.mcu (h : LinkHead d nowMs clock d') {id : UInt8} {m : McuCh}
    (hget : d.channels id=some (.mcu m)) : ∃m',d'.channels id=some (.mcu m') ∧
      m'.settled=(m.beforeTick (!d.disconnected && d.lost nowMs)).settled := by
  cases h with
  | opened hdis hc => exact ⟨m,hc ▸ hget,by rw [hdis]; rfl⟩
  | waits hdis hc => exact ⟨m,hc ▸ hget,by rw [hdis]; rfl⟩
  | closed hdis hlost =>
    rw [hdis,hlost]
    exact closeLink_mcu hdis hget
  | pinged hdis hlost hping hc => exact ⟨m,hc ▸ hget,by rw [hlost,Bool.and_false]; rfl⟩
  | kept hdis hlost => exact ⟨m,hget,by rw [hlost,Bool.and_false]; rfl⟩

/-- The MCU of an open UART has been silent for too long, and its link is down. -/
def McuCh.Stuck (m : McuCh) (nowMs : Millis) (up : Bool) : Prop :=
  m.fd≠none ∧ m.state=.active ∧ 0 < m.lastRxMs ∧ m.lastRxMs+resetSilenceMs<nowMs ∧ up=false

theorem chDeadline_of_settled {m m' : McuCh} (h : m'.settled=m.settled) :
    chDeadline (.mcu m')=chDeadline (.mcu m) := by
  have hsame (m : McuCh) : chDeadline (.mcu m)=chDeadline (.mcu m.settled) := rfl
  rw [hsame m',h,← hsame m]

theorem chDeadline_closed {m : McuCh} (hfd : m.fd=none) : chDeadline (.mcu m)=m.reopenAtMs := if_pos hfd

theorem chDeadline_running {m : McuCh} (hfd : m.fd≠none) (hrun : m.state=.active ∧ 0 < m.lastRxMs) :
    chDeadline (.mcu m)=m.lastRxMs+resetSilenceMs := by
  rw [chDeadline,if_neg hfd,if_pos hrun]

/-- Nothing is waited for of an MCU that is not seen to run. -/
theorem chDeadline_stopped {m : McuCh} (hfd : m.fd≠none) (hrun : ¬(m.state=.active ∧ 0 < m.lastRxMs)) :
    chDeadline (.mcu m)=0 := by
  rw [chDeadline,if_neg hfd,if_neg hrun]

/-- A UART that is closed: it is opened, or tried again later. -/
theorem McuCh.ticked_deadline_closed {m : McuCh} (hm : (ChannelT.mcu m).Rested) {io : Io}
    (hio : nowMs ≤ io.clock) (hfd : m.fd=none) (hpos : 0<chDeadline (.mcu (m.ticked nowMs io))) :
    nowMs≤chDeadline (.mcu (m.ticked nowMs io)) := by
  unfold ticked at hpos ⊢
  by_cases hdue : m.reopenAtMs≤nowMs
  · rw [if_pos ⟨hfd,hdue⟩,mcuOpenUart] at hpos ⊢
    cases hopen : io.openSerialFd with
    | none =>
      have hlater : chDeadline (.mcu {m with reopenAtMs := io.clock+2000})=io.clock+2000 :=
        chDeadline_closed hfd
      rw [hlater]
      unfold Millis at *
      omega
    | some fd =>
      rw [hopen] at hpos
      have hstopped : chDeadline (.mcu (mcuUpdateInterest {m with fd := some fd, watch := .fresh}))=0 := by
        rw [chDeadline_of_settled (mcuUpdateInterest_settled _)]
        exact chDeadline_stopped nofun (fun h => hm hfd h.1)
      exact absurd hpos (by rw [hstopped]; decide)
  · have hquiet : ¬m.silent nowMs=true := fun h => hm hfd ((m.silent_iff nowMs).mp h).2.1
    rw [if_neg (fun h => hdue h.2),if_neg hquiet,chDeadline_closed hfd]
    exact Int.le_of_lt (Int.not_le.mp hdue)

/-- A timer that is stopped, or that the tick leaves for later. -/
theorem McuCh.ticked_deadline {m : McuCh} (hm : (ChannelT.mcu m).Rested) {io : Io}
    (hio : nowMs ≤ io.clock) :
    (0<chDeadline (.mcu (m.ticked nowMs io)) → nowMs≤chDeadline (.mcu (m.ticked nowMs io))) ↔
      ¬m.Stuck nowMs m.linkUp := by
  by_cases hfd : m.fd=none
  · exact iff_of_true (ticked_deadline_closed hm hio hfd) (fun h => h.1 hfd)
  rw [ticked,if_neg (fun h => hfd h.1)]
  by_cases hs : m.silent nowMs=true
  · obtain ⟨hup,hactive,-,-⟩ := (m.silent_iff nowMs).mp hs
    have hstopped : chDeadline (.mcu (m.moved .resetting))=0 := by
      rw [moved,if_neg (by rw [hactive]; decide)]
      exact chDeadline_stopped hfd (fun h => nomatch h.1)
    rw [if_pos hs,hstopped]
    exact iff_of_true (fun hpos => absurd hpos (by decide)) (fun h => nomatch hup.symm.trans h.2.2.2.2)
  rw [if_neg hs]
  by_cases hrun : m.state=.active ∧ 0 < m.lastRxMs
  · rw [chDeadline_running hfd hrun]
    have hsoon (hup : m.linkUp=true) : nowMs ≤ m.lastRxMs+resetSilenceMs := by
      have hle : ¬resetSilenceMs<nowMs-m.lastRxMs :=
        fun hover => hs ((m.silent_iff nowMs).mpr ⟨hup,hrun.1,hrun.2,hover⟩)
      unfold Millis at *
      omega
    have hpos : 0 < m.lastRxMs+resetSilenceMs := by
      have := hrun.2
      unfold resetSilenceMs Millis at *
      omega
    constructor
    · intro hle hstuck
      exact absurd (hle hpos) (Int.not_le.mpr hstuck.2.2.2.1)
    · intro hclear _
      by_contra hover
      refine hclear ⟨hfd,hrun.1,hrun.2,Int.not_le.mp hover,?_⟩
      cases hup : m.linkUp with
      | false => rfl
      | true => exact absurd (hsoon hup) hover
  · rw [chDeadline_stopped hfd hrun]
    exact iff_of_true (fun hpos => absurd hpos (by decide)) (fun h => hrun ⟨h.2.1,h.2.2.1⟩)

namespace Daemon

/-- The link is up and has something to send, but for 3 s nothing was put into its queue, and no MCU
puts anything there now. -/
def StuckQueue (d : Daemon) (nowMs : Millis) : Prop :=
  d.disconnected=false ∧ d.lost nowMs=false ∧ d.linkUp=true ∧ d.lastTxMs+kaIntervalMs<nowMs ∧
    ¬(txqEmpty d.txq=true ∧ 0<d.lastTxMs) ∧
    ∀id m,d.channels id=some (.mcu m) → m.silent nowMs=false

/-- An MCU has been silent for too long while its link is down, or the link is lost now. -/
def StuckMcu (d : Daemon) (nowMs : Millis) : Prop :=
  ∃id m,d.channels id=some (.mcu m) ∧
    m.Stuck nowMs (m.linkUp && !(!d.disconnected && d.lost nowMs))

theorem fires_iff (h : d.Timed crc specs) (id : UInt8) :
    d.Fires nowMs id ↔ ∃m,d.channels id=some (.mcu m) ∧ m.silent nowMs=true := by
  refine exists_congr (fun m => and_congr_right (fun hget => ?_))
  unfold McuCh.tickFrames
  by_cases hs : m.silent nowMs=true
  · obtain ⟨hup,hactive,-,-⟩ := (m.silent_iff nowMs).mp hs
    have hfd : m.fd≠none := fun hfd => h.rested id _ hget hfd hactive
    rw [if_neg (fun hd => hfd hd.1),if_pos hs,McuCh.announces_reset (by rw [hactive]; decide) hup]
    exact iff_of_true (List.cons_ne_nil _ _) hs
  · rw [if_neg hs,ite_self]
    exact iff_of_false (fun hne => hne rfl) hs

end Daemon

/-- The timers of the channels after the loop head. -/
theorem channels_overdue_iff (h : d.Timed crc specs) (hs : d'.Sound False crc specs) {d₁ : Daemon}
    (hd₁ : LinkHead d nowMs clock d₁) {ios : UInt8 → Io} (hios : ∀id,nowMs≤(ios id).clock)
    (hl : Loops crc (tickFrames nowMs) (fun id m => m.ticked nowMs (ios id)) channelIds d₁ d') :
    (∀t∈channelIds.filterMap d'.channelDeadline,nowMs≤t) ↔ ¬d.StuckMcu nowMs := by
  generalize hdown : (!d.disconnected && d.lost nowMs)=down
  have hticked {id : UInt8} {m : McuCh} (hget : d.channels id=some (.mcu m)) :
      ∃m',d'.channels id=some (.mcu m') ∧
        ((0<chDeadline (.mcu m') → nowMs≤chDeadline (.mcu m')) ↔ ¬m.Stuck nowMs (m.linkUp && !down)) := by
    obtain ⟨m₁,hm₁,hs₁⟩ := hd₁.mcu hget
    obtain ⟨m',hm',hs'⟩ := hl.mcus id m₁ hm₁
    rw [if_pos (mem_channelIds id),McuCh.ticked_settled,hs₁,hdown,← McuCh.ticked_settled] at hs'
    refine ⟨m',hm',?_⟩
    rw [chDeadline_of_settled hs']
    cases down with
    | false =>
      rw [Bool.not_false,Bool.and_true]
      exact McuCh.ticked_deadline (h.rested id _ hget) (hios id)
    | true =>
      rw [Bool.not_true,Bool.and_false]
      exact McuCh.ticked_deadline (m := m.beforeTick true) (h.rested id (.mcu m) hget) (hios id)
  constructor
  · intro hall ⟨id,m,hget,hstuck⟩
    obtain ⟨m',hm',hiff⟩ := hticked hget
    refine hiff.mp (fun hpos => hall _ (List.mem_filterMap.mpr ⟨id,mem_channelIds id,?_⟩))
      (hdown ▸ hstuck)
    rw [Daemon.channelDeadline,hm',Option.bind_some,if_pos hpos]
  · intro hclear t ht
    obtain ⟨id,-,hid⟩ := List.mem_filterMap.mp ht
    obtain ⟨ch,hget',hch⟩ := Option.bind_eq_some_iff.mp hid
    have hpos : 0<chDeadline ch := by
      by_contra hnot
      rw [if_neg hnot] at hch
      exact nomatch hch
    rw [if_pos hpos] at hch
    obtain rfl := Option.some.inj hch
    have hmcu : ch.spec=.mcu := by
      have hnone : ¬(0 : Millis)<0 := by decide
      cases ch with
      | mcu m => rfl
      | pty p => exact absurd hpos hnone
      | src s => exact absurd hpos hnone
      | dst t => exact absurd hpos hnone
    obtain ⟨m,hget,-,-⟩ := h.sound.mcu ((hs.kind hget').trans (congrArg some hmcu))
    obtain ⟨m',hm',hiff⟩ := hticked hget
    obtain rfl := Option.some.inj (hget'.symm.trans hm')
    exact hiff.mpr (fun hstuck => hclear ⟨id,m,hget,hdown.symm ▸ hstuck⟩) hpos

theorem linkDeadlines_of_disconnected (hdis : d.disconnected=true) :
    d.linkDeadlines=[d.reopenAtMs] := if_pos hdis

theorem linkDeadlines_of_up (hdis : d.disconnected=false) (hup : d.linkUp=true) :
    d.linkDeadlines=
      (d.lastTxMs+kaIntervalMs)::(if 0<d.lastRxMs then [d.lastRxMs+kaTimeoutMs] else []) := by
  rw [Daemon.linkDeadlines,if_neg (by simp [hdis]),if_pos hup]

/-- A link that has been heard of lately is not overdue. -/
theorem rx_not_overdue (hlost : d.lost nowMs=false) :
    ∀t∈(if 0<d.lastRxMs then [d.lastRxMs+kaTimeoutMs] else []),nowMs≤t := by
  intro t ht
  split_ifs at ht with hpos
  · obtain rfl := List.mem_singleton.mp ht
    have hle : ¬kaTimeoutMs<nowMs-d.lastRxMs := by
      intro hover
      have hover' : d.lost nowMs=true := by simp [Daemon.lost,hpos,hover]
      exact absurd (hlost.symm.trans hover') Bool.false_ne_true
    unfold Millis at *
    omega
  · cases ht

theorem closeLink_reopenAt (hdis : d.disconnected=false) (clock : Millis) :
    (closeLink d clock).reopenAtMs=clock+d.reopenDelayMs := by
  unfold closeLink
  rw [if_neg (by simp [hdis])]
  dsimp only
  split_ifs <;> rfl

/-- A link that is down has its reopen timer at most. -/
theorem down_not_overdue (hlink : d'.link=d.link) (hdue : d.disconnected=true → nowMs≤d.reopenAtMs)
    (hup : d.disconnected=false → d.linkUp=false) : ∀t∈d'.linkDeadlines,nowMs≤t := by
  have hdis' : d'.disconnected=d.disconnected := Daemon.disconnected_of_link hlink
  have hup' : d'.linkUp=d.linkUp := congrArg (·.2.1) hlink
  have hat' : d'.reopenAtMs=d.reopenAtMs := congrArg (·.2.2.2.2.1) hlink
  intro t ht
  cases hdis : d.disconnected with
  | true =>
    rw [linkDeadlines_of_disconnected (hdis'.trans hdis)] at ht
    obtain rfl := List.mem_singleton.mp ht
    rw [hat']
    exact hdue hdis
  | false =>
    rw [Daemon.linkDeadlines,if_neg (by simp [hdis',hdis]),if_neg (by simp [hup',hup hdis])] at ht
    exact nomatch ht

/-- A link that is up and was heard of lately has the timer of its PING. -/
theorem up_overdue_iff (hlink : d'.link=d.link) (hdis : d.disconnected=false) (hup : d.linkUp=true)
    (hlost : d.lost nowMs=false) :
    (∀t∈d'.linkDeadlines,nowMs≤t) ↔ nowMs≤d'.lastTxMs+kaIntervalMs := by
  have hdis' : d'.disconnected=d.disconnected := Daemon.disconnected_of_link hlink
  have hup' : d'.linkUp=d.linkUp := congrArg (·.2.1) hlink
  have hrx' : d'.lastRxMs=d.lastRxMs := congrArg (·.2.2.2.1) hlink
  rw [linkDeadlines_of_up (hdis'.trans hdis) (hup'.trans hup),hrx',List.forall_mem_cons]
  exact and_iff_left (rx_not_overdue hlost)

/-- A link to which the head itself sends nothing. -/
theorem kept_overdue_iff (h : d.Timed crc specs) (hlink : d'.link=d.link) (hdis : d.disconnected=false)
    (hlost : d.lost nowMs=false) (hping : d.pings nowMs=false) (hup : d.linkUp=true)
    (hquiet : (∀id∈channelIds,¬d.Fires nowMs id) → d'.lastTxMs=d.lastTxMs)
    (hfired : (∃id∈channelIds,d.Fires nowMs id) → nowMs≤d'.lastTxMs) :
    (∀t∈d'.linkDeadlines,nowMs≤t) ↔ ¬d.StuckQueue nowMs := by
  rw [up_overdue_iff hlink hdis hup hlost]
  by_cases hf : ∃id∈channelIds,d.Fires nowMs id
  · refine iff_of_true (Int.le_trans (hfired hf) (Int.le_add_of_nonneg_right (by decide))) ?_
    intro hst
    obtain ⟨id,-,hfire⟩ := hf
    obtain ⟨m,hget,hsilent⟩ := (Daemon.fires_iff h id).mp hfire
    exact absurd ((hst.2.2.2.2.2 id m hget).symm.trans hsilent) Bool.false_ne_true
  have hsilent : ∀id m,d.channels id=some (.mcu m) → m.silent nowMs=false := by
    intro id m hget
    rw [← Bool.not_eq_true]
    exact fun hs => hf ⟨id,mem_channelIds id,(Daemon.fires_iff h id).mpr ⟨m,hget,hs⟩⟩
  rw [hquiet (fun id hid hfire => hf ⟨id,hid,hfire⟩)]
  constructor
  · intro hle hst
    exact absurd hle (Int.not_le.mpr hst.2.2.2.1)
  · intro hclear
    refine Int.not_lt.mp (fun hover => ?_)
    refine hclear ⟨hdis,hlost,hup,hover,fun hidle => ?_,hsilent⟩
    obtain ⟨hempty,hpos⟩ := hidle
    -- A link that is idle would have been sent a PING.
    have hdue : kaIntervalMs≤nowMs-d.lastTxMs := by
      unfold Millis at *
      omega
    have hpings : d.pings nowMs=true := by simp [Daemon.pings,hdis,hlost,hup,hempty,hpos,hdue]
    exact absurd (hping.symm.trans hpings) Bool.false_ne_true

/-- The timers of the link after the loop head. -/
theorem link_overdue_iff (h : d.Timed crc specs) (hclock : nowMs≤clock) {d₁ : Daemon}
    (hd₁ : LinkHead d nowMs clock d₁) (hlink : d'.link=d₁.link)
    (htx : d₁.disconnected=false → ((∀id∈channelIds,¬d₁.Fires nowMs id) → d'.lastTxMs=d₁.lastTxMs) ∧
      ((∃id∈channelIds,d₁.Fires nowMs id) → nowMs≤d'.lastTxMs)) :
    (∀t∈d'.linkDeadlines,nowMs≤t) ↔ ¬d.StuckQueue nowMs := by
  cases hd₁ with
  | opened hdis hc hdis₁ hup₁ =>
    refine iff_of_true ?_ (fun hst => nomatch hdis.symm.trans hst.1)
    exact down_not_overdue hlink (fun hd => nomatch hdis₁.symm.trans hd) (fun _ => hup₁)
  | waits hdis hc hdis₁ hdue =>
    refine iff_of_true ?_ (fun hst => nomatch hdis.symm.trans hst.1)
    exact down_not_overdue hlink (fun _ => hdue) (fun hd => nomatch hdis₁.symm.trans hd)
  | closed hdis hlost =>
    have hdis₁ := closeLink_disconnected d clock
    have hdue : nowMs≤(closeLink d clock).reopenAtMs := by
      rw [closeLink_reopenAt hdis]
      exact Int.le_trans hclock (Int.le_add_of_nonneg_right h.delay)
    refine iff_of_true ?_ (fun hst => nomatch hlost.symm.trans hst.2.1)
    exact down_not_overdue hlink (fun _ => hdue) (fun hd => nomatch hdis₁.symm.trans hd)
  | pinged hdis hlost hping hc hl htx₁ =>
    have hdis₁ : d₁.disconnected=false := (Daemon.disconnected_of_link hl).trans hdis
    simp only [Daemon.pings,Bool.and_eq_true,decide_eq_true_eq] at hping
    obtain ⟨⟨⟨⟨-,hup⟩,hempty⟩,hpos⟩,-⟩ := hping
    have hlate : nowMs≤d'.lastTxMs := by
      by_cases hf : ∃id∈channelIds,d₁.Fires nowMs id
      · exact (htx hdis₁).2 hf
      · rw [(htx hdis₁).1 (fun id hid hfire => hf ⟨id,hid,hfire⟩),htx₁]
        exact hclock
    refine iff_of_true ?_ (fun hst => hst.2.2.2.2.1 ⟨hempty,hpos⟩)
    rw [up_overdue_iff (hlink.trans hl) hdis hup hlost]
    exact Int.le_trans hlate (Int.le_add_of_nonneg_right (by decide))
  | kept hdis hlost hping =>
    by_cases hup : d.linkUp=true
    · exact kept_overdue_iff h hlink hdis hlost hping hup (htx hdis).1 (htx hdis).2
    · refine iff_of_true ?_ (fun hst => hup hst.2.2.1)
      exact down_not_overdue hlink (fun hd => nomatch hdis.symm.trans hd) (fun _ => by simpa using hup)

/-- In every state that is reached: the loop head leaves no deadline behind if and only if neither a
queue that is stuck nor an MCU that is silent without a link is there. -/
theorem head_overdue_iff (crc : List UInt8 → UInt32) (specs : UInt8 → Option Spec)
    (ios₀ : UInt8 → Io) (start : Millis) (dev₀ : Option RawFd) (steps : List LoopStep)
    {nowMs clock : Millis} (hclock : nowMs≤clock) (dev : Option RawFd) {ios : UInt8 → Io}
    (hios : ∀id,nowMs≤(ios id).clock) :
    ∃d d',daemonRun crc specs ios₀ start dev₀ steps=some d ∧
      loopHead crc d nowMs clock dev ios=some d' ∧
      ((∀t∈d'.deadlines,nowMs≤t) ↔ ¬d.StuckQueue nowMs ∧ ¬d.StuckMcu nowMs) := by
  obtain ⟨d,hd,h⟩ := Daemon.Timed.run crc specs ios₀ start dev₀ steps
  obtain ⟨d',hd',h'⟩ := Daemon.Timed.kept.loopHead h nowMs clock dev ios
  refine ⟨d,d',hd,hd',?_⟩
  obtain ⟨d₀,hopen,hrest⟩ := Option.bind_eq_some_iff.mp hd'
  obtain ⟨d₁,hkeep,htick⟩ := Option.bind_eq_some_iff.mp hrest
  have hhead : LinkHead d nowMs clock d₁ :=
    linkHead h hclock dev d₁ (Option.bind_eq_some_iff.mpr ⟨d₀,hopen,hkeep⟩)
  have hloops := tick_loops d₁ nowMs ios d' htick
  have hlink := link_overdue_iff h hclock hhead hloops.link
    (fun hdis => tick_lastTx hios channelIds_nodup hdis d' htick)
  have hchannels := channels_overdue_iff h h'.sound hhead hios hloops
  rw [← hlink,← hchannels,Daemon.deadlines]
  exact List.forall_mem_append

/-- A link that comes up and is idle when its PING falls due, beside a UART that cannot be opened. -/
theorem head_overdue_iff_idle :
    ∃d d',daemonRun crc32 (fun id => if id=1 then some .mcu else none) (fun _ => .idle) 1 (some 3)
        [.event .link true true .idle
          ⟨2,.data (buildFrame crc32 fAck 0 []) ack_fits,fun _ => .idle,.wrote 65536⟩]=some d ∧
      loopHead crc32 d 3001 3002 none (fun _ => {Io.idle with clock := 3002})=some d' ∧
      ((∀t∈d'.deadlines,3001≤t) ↔ ¬d.StuckQueue 3001 ∧ ¬d.StuckMcu 3001) :=
  head_overdue_iff crc32 _ _ 1 (some 3) _ (by decide) none (fun _ => by decide)

/-- A loop head that finds nothing to do but a queue that is stuck. -/
theorem loopHead_stuck (h : d.StuckQueue nowMs)
    (hopen : ∀id m,d.channels id=some (.mcu m) → m.fd=none → nowMs < m.reopenAtMs) (dev : Option RawFd)
    (ios : UInt8 → Io) : loopHead crc d nowMs clock dev ios=some d := by
  obtain ⟨hdis,hlost,-,-,hbusy,hquiet⟩ := h
  have hpings : d.pings nowMs=false := by
    rw [← Bool.not_eq_true]
    intro hp
    simp only [Daemon.pings,Bool.and_eq_true,decide_eq_true_eq] at hp
    exact hbusy ⟨hp.1.1.2,hp.1.2⟩
  have htick (id : UInt8) : chTick crc d id nowMs (ios id)=some d := by
    unfold chTick
    split
    · next m hget =>
      rw [if_neg (fun hd => Int.not_le.mpr (hopen id m hget hd.1) hd.2),if_neg]
      intro hs
      exact absurd ((hquiet id m hget).symm.trans ((m.silent_iff nowMs).mpr hs)) Bool.false_ne_true
    · rfl
  have hkeep : tickKeepalive crc d nowMs clock=some d := by
    rw [tickKeepalive_eq,if_neg (by simp [hdis]),if_neg (by simp [hlost]),if_neg (by simp [hpings])]
  have hnot : ¬(d.disconnected=true ∧ d.reopenAtMs≤nowMs) := fun hd =>
    absurd (hdis.symm.trans hd.1) Bool.false_ne_true
  refine Option.bind_eq_some_iff.mpr ⟨d,if_neg hnot,Option.bind_eq_some_iff.mpr ⟨d,hkeep,?_⟩⟩
  unfold Daemon.eachChannel
  generalize (List.range 256).map UInt8.ofNat=ids
  induction ids with
  | nil => rfl
  | cons id ids ih =>
    have hsame : (if (d.channels id).isSome then chTick crc d id nowMs (ios id) else some d)=some d := by
      rw [htick,ite_self]
    rw [List.foldlM_cons]
    exact Option.bind_eq_some_iff.mpr ⟨d,hsame,ih⟩

/-- The peer says hello while the link takes nothing, so the HELLO and the ACK wait. After 5 s the
loop does not wait, and nothing changes until the link is given up at 12 s. -/
theorem head_spins_on_full_link : ∃d,
    daemonRun crc32 (fun _ => none) (fun _ => .idle) 1000 (some 3)
      [.event .link true true .idle
        ⟨2000,.data (buildFrame crc32 fHello 0 []) (by decide +kernel),
          fun _ => {Io.idle with clock := 2000},.again⟩]=some d ∧
    ∀nowMs clock : Millis,5000<nowMs → nowMs≤12000 →
      loopHead crc32 d nowMs clock none (fun _ => .idle)=some d ∧
      (¬∀t∈d.deadlines,nowMs≤t) ∧ nextTimeoutMs d nowMs=0 := by
  have heval : (daemonRun crc32 (fun _ => none) (fun _ => .idle) 1000 (some 3)
      [.event .link true true .idle
        ⟨2000,.data (buildFrame crc32 fHello 0 []) (by decide +kernel),
          fun _ => {Io.idle with clock := 2000},.again⟩]).any
      (fun d => !d.disconnected && d.linkUp && d.lastTxMs==2000 && d.lastRxMs==2000 &&
        !txqEmpty d.txq && channelIds.all (fun id => (d.channels id).isNone))=true := by
    decide +kernel
  obtain ⟨d,hd,hstate⟩ := (Option.any_eq_true _ _).mp heval
  simp only [Bool.and_eq_true,beq_iff_eq,Bool.not_eq_true',List.all_eq_true,Option.isNone_iff_eq_none]
    at hstate
  obtain ⟨⟨⟨⟨⟨hdis,hup⟩,htx⟩,hrx⟩,hbusy⟩,hnone⟩ := hstate
  have hno {id : UInt8} {ch : ChannelT} (hget : d.channels id=some ch) : False :=
    absurd ((hnone id (mem_channelIds id)).symm.trans hget) (by simp)
  refine ⟨d,hd,fun nowMs clock hlate hsoon => ?_⟩
  have hlost : d.lost nowMs=false := by
    have hle : ¬kaTimeoutMs<nowMs-d.lastRxMs := by
      rw [hrx]
      unfold kaTimeoutMs Millis at *
      omega
    simp [Daemon.lost,hle]
  have hover : d.lastTxMs+kaIntervalMs<nowMs := by
    rw [htx]
    exact hlate
  have hfull : ¬(txqEmpty d.txq=true ∧ 0<d.lastTxMs) := fun h =>
    absurd (hbusy.symm.trans h.1) Bool.false_ne_true
  have hstuck : d.StuckQueue nowMs :=
    ⟨hdis,hlost,hup,hover,hfull,fun id m hget => (hno hget).elim⟩
  have hmem : d.lastTxMs+kaIntervalMs∈d.deadlines := by
    rw [Daemon.deadlines,linkDeadlines_of_up hdis hup]
    exact List.mem_cons_self
  refine ⟨loopHead_stuck hstuck (fun id m hget => (hno hget).elim) none _,
    fun hall => absurd (hall _ hmem) (Int.not_le.mpr hover),?_⟩
  exact nextTimeoutMs_overdue hmem (Int.le_of_lt hover)

end Head

end Serialmux.Reference

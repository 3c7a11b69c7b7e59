import Serialmux.EventLoop.Silence

namespace Serialmux.Channel.McuChannel

/-- A UART that has just been opened, or not, waits for no moment that has passed: its MCU is not
seen to run. -/
theorem openUart_deadline {c : McuChannel} (hs : c.state≠.active) {io : Io} {now t : Instant}
    (hclock : now ≤ io.now) (ht : (c.openUart io).nextDeadline=some t) : now≤t := by
  unfold openUart at ht
  split at ht
  · next fd hfd =>
    have hnone : (updateInterest {c with fd := some fd, watch := .fresh}).nextDeadline=none := by
      simp [updateInterest,nextDeadline,hs]
    rw [hnone] at ht
    cases ht
  · unfold nextDeadline at ht
    split_ifs at ht with hfd
    · obtain rfl := Option.some.inj ht
      exact hclock.trans (Nat.le_add_right _ _)

/-- After its tick no timer of a channel is overdue. -/
theorem tick_deadline {c : McuChannel} (hc : c.fd=none → c.state≠.active) {io : Io}
    {now t : Instant} (hclock : now ≤ io.now) (ht : (c.tick now io).1.nextDeadline=some t) :
    now≤t := by
  unfold tick at ht
  split at ht
  · next hfd =>
    split at ht
    · next hr =>
      rw [nextDeadline,if_pos hfd,hr] at ht
      cases ht
    · next due hr =>
      split_ifs at ht with hdue
      · exact openUart_deadline (c := {c with reopenAt := none}) (hc hfd) hclock ht
      · rw [nextDeadline,if_pos hfd,hr] at ht
        obtain rfl := Option.some.inj ht
        exact (Nat.lt_of_not_le hdue).le
  · next fd hfd =>
    have hne : c.fd≠none := by simp [hfd]
    split at ht
    · next last hs hl =>
      split_ifs at ht with hlate
      · -- A reset has been declared: nothing is waited for.
        have hnone : (c.transition .resetting).1.nextDeadline=none := by
          simp [transition,hs,nextDeadline,hfd]
        rw [hnone] at ht
        cases ht
      · rw [nextDeadline,if_neg hne,if_pos hs,hl] at ht
        obtain rfl := Option.some.inj ht
        change now≤last+resetSilence
        unfold Instant at *
        omega
    · next hn =>
      rw [nextDeadline,if_neg hne] at ht
      split_ifs at ht with hs
      obtain ⟨last,hl,-⟩ := Option.map_eq_some_iff.mp ht
      exact absurd hl (hn last hs)

end Serialmux.Channel.McuChannel

namespace Serialmux.EventLoop

open Framework Protocol Channel

namespace Daemon

/-- The deadlines that `next_timeout` looks at. -/
def deadlines {Q : Type} (d : Daemon Q) : List Instant :=
  (if d.disconnected then [d.reopenAt]
    else if d.linkUp then
      (d.lastTx.map (·+kaInterval)).toList++(d.lastRx.map (·+kaTimeout)).toList
    else [])++
  d.channels.keys.filterMap (fun id => (d.channels.get id).bind DynChannel.nextDeadline)

/-- The loop blocks until the first of them, a tick at most. -/
theorem nextTimeout_eq {Q : Type} (d : Daemon Q) (now : Instant) :
    d.nextTimeout now=d.deadlines.foldl min (now+maxTick)-now := rfl

/-- A link that is not given up has a device. -/
def Held {Q : Type} (d : Daemon Q) : Prop := d.disconnected=false → d.linkFd≠none

namespace Held

variable {Q W : Type} (lq : LinkQueue Q W)

theorem kept : Kept lq (fun _ _ => True) Held where
  core := by
    intro d d' h _ _ _ hd hfd _
    unfold Held
    rw [hd,hfd]
    exact h
  call _ h := h
  pause _ := trivial
  resume _ := trivial

variable {d : Daemon Q}

theorem of_link {d' : Daemon Q} (h : Held d) (hl : d'.link=d.link) : Held d' := by
  obtain ⟨hfd,hd,-⟩ : d'.linkFd=d.linkFd ∧ d'.disconnected=d.disconnected ∧ d'.lastRx=d.lastRx := by
    simpa [link] using hl
  unfold Held
  rw [hd,hfd]
  exact h

theorem openLink (now : Instant) (dev : Option RawFd) (h : Held d) :
    Held (openLink lq d now dev) := by
  cases dev with
  | none => exact h
  | some fd => exact fun _ => nofun

theorem closeLink (now : Instant) (h : Held d) : Held (closeLink lq d now) := by
  cases hd : d.disconnected with
  | true =>
    rw [Daemon.closeLink,if_pos hd]
    exact h
  | false =>
    have hdis := (closeLink_get lq hd now).2.1
    intro hc
    rw [hdis] at hc
    cases hc

theorem loop (h : Held d) (op : LoopOp W) : Held (loop lq d op) := by
  have k := kept lq
  cases op with
  | receive now io f =>
    change Held (receive lq d now io f)
    unfold receive
    split_ifs
    · exact h
    · have hrx : Held {d with lastRx := some now} := h
      exact hrx.of_link (dispatchFrame_link lq _ now io f)
  | turn op =>
    cases op with
    | start now dev =>
      change Held (if d.disconnected then Daemon.openLink lq d now dev else d)
      split_ifs
      · exact h.openLink lq now dev
      · exact h
    | head now later dev ios =>
      refine k.loopHead (fun _ => trivial) h (fun _ => h.openLink lq later dev)
        (fun _ h => h.closeLink lq later) (fun d h => h.of_link (enqueueFrame_link lq d later _))
    | event now token readable writable io => exact k.channelEvent now (fun _ => trivial) h
    | send now w =>
      have hdrain : Held {d with txq := (lq.drain d.txq w).1} := h
      exact k.linkWrite (fun _ => h) hdrain (hdrain.closeLink lq now)
    | readError now =>
      change Held (if d.linkFd=none then d else Daemon.closeLink lq d now)
      split_ifs
      · exact h
      · exact h.closeLink lq now
    | restart now ios => exact nofun

theorem step (crc : List UInt8 → UInt32) (h : Held d) (op : RunOp W) :
    Held (step lq crc d op).1 := by
  cases op with
  | loop op => exact h.loop lq op
  | link now readable writable r ios w =>
    exact linkEvent_induct lq crc (fun d now io f h => h.loop lq (.receive now io f))
      (fun d now w h => h.loop lq (.turn (.send now w)))
      (fun d now h => h.closeLink lq now) (fun d p t h => h) h now readable writable r ios w

end Held

section Head

variable (crc : List UInt8 → UInt32) {d : Daemon TxQueue} {now later : Instant}

/-- What the keepalive timer leaves of the deadlines of the link, with the queue it leaves. -/
structure Fresh (now : Instant) (d : Daemon TxQueue) : Prop where
  reopen : d.disconnected=true → now≤d.reopenAt
  rx : d.disconnected=false → ∀t∈d.lastRx,now≤t+kaTimeout
  tx : d.disconnected=false → d.linkUp=true → d.txq.isEmpty=true → ∀t∈d.lastTx,now≤t+kaInterval

theorem reopenIfDue_fresh (hlater : now≤later) (dev : Option RawFd) :
    (reopenIfDue (txLink crc) d now later dev).disconnected=true →
      now≤(reopenIfDue (txLink crc) d now later dev).reopenAt := by
  unfold reopenIfDue
  split_ifs with hdue
  · cases dev with
    | none => exact fun _ => hlater.trans (Nat.le_add_right _ _)
    | some fd => exact nofun
  · intro hd
    exact (Nat.lt_of_not_le (fun hle => hdue ⟨hd,hle⟩)).le

theorem rx_of_not_timeout (h : ¬d.lastRx.any (fun last => kaTimeout<now-last)=true) :
    ∀t∈d.lastRx,now≤t+kaTimeout := by
  intro t ht
  rw [Option.mem_def.mp ht] at h
  have hle : ¬kaTimeout<now-t := by simpa using h
  unfold Instant at *
  omega

theorem tickKeepalive_fresh (hlater : now≤later) (hheld : d.Held)
    (hreopen : d.disconnected=true → now≤d.reopenAt) :
    Fresh now (tickKeepalive (txLink crc) d now later) := by
  unfold tickKeepalive
  split_ifs with hdis htimeout hping
  · have hf : ∀{p : Prop},d.disconnected=false → p := fun h => absurd (hdis.symm.trans h) (by simp)
    exact ⟨hreopen,hf,hf⟩
  · have hd : d.disconnected=false := by simpa using hdis
    have hclosed := (closeLink_get (txLink crc) hd later).2.1
    have hf : ∀{p : Prop},(closeLink (txLink crc) d later).disconnected=false → p :=
      fun h => absurd (hclosed.symm.trans h) (by simp)
    refine ⟨fun _ => ?_,hf,hf⟩
    rw [closeLink,if_neg hdis]
    exact hlater.trans (Nat.le_add_right _ _)
  · have hd : d.disconnected=false := by simpa using hdis
    obtain ⟨b,hb⟩ := setLinkWriteInterest_eq {d with
      txq := (txLink crc).enqueue d.txq (controlFrame fPing), lastTx := some later} true
    have hsent : enqueueFrame (txLink crc) d later (controlFrame fPing)={d with
        txq := (txLink crc).enqueue d.txq (controlFrame fPing), lastTx := some later
        wantWrite := b} := by
      rw [enqueueFrame,if_neg (by simp [hd,hheld hd]),hb]
    rw [hsent]
    refine ⟨hreopen,fun _ => rx_of_not_timeout htimeout,fun _ _ _ t ht => ?_⟩
    obtain rfl : later=t := by simpa using ht
    exact hlater.trans (Nat.le_add_right _ _)
  · refine ⟨hreopen,fun _ => rx_of_not_timeout htimeout,fun _ hup hq t ht => ?_⟩
    -- The queue is empty and no PING was due.
    have hidle : ¬kaInterval≤now-t := by
      intro hi
      exact hping ⟨hup,by rw [Option.mem_def.mp ht]; exact decide_eq_true hi,hq⟩
    unfold Instant at *
    omega

theorem empty_of_sendAll {q : TxQueue} {fs : List Frame}
    (h : (sendAll (txLink crc) q fs).isEmpty=true) : q.isEmpty=true := by
  have hle := sendAll_used_le crc q fs
  rw [TxQueue.isEmpty_iff,← List.length_eq_zero_iff,TxQueue.contents_length] at h ⊢
  omega

theorem loopHead_fresh (hlater : now≤later) (hheld : d.Held) (dev : Option RawFd)
    (ios : UInt8 → Io) : ∃d₂,Fresh now d₂ ∧
      (loopHead (txLink crc) d now later dev ios).disconnected=d₂.disconnected ∧
      (loopHead (txLink crc) d now later dev ios).reopenAt=d₂.reopenAt ∧
      (loopHead (txLink crc) d now later dev ios).linkUp=d₂.linkUp ∧
      (loopHead (txLink crc) d now later dev ios).lastRx=d₂.lastRx ∧
      ((loopHead (txLink crc) d now later dev ios).lastTx=some later ∨
        d₂.txq.isEmpty=true ∧ (loopHead (txLink crc) d now later dev ios).lastTx=d₂.lastTx) := by
  have hheld₁ : (reopenIfDue (txLink crc) d now later dev).Held := by
    unfold reopenIfDue
    split_ifs
    · exact hheld.openLink _ later dev
    · exact hheld
  refine ⟨_,tickKeepalive_fresh crc hlater hheld₁ (reopenIfDue_fresh crc hlater dev),?_⟩
  unfold loopHead
  generalize tickKeepalive (txLink crc) (reopenIfDue (txLink crc) d now later dev) now later=d₂
  obtain ⟨m,hm,-,-⟩ := eachChannel_eq (txLink crc) d₂ (fun id => ⟨.tick now,ios id⟩)
  rw [hm]
  unfold armIfQueued
  split_ifs with hempty
  · -- The ticks only add to the queue.
    exact ⟨rfl,rfl,rfl,rfl,.inr ⟨empty_of_sendAll crc hempty,rfl⟩⟩
  · obtain ⟨b,hb⟩ := setLinkWriteInterest_eq {d₂ with
      channels := m
      txq := sendAll (txLink crc) d₂.txq
        (d₂.channels.keys.flatMap (fun id => d₂.channels.frames id ⟨.tick now,ios id⟩))
      lastTx := some later} true
    rw [hb]
    exact ⟨rfl,rfl,rfl,rfl,.inl rfl⟩

/-- A channel that is an MCU after the head was one before. -/
theorem loopHead_mcu (d : Daemon TxQueue) (now later : Instant) (dev : Option RawFd)
    (ios : UInt8 → Io) {id : UInt8} {c' : McuChannel}
    (h : (loopHead (txLink crc) d now later dev ios).channels.get id=some (.mcu c')) :
    ∃c,d.channels.get id=some (.mcu c) := by
  refine loopHead_channels (txLink crc)
    (P := fun m => ∀c',m.get id=some (.mcu c') → ∃c,d.channels.get id=some (.mcu c)) ?_ now later dev
    ios (fun c' hc' => ⟨c',hc'⟩) c' h
  intro m j call _ hm c' hc'
  rcases ChannelMap.set_get_mcu hc' with ⟨-,c,hc,-⟩|⟨-,hc⟩
  · exact hm c hc
  · exact hm c' hc

/-- In every state that a run of the process leads to, whatever the devices do: once the head of the
loop has run, none of the deadlines it is going to wait for has passed. -/
theorem head_leaves_no_overdue (m : ChannelMap) (ios₀ : UInt8 → Io) (start : Instant)
    (ops : List (RunOp WriteResult)) (hlater : now≤later) (dev : Option RawFd) (ios : UInt8 → Io)
    (hclock : ∀id,now≤(ios id).now) :
    ∀t∈(loopHead (txLink crc)
      (after (step (txLink crc) crc) (new (txLink crc) (m.fresh ios₀) start) ops)
      now later dev ios).deadlines,now≤t := by
  have hheld : (after (step (txLink crc) crc) (new (txLink crc) (m.fresh ios₀) start) ops).Held :=
    after_of_step _ (fun d op h => h.step (txLink crc) crc op) nofun ops
  have hsound : UartsSound
      (after (step (txLink crc) crc) (new (txLink crc) (m.fresh ios₀) start) ops).channels :=
    after_of_step (P := fun d : Daemon TxQueue => UartsSound d.channels) _
      (fun d op h => Listening.turn_sound h op) (fresh_uartsSound m ios₀) ops
  generalize after (step (txLink crc) crc) (new (txLink crc) (m.fresh ios₀) start) ops=d
    at hheld hsound ⊢
  intro t ht
  rcases List.mem_append.mp ht with ht|ht
  · obtain ⟨d₂,hfresh,hdis,hreopen,hup,hrx,htx⟩ := loopHead_fresh crc hlater hheld dev ios
    rw [hdis,hreopen,hup,hrx] at ht
    split_ifs at ht with hd hu
    · obtain rfl := List.mem_singleton.mp ht
      exact hfresh.reopen hd
    · have hd' : d₂.disconnected=false := by simpa using hd
      rcases List.mem_append.mp ht with ht|ht
      · rw [Option.mem_toList] at ht
        obtain ⟨last,hlast,rfl⟩ := Option.map_eq_some_iff.mp ht
        rcases htx with hl|⟨hq,hl⟩
        · rw [hl] at hlast
          obtain rfl := Option.some.inj hlast
          exact hlater.trans (Nat.le_add_right _ _)
        · exact hfresh.tx hd' hu hq last (hl ▸ hlast)
      · rw [Option.mem_toList] at ht
        obtain ⟨last,hlast,rfl⟩ := Option.map_eq_some_iff.mp ht
        exact hfresh.rx hd' last hlast
    · cases ht
  · obtain ⟨id,-,hid⟩ := List.mem_filterMap.mp ht
    obtain ⟨ch,hget,hch⟩ := Option.bind_eq_some_iff.mp hid
    have hsilent (hnone : none=some t) : now≤t := nomatch hnone
    cases ch with
    | mcu c' =>
      obtain ⟨c,hc⟩ := loopHead_mcu crc d now later dev ios hget
      obtain ⟨c₁,⟨hs,hl,hf⟩,hticked⟩ := Listening.head_ticks crc d now later dev ios hc
      have hdue : c'.nextDeadline=some t := hch
      have hc' : c'=(c₁.tick now (ios id)).1 :=
        DynChannel.mcu.inj (Option.some.inj (hget.symm.trans hticked))
      rw [hc'] at hdue
      refine McuChannel.tick_deadline ?_ (hclock id) hdue
      intro hfd
      rw [hs]
      exact ((hsound id c hc).closed (hf.symm.trans hfd)).1
    | pty p => exact hsilent hch
    | tcpSource s => exact hsilent hch
    | tcpDest t => exact hsilent hch

/-- A link that is up and idle. -/
def idleLink : Daemon TxQueue :=
  after (step (txLink crc32) crc32)
    (new (txLink crc32) ((ChannelMap.single (.mcu (.new 1 Io.idle))).fresh (fun _ => Io.idle)) 0)
    [.loop (.turn (.start 0 (some 3))),.loop (.receive 0 Io.idle (controlFrame fHello)),
      .loop (.turn (.send 0 (.wrote 65536)))]

/-- Its PING falls due, and so does a UART that cannot be opened. -/
theorem head_leaves_no_overdue_idle :
    idleLink.linkUp=true ∧
      ∀t∈(loopHead (txLink crc32) idleLink (secs 3) (secs 3) none
        (fun _ => {Io.idle with now := secs 3})).deadlines,secs 3≤t :=
  ⟨by decide +kernel,head_leaves_no_overdue crc32 _ _ 0 _ le_rfl none _ (fun _ => le_rfl)⟩

end Head

end Daemon

end Serialmux.EventLoop

import Serialmux.Framework.Machine
import Serialmux.EventLoop.Fifo

namespace Serialmux.EventLoop

open Framework Protocol Channel

namespace LoopOp

/-- When an operation reads the clock first and last; only the loop head reads it twice. -/
def begins {W : Type} : LoopOp W → Nat
  | .turn (.start now _) => now
  | .turn (.head now _ _ _) => now
  | .turn (.event now _ _ _ _) => now
  | .turn (.send now _) => now
  | .turn (.readError now) => now
  | .turn (.restart now _) => now
  | .receive now _ _ => now

def ends {W : Type} : LoopOp W → Nat
  | .turn (.head _ later _ _) => later
  | op => op.begins

def isHead {W : Type} : LoopOp W → Bool
  | .turn (.head _ _ _ _) => true
  | _ => false

end LoopOp

/-- A daemon with the time of its last operation, of its last loop head and of the last frame it
put on the link. -/
structure Timed where
  daemon : Daemon (List Frame)
  clock : Nat
  headAt : Nat
  putAt : Nat

namespace Daemon

/-- What a daemon has queued stays queued. -/
def Grows (d d' : Daemon (List Frame)) : Prop := d.txq <+: d'.txq

theorem grows_kept (d : Daemon (List Frame)) : Kept fifoLink (fun _ _ => True) (Grows d) where
  core h _ hq _ _ _ _ := by
    rw [Grows,hq]
    exact h
  call := by
    intro d₁ id c _ h
    rw [Grows,callChannel_txq]
    exact h.trans (List.prefix_append _ _)
  pause _ := trivial
  resume _ := trivial

theorem Grows.refl (d : Daemon (List Frame)) : Grows d d := List.prefix_refl _

theorem Grows.empty {d d' : Daemon (List Frame)} (h : Grows d d') (hq : d'.txq=[]) : d.txq=[] := by
  rw [Grows,hq] at h
  exact List.prefix_nil.mp h

theorem touch_lastTx (d : Daemon (List Frame)) (now : Instant) :
    (touch fifoLink d now).lastTx=some now := by
  obtain ⟨b,hb⟩ := setLinkWriteInterest_eq {d with lastTx := some now} (!fifoLink.isEmpty d.txq)
  rw [touch,hb]

/-- What an operation between two loop heads does to the idle time: `last_tx` stays or is set to
now, and where it is set with the queue still empty the operation was `silent`. -/
structure Refreshes (d : Daemon (List Frame)) (now : Instant) (silent : Prop)
    (d' : Daemon (List Frame)) : Prop where
  grows : Grows d d'
  lastTx : d'.lastTx=d.lastTx ∨ d'.lastTx=some now ∧ (d'.txq=[] → silent)

theorem Refreshes.same (d : Daemon (List Frame)) (now : Instant) (silent : Prop) :
    Refreshes d now silent d := ⟨Grows.refl d,.inl rfl⟩

/-- A call of a channel is silent if nothing was queued before and it queues nothing. -/
theorem silent_of_empty {d d' : Daemon (List Frame)} {id : UInt8} {c : Call}
    (h : Grows (callChannel fifoLink d id c) d') (hq : d'.txq=[]) :
    d.txq=[] ∧ d.channels.frames id c=[] := by
  have hnil := h.empty hq
  rw [callChannel_txq] at hnil
  exact List.append_eq_nil_iff.mp hnil

theorem channelEvent_refreshes (d : Daemon (List Frame)) (now : Instant) (token : Token)
    (readable writable : Bool) (io : Io) :
    Refreshes d now (d.txq=[] ∧ ∃id∈channelIdForToken token,
        d.channels.frames id ⟨.handleEvent token readable writable,io⟩=[])
      (channelEvent fifoLink d now token readable writable io) := by
  refine ⟨(grows_kept d).channelEvent now (fun _ => trivial) (Grows.refl d),?_⟩
  unfold channelEvent
  cases hid : channelIdForToken token with
  | none => exact .inl rfl
  | some id =>
    refine .inr ⟨touch_lastTx _ now,?_⟩
    intro hq
    rw [touch_txq] at hq
    have hgrows := (grows_kept (callChannel fifoLink d id ⟨.handleEvent token readable writable,io⟩)
      ).checkBpHigh (Grows.refl _)
    obtain ⟨hnil,hf⟩ := silent_of_empty hgrows hq
    exact ⟨hnil,id,rfl,hf⟩

/-- An empty queue is below the high-water mark. -/
theorem checkBpHigh_empty {d : Daemon (List Frame)} (h : d.txq=[]) :
    checkBpHigh fifoLink d=d := by
  have hused : fifoLink.used d.txq=0 := by rw [h]; rfl
  rw [checkBpHigh,hused,if_neg]
  intro ⟨_,hw⟩
  exact absurd hw (by decide)

theorem routeFrame_refreshes (d : Daemon (List Frame)) (now : Instant) (io : Io) (f : Frame) :
    Refreshes d now (d.txq=[] ∧ d.channels.frames f.channel ⟨.onFrame f.ftype f.payload,io⟩=[])
      (routeFrame fifoLink d now io f) := by
  refine ⟨(grows_kept d).routeFrame now trivial (Grows.refl d),?_⟩
  refine .inr ⟨touch_lastTx _ now,?_⟩
  unfold routeFrame
  intro hq
  rw [touch_txq] at hq
  -- The queue has not shrunk, so that backpressure was not looked at in vain.
  have hgrows : Grows d (if f.ftype=fData ∨ f.ftype=fTdata then checkBpHigh fifoLink d else d) := by
    split_ifs
    · exact (grows_kept d).checkBpHigh (Grows.refl d)
    · exact Grows.refl d
  obtain ⟨hnil,-⟩ := silent_of_empty (Grows.refl _) hq
  rw [checkBpHigh_empty (hgrows.empty hnil),ite_self] at hq
  exact silent_of_empty (Grows.refl _) hq

theorem connectChannels_refreshes {d d' : Daemon (List Frame)} (now : Instant) (silent : Prop)
    (h : Grows d d') (hne : d'.txq≠[]) : Refreshes d now silent (connectChannels fifoLink d' now) := by
  obtain ⟨m,b,hc,-,-⟩ := connectChannels_fifo d' now
  rw [hc]
  refine ⟨h.trans (List.prefix_append _ _),.inr ⟨rfl,fun hq => ?_⟩⟩
  exact absurd (List.append_eq_nil_iff.mp hq).1 hne

/-- While the link is up, only a routed frame may be answered by silence and still refresh
`last_tx`. -/
theorem dispatchFrame_refreshes {d : Daemon (List Frame)} (hup : d.linkUp=true)
    (hdis : d.disconnected=false) (hfd : d.linkFd≠none) (now : Instant) (io : Io) (f : Frame) :
    Refreshes d now (d.txq=[] ∧ isControl f.ftype=false ∧
        d.channels.frames f.channel ⟨.onFrame f.ftype f.payload,io⟩=[])
      (dispatchFrame fifoLink d now io f) := by
  have henq : ∀ftype,∃b,enqueueFrame fifoLink d now (controlFrame ftype)=
      {d with txq := d.txq++[controlFrame ftype], lastTx := some now, wantWrite := b} := by
    intro ftype
    rcases enqueueFrame_fifo d now ftype with ⟨-,h|h⟩|h
    · exact absurd h (by simp [hdis])
    · exact absurd h hfd
    · exact h
  have hne : ∀f : Frame,d.txq++[f]≠[] := fun f => List.append_ne_nil_of_right_ne_nil _ nofun
  apply dispatchFrame_induct
  · intro _
    obtain ⟨b,hb⟩ := henq fPong
    rw [hb]
    exact ⟨List.prefix_append _ _,.inr ⟨rfl,fun hq => absurd hq (hne _)⟩⟩
  · intro _
    exact Refreshes.same d now _
  · intro _
    obtain ⟨b,hb⟩ := henq fAck
    rw [hb]
    exact connectChannels_refreshes now _ (List.prefix_append _ _) (hne _)
  · intro _ _
    exact Refreshes.same d now _
  · intro _ hdown
    exact absurd (hup.symm.trans hdown) (by simp)
  · intro hf
    obtain ⟨hg,hl⟩ := routeFrame_refreshes d now io f
    exact ⟨hg,hl.imp_right (fun ⟨ht,hs⟩ => ⟨ht,fun hq => ⟨(hs hq).1,hf,(hs hq).2⟩⟩)⟩

/-- A loop head whose link is up and stays up, and which finds the queue empty: it was not idle for
long enough, or it queues something. -/
theorem loopHead_keepalive {d : Daemon (List Frame)} {now later t : Instant} {dev : Option RawFd}
    {ios : UInt8 → Io} (hup : d.linkUp=true) (hdis : d.disconnected=false) (hfd : d.linkFd≠none)
    (hq : d.txq=[]) (ht : d.lastTx=some t)
    (hstays : (loopHead fifoLink d now later dev ios).linkUp=true) :
    ((loopHead fifoLink d now later dev ios).txq=[] ∧
        (loopHead fifoLink d now later dev ios).lastTx=some t ∧ now<t+kaInterval) ∨
      ((loopHead fifoLink d now later dev ios).txq≠[] ∧
        (loopHead fifoLink d now later dev ios).lastTx=some later) := by
  have hreopen : reopenIfDue fifoLink d now later dev=d := by simp [reopenIfDue,hdis]
  -- The rest of the head, from what the keepalive timer has left.
  have hrest : ∀d₁ : Daemon (List Frame),∃d₂,armIfQueued fifoLink
      (eachChannel fifoLink d₁ (fun id => ⟨.tick now,ios id⟩)) later=d₂ ∧ Grows d₁ d₂ ∧
      d₂.linkUp=d₁.linkUp ∧ (d₂.txq=[] ∧ d₂.lastTx=d₁.lastTx ∨ d₂.txq≠[] ∧ d₂.lastTx=some later) := by
    intro d₁
    obtain ⟨m,hm,-,-⟩ := eachChannel_fifo d₁ (fun id => ⟨.tick now,ios id⟩)
    refine ⟨_,rfl,?_⟩
    rw [hm,armIfQueued]
    split_ifs with he
    · exact ⟨List.prefix_append _ _,rfl,.inl ⟨List.isEmpty_iff.mp he,rfl⟩⟩
    · obtain ⟨b,hb⟩ := setLinkWriteInterest_eq {d₁ with
        channels := m
        txq := d₁.txq++d₁.channels.keys.flatMap (fun id => d₁.channels.frames id ⟨.tick now,ios id⟩)
        lastTx := some later} true
      rw [hb]
      exact ⟨List.prefix_append _ _,rfl,.inr ⟨fun h => he (List.isEmpty_iff.mpr h),rfl⟩⟩
  unfold loopHead at hstays ⊢
  rw [hreopen] at hstays ⊢
  obtain ⟨d₂,hd₂,hgrows,hlink,hlast⟩ := hrest (tickKeepalive fifoLink d now later)
  rw [hd₂] at hstays ⊢
  unfold tickKeepalive at hgrows hlink hlast
  simp only [hdis,Bool.false_eq_true,if_false] at hgrows hlink hlast
  split_ifs at hgrows hlink hlast with htimeout hping
  · have hdown := (closeLink_get fifoLink hdis later).1
    rw [hdown] at hlink
    exact absurd (hstays.symm.trans hlink) (by simp)
  · rcases enqueueFrame_fifo d later fPing with ⟨-,h|h⟩|⟨b,h⟩
    · exact absurd h (by simp [hdis])
    · exact absurd h hfd
    · rw [h] at hgrows
      have hne : d₂.txq≠[] := by
        intro hnil
        exact absurd (hgrows.empty hnil) (List.append_ne_nil_of_right_ne_nil _ nofun)
      exact .inr ⟨hne,(hlast.resolve_left (fun h => hne h.1)).2⟩
  · rcases hlast with ⟨hnil,hl⟩|h
    · refine .inl ⟨hnil,hl.trans ht,?_⟩
      have hidle : ¬kaInterval≤now-t := by
        intro hi
        refine hping ⟨hup,?_,?_⟩
        · rw [ht]
          exact decide_eq_true hi
        · rw [hq]
          rfl
      unfold Instant at *
      omega
    · exact .inr h

/-- A write leaves `last_tx` alone. -/
theorem linkWrite_lastTx (d : Daemon (List Frame)) (now : Instant) (w : Option Nat) :
    (linkWrite fifoLink d now w).lastTx=d.lastTx := by
  have heach : ∀(d : Daemon (List Frame)) (c : UInt8 → Call),
      (eachChannel fifoLink d c).lastTx=d.lastTx := by
    intro d c
    obtain ⟨m,hm,-,-⟩ := eachChannel_fifo d c
    rw [hm]
  unfold linkWrite disarmIfEmpty resumeIfLow closeLink resumeAll scheduleReopen
    setLinkWriteInterest
  dsimp only
  split_ifs <;> simp only [heach]

/-- A write that leaves the link up only takes from the front of the queue. -/
theorem linkWrite_grows {d : Daemon (List Frame)} {now : Instant} {w : Option Nat}
    (hdis : d.disconnected=false) (hstays : (linkWrite fifoLink d now w).linkUp=true)
    (hsame : (fifoLink.drain d.txq w).1=d.txq) : Grows d (linkWrite fifoLink d now w) := by
  unfold linkWrite at hstays ⊢
  dsimp only at hstays ⊢
  rw [hsame] at hstays ⊢
  split_ifs at hstays ⊢
  · exact Grows.refl d
  · have hdown := (closeLink_get fifoLink hdis now).1
    exact absurd (hstays.symm.trans hdown) (by simp)
  · exact (grows_kept d).disarmIfEmpty ((grows_kept d).resumeIfLow (Grows.refl d))

end Daemon

namespace Timed

def headOf (s : Timed) : LoopOp (Option Nat) → Nat
  | .turn (.head now _ _ _) => now
  | _ => s.headAt

def putsOf (s : Timed) : LoopOp (Option Nat) → List Frame
  | .turn op => s.daemon.puts op
  | .receive _ _ _ => []

def step (s : Timed) (op : LoopOp (Option Nat)) : Timed × Unit :=
  (⟨s.daemon.loop fifoLink op,op.ends,s.headOf op,if s.putsOf op=[] then s.putAt else op.begins⟩,())

/-- The link is up. -/
structure Up (d : Daemon (List Frame)) : Prop where
  up : d.linkUp=true
  connected : d.disconnected=false
  fd : d.linkFd≠none

instance (d : Daemon (List Frame)) : Decidable (Up d) :=
  decidable_of_iff (d.linkUp=true ∧ d.disconnected=false ∧ d.linkFd≠none)
    ⟨fun ⟨h₁,h₂,h₃⟩ => ⟨h₁,h₂,h₃⟩,fun ⟨h₁,h₂,h₃⟩ => ⟨h₁,h₂,h₃⟩⟩

/-- The pace of a healthy loop: the clock does not run backwards, a loop head comes at least once in
a tick and finds the queue drained, and the link stays up. -/
structure Paced (s : Timed) (op : LoopOp (Option Nat)) : Prop where
  monotone : s.clock≤op.begins ∧ op.begins≤op.ends
  ticks : op.begins ≤ s.headAt+maxTick ∧ op.ends ≤ s.headOf op+maxTick
  drained : op.isHead=true → s.daemon.txq=[]
  stays : Up (s.daemon.loop fifoLink op)

instance (s : Timed) (op : LoopOp (Option Nat)) : Decidable (Paced s op) :=
  decidable_of_iff ((s.clock≤op.begins ∧ op.begins≤op.ends) ∧
      (op.begins ≤ s.headAt+maxTick ∧ op.ends ≤ s.headOf op+maxTick) ∧
      (op.isHead=true → s.daemon.txq=[]) ∧ Up (s.daemon.loop fifoLink op))
    ⟨fun ⟨h₁,h₂,h₃,h₄⟩ => ⟨h₁,h₂,h₃,h₄⟩,fun ⟨h₁,h₂,h₃,h₄⟩ => ⟨h₁,h₂,h₃,h₄⟩⟩

/-- How long after a frame `last_tx` may be refreshed without another one. -/
abbrev grace : Nat := kaTimeout-kaInterval-2*maxTick

/-- `last_tx` is not refreshed for nothing, more than a grace period after the last frame: by a
routed frame or a channel event that finds the queue empty and makes its channel send nothing. -/
def NoLateRefresh (s : Timed) : LoopOp (Option Nat) → Prop
  | .turn (.event now token readable writable io) =>
    s.daemon.txq=[] → ∀id∈channelIdForToken token,
      s.daemon.channels.frames id ⟨.handleEvent token readable writable,io⟩=[] →
      now < s.putAt+grace
  | .receive now io f =>
    s.daemon.txq=[] → isControl f.ftype=false →
      s.daemon.channels.frames f.channel ⟨.onFrame f.ftype f.payload,io⟩=[] → now < s.putAt+grace
  | _ => True

instance (s : Timed) : ∀op,Decidable (NoLateRefresh s op)
  | .turn (.event now token readable writable io) => inferInstanceAs (Decidable
      (s.daemon.txq=[] → ∀id∈channelIdForToken token,
        s.daemon.channels.frames id ⟨.handleEvent token readable writable,io⟩=[] →
        now < s.putAt+grace))
  | .receive now io f => inferInstanceAs (Decidable
      (s.daemon.txq=[] → isControl f.ftype=false →
        s.daemon.channels.frames f.channel ⟨.onFrame f.ftype f.payload,io⟩=[] →
        now < s.putAt+grace))
  | .turn (.start _ _) => inferInstanceAs (Decidable True)
  | .turn (.head _ _ _ _) => inferInstanceAs (Decidable True)
  | .turn (.send _ _) => inferInstanceAs (Decidable True)
  | .turn (.readError _) => inferInstanceAs (Decidable True)
  | .turn (.restart _ _) => inferInstanceAs (Decidable True)

/-- When the operation ends, the last frame is not yet a timeout ago, and a peer that received it
then still keeps the link. -/
def Covered (s : Timed) (op : LoopOp (Option Nat)) : Prop :=
  op.ends < s.putAt+kaTimeout ∧
    ∀(peer : Daemon (List Frame)) (later : Instant),peer.lastRx=some s.putAt →
      peer.disconnected=false →
      (Daemon.tickKeepalive fifoLink peer op.ends later).disconnected=false

/-- The invariant: the idle time that the daemon sees started at most a grace period after the last
frame, and the last loop head has not found it too long. -/
structure Inv (s : Timed) : Prop where
  up : Up s.daemon
  lastTx : ∃t : Nat,s.daemon.lastTx=some t ∧ t ≤ s.clock ∧
    (s.daemon.txq=[] → t < s.putAt+grace ∧ s.headAt < s.putAt+grace+kaInterval)
  head : s.headAt ≤ s.clock
  recent : s.headAt < s.putAt+grace+kaInterval+maxTick
  put : s.putAt ≤ s.clock

/-- A frame has just been put on a link that is up. -/
structure Started (s : Timed) : Prop where
  up : Up s.daemon
  lastTx : ∃t : Nat,s.daemon.lastTx=some t ∧ t ≤ s.putAt
  head : s.headAt ≤ s.putAt
  put : s.putAt=s.clock

/-- The grace period, the wait for a PING and two ticks make up a timeout. -/
theorem grace_eq : 0<grace ∧ grace+kaInterval+2*maxTick=kaTimeout := by decide

theorem Started.inv {s : Timed} (h : Started s) : Inv s := by
  obtain ⟨t,ht,hle⟩ := h.lastTx
  have hhead := h.head
  have hput := h.put
  have hgrace := grace_eq.1
  exact ⟨h.up,⟨t,ht,by omega,fun _ => ⟨by omega,by omega⟩⟩,by omega,by omega,by omega⟩

theorem headOf_head (s : Timed) {op : LoopOp (Option Nat)} (h : op.isHead=true) : s.headOf op=op.begins := by
  cases op with
  | receive => exact nomatch h
  | turn op =>
    cases op with
    | head => rfl
    | start | event | send | readError | restart => exact nomatch h

theorem headOf_other (s : Timed) {op : LoopOp (Option Nat)} (h : op.isHead=false) :
    s.headOf op=s.headAt ∧ op.ends=op.begins := by
  cases op with
  | receive => exact ⟨rfl,rfl⟩
  | turn op =>
    cases op with
    | head => exact nomatch h
    | start | event | send | readError | restart => exact ⟨rfl,rfl⟩

/-- Where the operation is a loop head, the queue was empty before it. -/
theorem Inv.headOf_lt {s : Timed} {op : LoopOp (Option Nat)} (h : Inv s) (hp : Paced s op) :
    s.headOf op < s.putAt+grace+kaInterval+maxTick := by
  cases hh : op.isHead with
  | true =>
    obtain ⟨t,-,-,hidle⟩ := h.lastTx
    have hhead := (hidle (hp.drained hh)).2
    have hticks := hp.ticks.1
    rw [headOf_head s hh]
    omega
  | false =>
    rw [(headOf_other s hh).1]
    exact h.recent

theorem Inv.covered {s : Timed} {op : LoopOp (Option Nat)} (h : Inv s) (hp : Paced s op) : Covered s op := by
  have hends : op.ends < s.putAt+kaTimeout := by
    have hhead := h.headOf_lt hp
    have hticks := hp.ticks.2
    have hgrace := grace_eq.2
    omega
  refine ⟨hends,?_⟩
  intro peer later hrx hdis
  have htimeout : peer.lastRx.any (fun last => kaTimeout<op.ends-last)=false := by
    rw [hrx]
    apply decide_eq_false
    omega
  unfold Daemon.tickKeepalive
  simp only [hdis,htimeout,Bool.false_eq_true,if_false]
  split_ifs
  · rcases Daemon.enqueueFrame_fifo peer later fPing with ⟨he,-⟩|⟨b,he⟩
    · rw [he]
      exact hdis
    · rw [he]
      exact hdis
  · exact hdis

/-- An operation between two loop heads that puts nothing on the link. -/
theorem Inv.refresh {s : Timed} {op : LoopOp (Option Nat)} (silent : Prop) (h : Inv s) (hp : Paced s op)
    (hh : op.isHead=false) (hput : s.putsOf op=[])
    (hr : Daemon.Refreshes s.daemon op.begins silent (s.daemon.loop fifoLink op))
    (hlate : silent → op.begins < s.putAt+grace) : Inv (s.step op).1 := by
  obtain ⟨hof,hends⟩ := headOf_other s hh
  obtain ⟨t,ht,hle,hidle⟩ := h.lastTx
  have hclock := hp.monotone.1
  have hhead := h.head
  have hput' := h.put
  have hnext : (s.step op).1=⟨s.daemon.loop fifoLink op,op.begins,s.headAt,s.putAt⟩ := by
    simp only [step,hput,if_true,hof,hends]
  rw [hnext]
  refine ⟨hp.stays,?_,hhead.trans hclock,h.recent,hput'.trans hclock⟩
  rcases hr.lastTx with hl|⟨hl,hs⟩
  · exact ⟨t,hl.trans ht,hle.trans hclock,fun hq => hidle (hr.grows.empty hq)⟩
  · exact ⟨op.begins,hl,le_rfl,fun hq => ⟨hlate (hs hq),(hidle (hr.grows.empty hq)).2⟩⟩

theorem Inv.loopHead {s : Timed} {now later : Instant} {dev : Option RawFd} {ios : UInt8 → Io}
    (h : Inv s) (hp : Paced s (.turn (.head now later dev ios))) :
    Inv (s.step (.turn (.head now later dev ios))).1 := by
  obtain ⟨t,ht,hle,hidle⟩ := h.lastTx
  obtain ⟨htx,-⟩ := hidle (hp.drained rfl)
  have hlt : now < s.putAt+grace+kaInterval+maxTick := h.headOf_lt hp
  have hclock : s.clock≤now ∧ now≤later := hp.monotone
  have hput := h.put
  have hka := Daemon.loopHead_keepalive h.up.up h.up.connected h.up.fd (hp.drained rfl) ht
    hp.stays.up
  have hnext : (s.step (.turn (.head now later dev ios))).1=
      ⟨Daemon.loopHead fifoLink s.daemon now later dev ios,later,now,s.putAt⟩ := rfl
  rw [hnext]
  refine ⟨hp.stays,?_,hclock.2,hlt,?_⟩
  · rcases hka with ⟨hq,hl,hdue⟩|⟨hq,hl⟩
    · refine ⟨t,hl,hle.trans (hclock.1.trans hclock.2),fun _ => ⟨htx,?_⟩⟩
      exact hdue.trans (Nat.add_lt_add_right htx _)
    · exact ⟨later,hl,le_rfl,fun hnil => absurd hnil hq⟩
  · exact hput.trans (hclock.1.trans hclock.2)

theorem Inv.linkWrite {s : Timed} {now : Instant} {w : Option Nat} (h : Inv s)
    (hp : Paced s (.turn (.send now w))) : Inv (s.step (.turn (.send now w))).1 := by
  have hputs : s.putsOf (.turn (.send now w))=s.daemon.txq.take (w.getD 0) := if_neg h.up.fd
  have hlast := Daemon.linkWrite_lastTx s.daemon now w
  by_cases hnil : s.daemon.txq.take (w.getD 0)=[]
  · refine h.refresh False hp rfl (hputs.trans hnil) ⟨?_,.inl hlast⟩ False.elim
    apply Daemon.linkWrite_grows h.up.connected hp.stays.up
    have hsame := Daemon.drain_append s.daemon.txq w
    rw [hnil,List.nil_append] at hsame
    exact hsame
  · obtain ⟨t,ht,hle,-⟩ := h.lastTx
    have hclock : s.clock≤now := hp.monotone.1
    have hhead := h.head
    have hgrace := grace_eq.1
    have hnext : (s.step (.turn (.send now w))).1=
        ⟨Daemon.linkWrite fifoLink s.daemon now w,now,s.headAt,now⟩ := by
      simp only [step,hputs,if_neg hnil]
      rfl
    rw [hnext]
    have hlt : s.headAt<now+grace ∧ t<now+grace := by
      unfold Instant at *
      omega
    exact ⟨hp.stays,⟨t,hlast.trans ht,hle.trans hclock,fun _ => ⟨hlt.2,Nat.lt_add_right _ hlt.1⟩⟩,
      hhead.trans hclock,Nat.lt_add_right _ (Nat.lt_add_right _ hlt.1),le_rfl⟩

theorem Inv.step {s : Timed} {op : LoopOp (Option Nat)} (h : Inv s) (hp : Paced s op)
    (hl : NoLateRefresh s op) : Inv (s.step op).1 := by
  cases op with
  | receive now io f =>
    have hd : s.daemon.loop fifoLink (.receive now io f)=
        Daemon.dispatchFrame fifoLink {s.daemon with lastRx := some now} now io f := if_neg h.up.fd
    have hr := Daemon.dispatchFrame_refreshes (d := {s.daemon with lastRx := some now})
      h.up.up h.up.connected h.up.fd now io f
    rw [← hd] at hr
    refine h.refresh _ hp rfl rfl ⟨hr.grows,hr.lastTx⟩ ?_
    intro ⟨hq,hf,hnil⟩
    exact hl hq hf hnil
  | turn op =>
    cases op with
    | start now dev =>
      have hd : s.daemon.loop fifoLink (.turn (.start now dev))=s.daemon := if_neg (by simp [h.up.connected])
      refine h.refresh False hp rfl rfl ?_ False.elim
      rw [hd]
      exact Daemon.Refreshes.same s.daemon now False
    | head now later dev ios => exact h.loopHead hp
    | event now token readable writable io =>
      refine h.refresh _ hp rfl rfl
        (Daemon.channelEvent_refreshes s.daemon now token readable writable io) ?_
      intro ⟨hq,id,hid,hf⟩
      exact hl hq id hid hf
    | send now w => exact h.linkWrite hp
    | readError now =>
      have hd : s.daemon.loop fifoLink (.turn (.readError now))=Daemon.closeLink fifoLink s.daemon now :=
        if_neg h.up.fd
      have hup := hp.stays.up
      rw [hd,(Daemon.closeLink_get fifoLink h.up.connected now).1] at hup
      exact nomatch hup
    | restart now ios => exact nomatch hp.stays.up

/-- Keepalive covers idle periods: between any two frames on a link that is up there is less than a
timeout, however many frames and events the daemon handles meanwhile, as long as it does not take
them for transmissions of its own. -/
theorem keepalive_covers {s : Timed} {ops : List (LoopOp (Option Nat))} (hs : Started s)
    (h : Always step (fun s op => Paced s op ∧ NoLateRefresh s op) s ops) :
    Always step Covered s ops :=
  always_of_always step (fun _ _ hi hg => ⟨hi.covered hg.1,hi.step hg.1 hg.2⟩) hs.inv h

/-- A link with one UART behind it, right after the handshake. -/
def greeted : Timed :=
  after step ⟨Daemon.new fifoLink (.single (.mcu (.new 0 Io.idle))) 0,0,0,0⟩
    [.turn (.start 0 (some 3)),.receive 0 Io.idle (Daemon.controlFrame fHello),
      .turn (.send 0 (some 3))]

theorem greeted_started : Started greeted :=
  ⟨by decide +kernel,⟨0,by decide +kernel,by decide +kernel⟩,by decide +kernel,by decide +kernel⟩

/-- A loop head at second `n`. -/
def headAtSec (n : Nat) : LoopOp (Option Nat) := .turn (.head (secs n) (secs n) none (fun _ => Io.idle))

/-- Nothing happens for four seconds but a PING. -/
def idleOps : List (LoopOp (Option Nat)) :=
  [headAtSec 1,headAtSec 2,headAtSec 3,.turn (.send (secs 3) (some 1)),headAtSec 4]

theorem keepalive_covers_idle : Always step Covered greeted idleOps :=
  keepalive_covers greeted_started (by decide +kernel)

/-- The host sends data to the UART once a second, which has nothing to answer. -/
def oneWayOps : List (LoopOp (Option Nat)) :=
  (List.range 10).flatMap (fun n =>
    [.receive (secs (n+1)) Io.idle ⟨fData,0,[0x7E]⟩,headAtSec (n+1)])

theorem keepalive_suppressed :
    ¬∀s ops,Started s → Always step Paced s ops → Always step Covered s ops := by
  intro h
  have hcovered := h greeted oneWayOps greeted_started (by decide +kernel)
  have hends : Always step (fun s op => op.ends < s.putAt+kaTimeout) greeted oneWayOps :=
    always_of_always step (P := fun _ => True) (fun _ _ _ hc => ⟨hc.1,trivial⟩) trivial hcovered
  exact absurd hends (by decide +kernel)

end Timed

end Serialmux.EventLoop

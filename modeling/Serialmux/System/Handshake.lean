import Serialmux.Framework.Machine
import Serialmux.System.Pair

namespace Serialmux.System

open Framework Protocol Channel EventLoop

theorem calls_any (op : DaemonOp (Option Nat)) : Daemon.Calls (fun _ _ => True) op := by
  cases op with
  | head now later dev ios => exact fun _ => trivial
  | event now token readable writable io => exact fun _ => trivial
  | start | send | readError | restart => trivial

/-- What has become of the link of `d₀`, of whose queue `q` was left: it is closed, it has been opened
anew with a HELLO, or it is as it was and `q` still waits in front. -/
def Carried (d₀ : Daemon (List Frame)) (q : List Frame) (d : Daemon (List Frame)) : Prop :=
  d.linkFd=none ∨ (∃f∈d.txq,f.ftype=fHello) ∨
    (d₀.linkFd≠none ∧ d.linkUp=d₀.linkUp ∧ q <+: d.txq)

namespace Carried

variable {d₀ d : Daemon (List Frame)} {q : List Frame}

theorem refl (h : q <+: d₀.txq) : Carried d₀ q d₀ := by
  by_cases hfd : d₀.linkFd=none
  · exact .inl hfd
  · exact .inr (.inr ⟨hfd,rfl,h⟩)

/-- Frames that join the queue change nothing. -/
theorem append {d' : Daemon (List Frame)} {fs : List Frame} (h : Carried d₀ q d)
    (hfd : d'.linkFd=d.linkFd) (hup : d'.linkUp=d.linkUp) (hq : d'.txq=d.txq++fs) :
    Carried d₀ q d' := by
  unfold Carried
  rw [hfd,hup,hq]
  rcases h with h|⟨f,hf,hh⟩|⟨h₁,h₂,h₃⟩
  · exact .inl h
  · exact .inr (.inl ⟨f,List.mem_append_left _ hf,hh⟩)
  · exact .inr (.inr ⟨h₁,h₂,h₃.trans (List.prefix_append _ _)⟩)

theorem turns : Daemon.Turns (fun _ _ => True) (Carried d₀ q) where
  core h _ hq hup _ hfd _ := h.append hfd hup (hq.trans (List.append_nil _).symm)
  call _ h := h.append rfl rfl (Daemon.callChannel_txq _ _ _)
  pause _ := trivial
  resume _ := trivial
  opened := by
    intro d now dev h _
    cases dev with
    | none => exact h.append rfl rfl (List.append_nil _).symm
    | some fd =>
      refine .inr (.inl ⟨Daemon.controlFrame fHello,?_,rfl⟩)
      simp [Daemon.openLink,fifoLink,Daemon.controlFrame,maxPayload]
  closed := by
    intro d now h
    by_cases hd : d.disconnected=true
    · rwa [Daemon.closeLink,if_pos hd]
    · exact .inl (Daemon.closeLink_get fifoLink (by simpa using hd) now).2.2.1
  ping := by
    intro d now h
    rcases Daemon.enqueueFrame_fifo d now fPing with ⟨he,-⟩|⟨b,he⟩
    · rwa [he]
    · rw [he]
      exact h.append rfl rfl rfl

end Carried

/-- A turn takes off the queue what it puts on the link, and no more while the link stays as it is. -/
theorem turn_carried {d : Daemon (List Frame)} (op : DaemonOp (Option Nat)) :
    ∃q,d.puts op++q=d.txq ∧ Carried d q (d.turn fifoLink op) := by
  by_cases hp : d.puts op=[]
  · refine ⟨d.txq,by rw [hp]; rfl,?_⟩
    refine Carried.turns.step (calls_any _) ?_ ?_ (fun _ => .refl List.prefix_rfl)
    · intro now w hop hfd
      subst hop
      have htaken : d.txq.take (w.getD 0)=[] := (if_neg hfd).symm.trans hp
      have hkept := Daemon.drain_append d.txq w
      rw [htaken,List.nil_append] at hkept
      exact (Carried.refl List.prefix_rfl).append rfl rfl (hkept.trans (List.append_nil _).symm)
    · exact fun _ _ _ => .inl rfl
  · cases op with
    | send now w =>
      have hfd : d.linkFd≠none := fun hn => hp (if_pos hn)
      have hputs : d.puts (.send now w)=d.txq.take (w.getD 0) := if_neg hfd
      refine ⟨(fifoLink.drain d.txq w).1,by rw [hputs,Daemon.drain_append],?_⟩
      refine Carried.turns.step (calls_any _) ?_ (fun _ _ hop => ?_) (fun hnil => absurd hnil hp)
      · intro _ _ hop _
        cases hop
        exact .inr (.inr ⟨hfd,rfl,List.prefix_rfl⟩)
      · cases hop
    | start | head | event | readError | restart => exact absurd rfl hp

/-- What the arrival of a frame does to the handshake: frames join the queue, a HELLO is
acknowledged, and a HELLO or an ACK completes the handshake. -/
structure Hears (f : Frame) (d d' : Daemon (List Frame)) : Prop where
  queue : d.txq <+: d'.txq
  acks : f.ftype=fHello → ∃g∈d'.txq,g.ftype=fAck
  completes : f.ftype=fHello ∨ f.ftype=fAck → d'.linkUp=true
  keeps : d.linkUp=true → d'.linkUp=true

/-- What calls of channels leave of the handshake. -/
theorem kept_queue (d₀ : Daemon (List Frame)) : Daemon.Kept fifoLink (fun _ _ => True)
    (fun d => d.linkUp=d₀.linkUp ∧ d₀.txq <+: d.txq) where
  core h _ hq hup _ _ _ := by
    rw [hup,hq]
    exact h
  call := by
    rintro d id c - ⟨hup,hq⟩
    refine ⟨hup,hq.trans ?_⟩
    rw [Daemon.callChannel_txq]
    exact List.prefix_append _ _
  pause _ := trivial
  resume _ := trivial

theorem dispatchFrame_hears (d : Daemon (List Frame)) (now : Instant) (io : Io) (f : Frame)
    (hfd : d.linkFd≠none) (hdis : d.disconnected=false) :
    Hears f d (Daemon.dispatchFrame fifoLink d now io f) := by
  -- A frame of the daemon itself always finds the link open.
  have hown : ∀ftype,∃b,Daemon.enqueueFrame fifoLink d now (Daemon.controlFrame ftype)=
      {d with txq := d.txq++[Daemon.controlFrame ftype], lastTx := some now, wantWrite := b} := by
    intro ftype
    rcases Daemon.enqueueFrame_fifo d now ftype with ⟨-,h|h⟩|h
    · simp [hdis] at h
    · exact absurd h hfd
    · exact h
  have hne : fPing≠fHello ∧ fPing≠fAck ∧ fPong≠fHello ∧ fPong≠fAck ∧ fAck≠fHello := by decide
  apply Daemon.dispatchFrame_induct
  · intro hp
    obtain ⟨b,hb⟩ := hown fPong
    rw [hb]
    exact ⟨List.prefix_append _ _,by simp [hp,hne],by simp [hp,hne],id⟩
  · intro hp
    exact ⟨List.prefix_rfl,by simp [hp,hne],by simp [hp,hne],id⟩
  · intro hh
    obtain ⟨b,hb⟩ := hown fAck
    obtain ⟨m,b',hc,-⟩ := Daemon.connectChannels_fifo
      {Daemon.enqueueFrame fifoLink d now (Daemon.controlFrame fAck) with linkUp := true} now
    rw [hc,hb]
    refine ⟨?_,fun _ => ⟨Daemon.controlFrame fAck,?_,rfl⟩,fun _ => rfl,fun _ => rfl⟩
    · exact (List.prefix_append _ _).trans (List.prefix_append _ _)
    · simp
  · intro ha hup
    exact ⟨List.prefix_rfl,by simp [ha,hne],fun _ => hup,id⟩
  · intro ha _
    obtain ⟨m,b,hc,-⟩ := Daemon.connectChannels_fifo {d with linkUp := true} now
    rw [hc]
    exact ⟨List.prefix_append _ _,by simp [ha,hne],fun _ => rfl,fun _ => rfl⟩
  · intro hr
    simp only [isControl,Bool.or_eq_false_iff,beq_eq_false_iff_ne] at hr
    obtain ⟨hup,hq⟩ := (kept_queue d).routeFrame now trivial
      ⟨rfl,List.prefix_rfl⟩
    exact ⟨hq,by simp [hr],by simp [hr],fun h => hup.trans h⟩

/-- A side whose link is down has no link fd. -/
def LinkKnown (d : Daemon (List Frame)) : Prop := d.disconnected=true → d.linkFd=none

theorem LinkKnown.turns : Daemon.Turns (fun _ _ => True) LinkKnown where
  core h _ _ _ hd hfd _ := by
    rw [LinkKnown,hd,hfd]
    exact h
  call _ h := h
  pause _ := trivial
  resume _ := trivial
  opened := by
    intro d now dev h _
    cases dev with
    | none => exact h
    | some fd => exact fun hd => absurd hd (by simp [Daemon.openLink])
  closed := by
    intro d now h
    by_cases hd : d.disconnected=true
    · rwa [Daemon.closeLink,if_pos hd]
    · exact fun _ => (Daemon.closeLink_get fifoLink (by simpa using hd) now).2.2.1
  ping := by
    intro d now h
    have hlink := Daemon.enqueueFrame_link fifoLink d now (Daemon.controlFrame fPing)
    simp only [Daemon.link,Prod.mk.injEq] at hlink
    rw [LinkKnown,hlink.1,hlink.2.1]
    exact h

theorem LinkKnown.step {e : Endpoint} (op : EndpointOp) (h : LinkKnown e.daemon) :
    LinkKnown (e.step op).1.daemon := by
  cases op with
  | own op =>
    exact LinkKnown.turns.step (calls_any _) (fun _ _ _ _ => h) (fun _ _ _ _ => rfl) (fun _ => h)
  | deliver now io =>
    simp only [Endpoint.step]
    split
    · exact h
    · split_ifs with hfd
      · exact h
      · have hlink := Daemon.dispatchFrame_link fifoLink {e.daemon with lastRx := some now} now io
        simp only [Daemon.link,Prod.mk.injEq] at hlink
        rw [LinkKnown,Daemon.receive,if_neg hfd,(hlink _).1,(hlink _).2.1]
        exact h
  | lose n =>
    simp only [Endpoint.step]
    split_ifs <;> exact h

/-- While both links are open, a side whose handshake is not complete has a HELLO on its way to the
peer, or a greeting of the peer on its way to itself. -/
def Awaits (self peer : Endpoint) : Prop :=
  self.daemon.linkFd≠none → peer.daemon.linkFd≠none → self.daemon.linkUp=false →
    (∃f∈peer.incoming++self.daemon.txq,f.ftype=fHello) ∨
      ∃f∈self.incoming++peer.daemon.txq,f.ftype=fHello ∨ f.ftype=fAck

namespace Awaits

variable {self peer : Endpoint}

/-- A turn of the side that waits. -/
theorem self_step (op : EndpointOp) (hk : LinkKnown self.daemon) (h : Awaits self peer) :
    Awaits (self.step op).1 {peer with incoming := peer.incoming++(self.step op).2} := by
  intro hself hpeer hup
  cases op with
  | own op =>
    obtain ⟨q,hq,hc⟩ := turn_carried op (d := self.daemon)
    rcases hc with hc|⟨f,hf,hh⟩|⟨hfd,hup',hpre⟩
    · exact absurd hc hself
    · exact .inl ⟨f,List.mem_append_right _ hf,hh⟩
    · rcases h hfd hpeer (hup'.symm.trans hup) with ⟨f,hf,hh⟩|hg
      · refine .inl ⟨f,?_,hh⟩
        -- What the turn puts on the link it has taken off its queue.
        rw [← hq,← List.append_assoc] at hf
        rcases List.mem_append.mp hf with hf|hf
        · exact List.mem_append_left _ hf
        · exact List.mem_append_right _ (hpre.subset hf)
      · exact .inr hg
  | deliver now io =>
    revert hself hup
    simp only [Endpoint.step]
    cases hin : self.incoming with
    | nil =>
      intro hself hup
      simpa [hin] using h hself hpeer hup
    | cons f fs =>
      dsimp only
      split_ifs with hfd
      · intro hself
        exact absurd hfd hself
      · intro hself hup
        rw [Daemon.receive,if_neg hfd] at hself hup ⊢
        have hdis : self.daemon.disconnected=false := by
          by_contra hd
          exact hfd (hk (by simpa using hd))
        have hh := dispatchFrame_hears {self.daemon with lastRx := some now} now io f hfd hdis
        have hdown : self.daemon.linkUp=false := by
          by_contra hu
          exact absurd (hh.keeps (by simpa using hu)) (by simpa using hup)
        rcases h hfd hpeer hdown with ⟨g,hg,hg'⟩|⟨g,hg,hg'⟩
        · refine .inl ⟨g,?_,hg'⟩
          rcases List.mem_append.mp hg with hg|hg
          · exact List.mem_append_left _ (by simpa using hg)
          · exact List.mem_append_right _ (hh.queue.subset hg)
        · rw [hin,List.cons_append] at hg
          rcases List.mem_cons.mp hg with rfl|hg
          · exact absurd (hh.completes hg') (by simpa using hup)
          · exact .inr ⟨g,hg,hg'⟩
  | lose n =>
    revert hself hup
    simp only [Endpoint.step]
    split_ifs with hd
    · intro hself
      exact absurd (hk hd) hself
    · intro hself hup
      simpa using h hself hpeer hup

/-- A turn of the peer. -/
theorem peer_step (op : EndpointOp) (hk : LinkKnown peer.daemon) (h : Awaits self peer) :
    Awaits {self with incoming := self.incoming++(peer.step op).2} (peer.step op).1 := by
  intro hself hpeer hup
  cases op with
  | own op =>
    obtain ⟨q,hq,hc⟩ := turn_carried op (d := peer.daemon)
    rcases hc with hc|⟨f,hf,hh⟩|⟨hfd,-,hpre⟩
    · exact absurd hc hpeer
    · exact .inr ⟨f,List.mem_append_right _ hf,.inl hh⟩
    · rcases h hself hfd hup with hg|⟨f,hf,hh⟩
      · exact .inl hg
      · refine .inr ⟨f,?_,hh⟩
        rw [← hq,← List.append_assoc] at hf
        rcases List.mem_append.mp hf with hf|hf
        · exact List.mem_append_left _ hf
        · exact List.mem_append_right _ (hpre.subset hf)
  | deliver now io =>
    revert hpeer
    simp only [Endpoint.step]
    cases hin : peer.incoming with
    | nil =>
      intro hpeer
      simpa [hin] using h hself hpeer hup
    | cons f fs =>
      dsimp only
      split_ifs with hfd
      · intro hpeer
        exact absurd hfd hpeer
      · intro _
        have hdis : peer.daemon.disconnected=false := by
          by_contra hd
          exact hfd (hk (by simpa using hd))
        have hh := dispatchFrame_hears {peer.daemon with lastRx := some now} now io f hfd hdis
        rw [Daemon.receive,if_neg hfd,List.append_nil]
        rcases h hself hfd hup with ⟨g,hg,hg'⟩|⟨g,hg,hg'⟩
        · rw [hin,List.cons_append] at hg
          rcases List.mem_cons.mp hg with rfl|hg
          · -- The HELLO arrives, and the ACK takes its place.
            obtain ⟨a,ha,ha'⟩ := hh.acks hg'
            exact .inr ⟨a,List.mem_append_right _ ha,.inr ha'⟩
          · exact .inl ⟨g,hg,hg'⟩
        · refine .inr ⟨g,?_,hg'⟩
          rcases List.mem_append.mp hg with hg|hg
          · exact List.mem_append_left _ hg
          · exact List.mem_append_right _ (hh.queue.subset hg)
  | lose n =>
    revert hpeer
    simp only [Endpoint.step]
    split_ifs with hd
    · intro hpeer
      exact absurd (hk hd) hpeer
    · intro hpeer
      simpa using h hself hpeer hup

end Awaits

/-- Neither side is left without a greeting. -/
structure Greeting (p : Pair) : Prop where
  exporterKnown : LinkKnown p.exporter.daemon
  hostKnown : LinkKnown p.host.daemon
  exporterAwaits : Awaits p.exporter p.host
  hostAwaits : Awaits p.host p.exporter

theorem Greeting.step {p : Pair} (op : PairOp) (h : Greeting p) : Greeting (p.step op).1 := by
  cases op with
  | exporter op =>
    exact ⟨h.exporterKnown.step op,h.hostKnown,h.exporterAwaits.self_step op h.exporterKnown,
      h.hostAwaits.peer_step op h.exporterKnown⟩
  | host op =>
    exact ⟨h.exporterKnown,h.hostKnown.step op,h.exporterAwaits.peer_step op h.hostKnown,
      h.hostAwaits.self_step op h.hostKnown⟩

theorem Greeting.new (exporter host : ChannelMap) (now : Instant) :
    Greeting (Pair.new exporter host now) :=
  ⟨fun _ => rfl,fun _ => rfl,fun h => absurd rfl h,fun h => absurd rfl h⟩

/-- Whatever the channels, and whatever the order of opens, losses, restarts, timeouts and
deliveries, while no queue refuses a frame: as soon as both links are open and nothing is on its
way, the handshake is complete on both sides. -/
theorem handshake_completes (exporter host : ChannelMap) (now : Instant) (ops : List PairOp)
    (hexp : (after Pair.step (Pair.new exporter host now) ops).exporter.daemon.linkFd≠none)
    (hhost : (after Pair.step (Pair.new exporter host now) ops).host.daemon.linkFd≠none)
    (hq : (after Pair.step (Pair.new exporter host now) ops).Quiescent) :
    (after Pair.step (Pair.new exporter host now) ops).Connected := by
  have hinv : Greeting (after Pair.step (Pair.new exporter host now) ops) :=
    after_of_step Pair.step (fun _ op h => h.step op) (Greeting.new exporter host now) ops
  generalize after Pair.step (Pair.new exporter host now) ops=p at hexp hhost hq hinv
  obtain ⟨htoHost,htoExporter⟩ := hq
  simp only [Pair.towardsHost,Pair.towardsExporter] at htoHost htoExporter
  constructor
  · by_contra hup
    have h := hinv.exporterAwaits hexp hhost (by simpa using hup)
    simp [htoHost,htoExporter] at h
  · by_contra hup
    have h := hinv.hostAwaits hhost hexp (by simpa using hup)
    simp [htoHost,htoExporter] at h

/-- The exporter's first HELLO is lost, since the host has not opened its link yet. -/
def lateHostOps : List PairOp :=
  [.exporter (.own (.start 0 (some 3))),.exporter (.own (.send 1 (some 1))),.host (.lose 1),
    .host (.own (.start 2 (some 3))),.host (.own (.send 3 (some 1))),
    .exporter (.deliver 4 Io.idle),.exporter (.own (.send 5 (some 2))),.host (.deliver 6 Io.idle),
    .host (.deliver 7 Io.idle)]

theorem handshake_completes_late :
    (after Pair.step (Pair.new (.single (.mcu (.new 0 Io.idle))) (.single (.pty (.new 0))) 0)
      lateHostOps).Connected := by
  refine handshake_completes _ _ 0 lateHostOps ?_ ?_ ?_
  · decide +kernel
  · decide +kernel
  · exact ⟨by decide +kernel,by decide +kernel⟩

end Serialmux.System

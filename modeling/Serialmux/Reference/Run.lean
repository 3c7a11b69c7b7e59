import Serialmux.Reference.Sound

namespace Serialmux.Reference

open Framework Protocol Channel

namespace Daemon

/-- The frame stalls a channel of the daemon. -/
def Stalls (d : Daemon) (f : Frame) (io : Io) : Prop :=
  ∃ch,d.channels f.channel=some ch ∧ ch.Stalls f.ftype f.payload io

/-- No frame of a read stalls when its turn comes. -/
def CalmRead (crc : List UInt8 → UInt32) (d : Daemon) (lio : LinkIo) : Prop :=
  ∀bs hbs,lio.read=.data bs hbs →
    Throughout (linkFrame crc lio) (fun s f => ¬s.1.Stalls f (lio.ios s.2))
      ({d with lastRxMs := lio.clock},0) (fpFrames crc d.parser bs)

/-- No frame that the step handles stalls. -/
def Calm (crc : List UInt8 → UInt32) (d : Daemon) : LoopStep → Prop
  | .event .link true _ _ lio => d.linkFd≠none → d.CalmRead crc lio
  | _ => True

namespace Sound

variable {w : Prop} {crc : List UInt8 → UInt32} {specs : UInt8 → Option Spec} {d : Daemon}

theorem eachChannel (h : Sound w crc specs d) {f : Daemon → UInt8 → Option Daemon}
    (hf : ∀d id,Sound w crc specs d → Yields (Sound w crc specs) (f d id)) :
    Yields (Sound w crc specs) (d.eachChannel f) := by
  refine .foldlM ?_ h _
  intro d id h
  exact .when (fun _ => hf d id h) h

theorem connected (h : Sound w crc specs d) (clock : Millis) :
    Yields (Sound w crc specs)
      (Daemon.eachChannel {d with linkUp := true} (Reference.chOnLinkUp crc clock)) := by
  have hup : Sound w crc specs {d with linkUp := true} := ⟨h.parser,h.ring,h.kinds,h.channels⟩
  exact hup.eachChannel (fun d id h => h.chOnLinkUp clock id)

theorem onFrame (h : Sound w crc specs d) (f : Frame) (io : Io) (hstall : w → ¬d.Stalls f io) :
    Yields (Sound w crc specs) (onFrame crc d f io) := by
  unfold Reference.onFrame
  split_ifs
  · exact h.enqueueFrame io.clock _ _ (by decide)
  · exact .some h
  · exact (h.enqueueFrame io.clock _ _ (by decide)).bind (fun d' h' => h'.connected io.clock)
  · exact .some h
  · exact h.connected io.clock
  · exact h.chOnFrame _ _ _ io (fun hw ch hget hs => hstall hw ⟨ch,hget,hs⟩)

theorem scheduleReopen (h : Sound w crc specs d) (clock : Millis) :
    Sound w crc specs (scheduleReopen d clock) := ⟨h.parser,h.ring,h.kinds,h.channels⟩

theorem openLink (h : Sound w crc specs d) (clock : Millis) (dev : Option RawFd) :
    Yields (Sound w crc specs) (openLink crc d clock dev) := by
  cases dev with
  | none => exact .some (h.scheduleReopen clock)
  | some fd =>
    refine enqueueFrame ?_ clock _ _ (by decide)
    exact ⟨rfl,⟨_,.zero⟩,h.kinds,h.channels⟩

theorem closeLink (h : Sound w crc specs d) (clock : Millis) :
    Sound w crc specs (closeLink d clock) := by
  unfold Reference.closeLink
  by_cases hdis : d.disconnected=true
  · rw [if_pos hdis]
    exact h
  rw [if_neg hdis]
  dsimp only
  generalize (if d.linkFd=none then d.linkWatch else epollUpdate d.linkWatch none)=watch
  have hdown : Sound w crc specs {d with
      disconnected := true, linkUp := false, linkFd := none, linkWatch := watch, txq := .zero} :=
    ⟨h.parser,⟨_,.zero⟩,h.kinds,h.channels⟩
  refine scheduleReopen (mapChannels ?_ ChannelT.linkDown_spec (fun _ hch => hch.linkDown)) clock
  split_ifs
  · exact hdown.resumed
  · exact hdown

end Sound

end Daemon

namespace Tag

theorem or_parts (kind : Nat) {info : Nat} (h : info<2^32) :
    (2^32*kind|||info)>>>32=kind ∧ (2^32*kind|||info)&&&0xFFFFFFFF=info := by
  rw [← Nat.two_pow_add_eq_or_of_lt h,Nat.shiftRight_eq_div_pow]
  refine ⟨by omega,?_⟩
  rw [show 0xFFFFFFFF=2^32-1 from rfl,Nat.and_two_pow_sub_one_eq_mod]
  omega

/-- A tag of a channel says so by its kind, and the index it carries is one of the table. -/
theorem encode_parts (tag : Tag) (h : tag≠.link) :
    2≤tag.encode>>>32 ∧ tag.encode>>>32≤5 ∧
      (if tag.encode>>>32=5 then ((tag.encode&&&0xFFFFFFFF)>>>16)&&&0xFF
        else tag.encode&&&0xFFFFFFFF)<256 := by
  have hindex (kind : Nat) (id : UInt8) (hk : kind≠5) :
      (2^32*kind|||id.toNat)>>>32=kind ∧ (if (2^32*kind|||id.toNat)>>>32=5 then
        (((2^32*kind|||id.toNat)&&&0xFFFFFFFF)>>>16)&&&0xFF
          else (2^32*kind|||id.toNat)&&&0xFFFFFFFF)<256 := by
    have hid := id.toNat_lt
    obtain ⟨hkind,hinfo⟩ := or_parts kind (show id.toNat<2^32 by omega)
    rw [hkind,hinfo,if_neg hk]
    exact ⟨rfl,hid⟩
  cases tag with
  | link => exact absurd rfl h
  | mcu id =>
    obtain ⟨hkind,hlt⟩ := hindex 2 id (by decide)
    exact ⟨hkind.ge,hkind.le.trans (by decide),hlt⟩
  | pty id =>
    obtain ⟨hkind,hlt⟩ := hindex 3 id (by decide)
    exact ⟨(by decide : 2≤3).trans hkind.ge,hkind.le.trans (by decide),hlt⟩
  | server id =>
    obtain ⟨hkind,hlt⟩ := hindex 4 id (by decide)
    exact ⟨(by decide : 2≤4).trans hkind.ge,hkind.le.trans (by decide),hlt⟩
  | tcpConn id cid =>
    have hid := id.toNat_lt
    have hcid : cid.val<2^16 := Nat.lt_trans cid.isLt (by decide)
    have hinfo : id.toNat<<<16|||cid.val<2^32 := by
      rw [Nat.shiftLeft_eq,Nat.mul_comm,← Nat.two_pow_add_eq_or_of_lt hcid]
      omega
    obtain ⟨hkind,-⟩ := or_parts 5 hinfo
    rw [← Nat.or_assoc] at hkind
    have hfive : (tcpConn id cid).encode>>>32=5 := hkind
    rw [hfive,if_pos rfl]
    exact ⟨by decide,le_rfl,Nat.and_lt_two_pow _ (show 0xFF<2^8 by decide)⟩

end Tag

section Keep

variable (crc : List UInt8 → UInt32)

/-- Every frame that the step handles meets `G` when its turn comes. -/
def Daemon.EachFrame (G : Daemon → Frame → Io → Prop) (d : Daemon) : LoopStep → Prop
  | .event .link true _ _ lio => d.linkFd≠none → ∀bs hbs,lio.read=.data bs hbs →
      Throughout (linkFrame crc lio) (fun s f => G s.1 f (lio.ios s.2))
        ({d with lastRxMs := lio.clock},0) (fpFrames crc d.parser bs)
  | _ => True

theorem Daemon.EachFrame.of_forall {crc : List UInt8 → UInt32} {G : Daemon → Frame → Io → Prop}
    (hG : ∀d f io,G d f io) (d : Daemon) (s : LoopStep) : d.EachFrame crc G s := by
  unfold EachFrame
  split
  · exact fun _ _ _ _ => .of_forall (fun _ _ => hG _ _ _) _ _
  · trivial

/-- What a property of the daemon has to withstand to be an invariant of its loop, where every frame
meets `G`. -/
structure Daemon.Kept (G : Daemon → Frame → Io → Prop) (I : Daemon → Prop) : Prop where
  parser : ∀{d},I d → frameMove crc d.parser=none
  ring : ∀{d},I d → ∃t,d.txq.Rep t
  onFrame : ∀{d},I d → ∀f io,G d f io → Yields I (Reference.onFrame crc d f io)
  event : ∀{d},I d → ∀id kind info readable writable io,
    Yields I (Reference.chHandleEvent crc d id kind info readable writable io)
  tick : ∀{d},I d → ∀id nowMs io,Yields I (Reference.chTick crc d id nowMs io)
  openLink : ∀{d},I d → ∀clock dev,Yields I (Reference.openLink crc d clock dev)
  closeLink : ∀{d},I d → ∀clock,I (Reference.closeLink d clock)
  ping : ∀{d},I d → ∀clock,Yields I (Reference.enqueueFrame crc d clock fPing 0 [])
  resumed : ∀{d},I d → I {d.mapChannels chResume with linkBpPaused := false}
  received : ∀{d},I d → ∀lastRxMs,I {d with lastRxMs := lastRxMs}
  parsed : ∀{d},I d → ∀parser,frameMove crc parser=none → I {d with parser := parser}
  drained : ∀{d},I d → ∀{txq t},LinkTxq.Rep txq t → I {d with txq := txq}
  watched : ∀{d},I d → ∀watch,I {d with linkWatch := watch}

namespace Daemon.Kept

variable {crc} {G : Daemon → Frame → Io → Prop} {I : Daemon → Prop} (k : Kept crc G I) {d : Daemon}
include k

theorem linkRead (h : I d) (lio : LinkIo) (hG : ∀bs hbs,lio.read=.data bs hbs →
      Throughout (linkFrame crc lio) (fun s f => G s.1 f (lio.ios s.2))
        ({d with lastRxMs := lio.clock},0) (fpFrames crc d.parser bs)) :
    Yields I (linkRead crc d lio) := by
  unfold Reference.linkRead
  cases hread : lio.read with
  | wouldBlock => exact .some h
  | error e => exact .some (k.closeLink h lio.clock)
  | data bs hbs =>
    cases bs with
    | nil => exact .some h
    | cons b bs =>
      have hfeed : Yields (fun r => frameMove crc r.1=none ∧ I r.2.1)
          (fpFeed crc (linkFrame crc lio) (b::bs).length d.parser (b::bs)
            ({d with lastRxMs := lio.clock},0)) := by
        refine fpFeed_yields crc _ (I := fun s => I s.1) (k.parser h) ?_ (k.received h _)
          (hG (b::bs) hbs hread)
        intro (d',n) f h' hs
        exact (k.onFrame h' f (lio.ios n) hs).bind (fun d'' h'' => .some h'')
      refine hfeed.bind ?_
      intro ⟨parser,d',n⟩ ⟨hparser,h'⟩
      exact .some (k.parsed h' parser hparser)

theorem resumeIfLow (h : I d) (used : Nat) : I (resumeIfLow d used) := by
  unfold Reference.resumeIfLow
  split_ifs
  · exact k.resumed h
  · exact h

theorem linkWrite (h : I d) (lio : LinkIo) : Yields I (linkWrite d lio) := by
  obtain ⟨t,ht⟩ := k.ring h
  refine (ht.drain lio.write).bind ?_
  intro ⟨txq,rc⟩ ⟨htxq,_⟩
  have hdrained : I {d with txq := txq} := k.drained h htxq
  dsimp only
  by_cases hrc : rc=none
  · rw [if_pos hrc]
    exact .some (k.closeLink hdrained lio.clock)
  rw [if_neg hrc]
  refine .next htxq.used ?_
  have hlow := k.resumeIfLow hdrained (t.drainToFd lio.write).queue.used
  split_ifs
  · exact .some (k.watched hlow _)
  · exact .some hlow

theorem handleLinkEvent (h : I d) (readable writable : Bool) (lio : LinkIo)
    (hG : readable=true → d.linkFd≠none → ∀bs hbs,lio.read=.data bs hbs →
      Throughout (linkFrame crc lio) (fun s f => G s.1 f (lio.ios s.2))
        ({d with lastRxMs := lio.clock},0) (fpFrames crc d.parser bs)) :
    Yields I (handleLinkEvent crc d readable writable lio) := by
  refine .early h (fun hfd => ?_)
  have hread : Yields I (if readable then Reference.linkRead crc d lio else some d) :=
    .when (fun hr => k.linkRead h lio (hG hr hfd)) h
  refine hread.bind ?_
  intro d' h'
  exact .early h' (fun _ => .when (fun _ => k.linkWrite h' lio) h')

theorem tickKeepalive (h : I d) (nowMs clock : Millis) :
    Yields I (tickKeepalive crc d nowMs clock) := by
  unfold Reference.tickKeepalive
  split_ifs
  · exact .some h
  · exact .some (k.closeLink h clock)
  · exact k.ping h clock
  · exact .some h

theorem loopHead (h : I d) (nowMs clock : Millis) (dev : Option RawFd) (ios : UInt8 → Io) :
    Yields I (loopHead crc d nowMs clock dev ios) := by
  have hopen : Yields I (if d.disconnected=true ∧ d.reopenAtMs≤nowMs then
      Reference.openLink crc d clock dev else some d) :=
    .when (fun _ => k.openLink h clock dev) h
  refine hopen.bind (fun d₁ h₁ => (k.tickKeepalive h₁ nowMs clock).bind (fun d₂ h₂ => ?_))
  exact .foldlM (fun d id h => .when (fun _ => k.tick h id nowMs (ios id)) h) h₂ _

theorem dispatchEvent (h : I d) {tag : Tag} {readable writable : Bool} {io : Io} {lio : LinkIo}
    (hG : d.EachFrame crc G (.event tag readable writable io lio)) :
    Yields I (dispatchEvent crc d tag.encode readable writable io lio) := by
  unfold Reference.dispatchEvent
  by_cases hlink : tag=.link
  · subst hlink
    rw [if_pos (by decide)]
    refine k.handleLinkEvent h readable writable lio ?_
    intro hr hfd
    subst hr
    exact hG hfd
  · obtain ⟨hlo,hhi,hindex⟩ := tag.encode_parts hlink
    rw [if_neg (by omega),if_pos ⟨hlo,hhi⟩]
    exact .check hindex (k.event h _ _ _ readable writable io)

/-- The rule for a step. -/
theorem loopStep (h : I d) (s : LoopStep) (hG : d.EachFrame crc G s) :
    Yields I (loopStep crc d s) := by
  cases s with
  | head nowMs clock dev ios => exact k.loopHead h nowMs clock dev ios
  | event tag readable writable io lio => exact k.dispatchEvent h hG

end Daemon.Kept

end Keep

namespace Daemon.Sound

variable {w : Prop} {crc : List UInt8 → UInt32} {specs : UInt8 → Option Spec} {d : Daemon}

theorem kept : Kept crc (fun d f io => w → ¬d.Stalls f io) (Sound w crc specs) where
  parser h := h.parser
  ring h := h.ring
  onFrame h f io hs := h.onFrame f io hs
  event h := h.chHandleEvent
  tick h := h.chTick
  openLink h := h.openLink
  closeLink h := h.closeLink
  ping h clock := h.enqueueFrame clock _ _ (by decide)
  resumed h := h.resumed
  received h _ := ⟨h.parser,h.ring,h.kinds,h.channels⟩
  parsed h _ hp := ⟨hp,h.ring,h.kinds,h.channels⟩
  drained h _ _ ht := ⟨h.parser,⟨_,ht⟩,h.kinds,h.channels⟩
  watched h _ := ⟨h.parser,h.ring,h.kinds,h.channels⟩

theorem loopStep (h : Sound w crc specs d) (s : LoopStep) (hcalm : w → d.Calm crc s) :
    Yields (Sound w crc specs) (loopStep crc d s) := by
  refine kept.loopStep h s ?_
  cases s with
  | head nowMs clock dev ios => trivial
  | event tag readable writable io lio =>
    cases tag with
    | link =>
      cases readable with
      | false => trivial
      | true => exact fun hfd bs hbs he => .imp (fun hw => hcalm hw hfd bs hbs he)
    | mcu id => trivial
    | pty id => trivial
    | server id => trivial
    | tcpConn id cid => trivial

theorem init (crc : List UInt8 → UInt32) (specs : UInt8 → Option Spec) (ios : UInt8 → Io) :
    Sound w crc specs (daemonInit specs ios) := by
  refine ⟨rfl,⟨_,.zero⟩,?_,?_⟩
  · intro id
    cases hspec : specs id with
    | none => simp [daemonInit,hspec]
    | some spec => simp [daemonInit,hspec,ChannelT.init_spec]
  · intro id ch hget
    obtain ⟨spec,-,rfl⟩ := Option.map_eq_some_iff.mp hget
    exact .init spec (ios id)

/-- The invariant holds after every run, which is one without a fault; as to the interest, of a run
without a stall. -/
theorem run (crc : List UInt8 → UInt32) (specs : UInt8 → Option Spec) (ios : UInt8 → Io)
    (clock : Millis) (dev : Option RawFd) (steps : List LoopStep)
    (hcalm : w → ∀d,Reference.openLink crc (daemonInit specs ios) clock dev=some d →
      Throughout (Reference.loopStep crc) (Calm crc) d steps) :
    Yields (Sound w crc specs) (daemonRun crc specs ios clock dev steps) := by
  obtain ⟨d,hd,h⟩ := (init (w := w) crc specs ios).openLink clock dev
  refine .next hd ?_
  have hall : Throughout (Reference.loopStep crc) (fun d s => w → d.Calm crc s) d steps :=
    .imp (fun hw => hcalm hw d hd)
  exact Yields.run (fun d s h hs => h.loopStep s hs) h hall

end Daemon.Sound

namespace ChannelT

/-- What waits in a channel fits the buffer it waits in, and every open connection has one. -/
def Bounded : ChannelT → Prop
  | mcu m => m.txbuf.length≤2*maxPayload
  | pty p => p.txbuf.length≤2*maxPayload
  | src s => ∀cid,(s.conns cid).fd≠none →
      ∃b,(s.conns cid).txbuf=some b ∧ b.length≤connHighWater+maxPayload
  | dst t => ∀cid,(t.conns cid).fd≠none →
      ∃b,(t.conns cid).txbuf=some b ∧ b.length≤connHighWater+maxPayload

theorem Sound.bounded {w : Prop} {ch : ChannelT} (h : ch.Sound w) : ch.Bounded := by
  cases ch with
  | mcu m => exact (h : m.Sound w).fits.trans (by decide)
  | pty p => exact (h : p.Sound w).fits.trans (by decide)
  | src s => exact fun cid => (h cid).buffer
  | dst t => exact fun cid => (h cid).buffer

end ChannelT

/-- No run of the daemon faults: no copy leaves its destination, no difference of sizes goes below
zero, no conversion of a length or a connection id loses a bit. And after it all buffers are within
their bounds. -/
theorem daemon_bounded (crc : List UInt8 → UInt32) (specs : UInt8 → Option Spec) (ios : UInt8 → Io)
    (clock : Millis) (dev : Option RawFd) (steps : List LoopStep) :
    ∃d,daemonRun crc specs ios clock dev steps=some d ∧
      d.parser.length ≤ maxFrame+64 ∧ d.txq.head<linkTxbufSize ∧ d.txq.tail<linkTxbufSize ∧
      (∃used,txqUsed d.txq=some used ∧ used≤linkTxbufSize-1) ∧
      ∀id ch,d.channels id=some ch → ch.Bounded := by
  obtain ⟨d,hd,h⟩ := Daemon.Sound.run (w := False) crc specs ios clock dev steps nofun
  obtain ⟨t,ht⟩ := h.ring
  have hshort := frameMove_wait_length crc h.parser
  refine ⟨d,hd,by omega,ht.headLt,ht.tailLt,⟨t.used,ht.used,Nat.le_sub_one_of_lt t.used_lt⟩,?_⟩
  intro id ch hget
  exact (h.channels id ch hget).bounded

end Serialmux.Reference

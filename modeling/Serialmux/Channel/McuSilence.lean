import Serialmux.Channel.Dyn
import Serialmux.Channel.Interest

namespace Serialmux.Channel

open Protocol

/-- An event of an fd; no other call reads from one. -/
def ChannelOp.isEvent : ChannelOp → Bool
  | .handleEvent _ _ _ => true
  | _ => false

namespace McuChannel

/-- What silence detection goes by. -/
def Alike (c c' : McuChannel) : Prop := c'.state=c.state ∧ c'.lastRx=c.lastRx ∧ c'.fd=c.fd

theorem updateInterest_alike (c : McuChannel) : Alike c c.updateInterest := by
  unfold updateInterest
  split <;> exact ⟨rfl,rfl,rfl⟩

theorem pauseSourceReads_alike (c : McuChannel) : Alike c c.pauseSourceReads := by
  unfold pauseSourceReads
  split_ifs
  · exact ⟨rfl,rfl,rfl⟩
  · exact updateInterest_alike {c with bpPaused := true}

theorem resumeSourceReads_alike (c : McuChannel) : Alike c c.resumeSourceReads := by
  unfold resumeSourceReads
  split_ifs
  · exact updateInterest_alike {c with bpPaused := false}
  · exact ⟨rfl,rfl,rfl⟩

theorem uartDrain_alike (c : McuChannel) (io : Io) :
    Alike c (c.uartDrain io).1 ∧ (c.uartDrain io).2.read=[] := by
  refine ⟨?_,(uartDrain_same c io).2.2⟩
  unfold uartDrain
  split
  · exact ⟨rfl,rfl,rfl⟩
  · split_ifs
    · exact ⟨rfl,rfl,rfl⟩
    · exact updateInterest_alike {c with txbuf := (flushBuf c.txbuf io.write).1}

/-- A call either reads, and the silence is counted anew, or it does not, and an MCU that runs
afterwards has been running and was last heard when it was. -/
structure Heard (c : McuChannel) (t : Instant) (r : McuChannel × Effect) : Prop where
  read : r.2.read≠[] → r.1.lastRx=some t
  quiet : r.2.read=[] → r.1.state=.active → c.state=.active ∧ r.1.lastRx=c.lastRx

theorem Heard.stay {c c' : McuChannel} {t : Instant} {e : Effect} (h : Alike c c')
    (he : e.read=[]) : Heard c t (c',e) :=
  ⟨fun hne => absurd he hne,fun _ ha => ⟨h.1 ▸ ha,h.2.1⟩⟩

/-- Nothing is read, and the MCU does not run. -/
theorem Heard.stopped {c c' : McuChannel} {t : Instant} {e : Effect} (h : c'.state≠.active)
    (he : e.read=[]) : Heard c t (c',e) :=
  ⟨fun hne => absurd he hne,fun _ ha => absurd ha h⟩

theorem transition_lastRx (c : McuChannel) : (c.transition .active).1.lastRx=c.lastRx := by
  unfold transition
  split_ifs <;> rfl

theorem transition_resetting_state (c : McuChannel) : (c.transition .resetting).1.state=.resetting := by
  by_cases h : c.state=.resetting
  · rw [transition,if_pos h.symm,h]
  · rw [transition_resetting h]

theorem uartRead_heard (c : McuChannel) (io : Io) : Heard c io.now (c.uartRead io) := by
  have hsync : ∀(c : McuChannel) data,(c.awaitSync data).1.lastRx=c.lastRx := by
    intro c data
    unfold awaitSync
    split
    · rfl
    · exact transition_lastRx c
  unfold uartRead
  cases c.fd with
  | none => exact .stay ⟨rfl,rfl,rfl⟩ rfl
  | some fd =>
    cases io.read with
    | wouldBlock => exact .stay ⟨rfl,rfl,rfl⟩ rfl
    | error e =>
      apply Heard.stopped
      · have hstate := transition_resetting_state c.closeUart
        intro ha
        exact nomatch hstate.symm.trans ha
      · rfl
    | data bs hn =>
      cases bs with
      | nil => exact .stay ⟨rfl,rfl,rfl⟩ rfl
      | cons b bs =>
        dsimp only
        split
        · exact ⟨fun _ => hsync _ _,nofun⟩
        · exact ⟨fun _ => hsync _ _,nofun⟩
        · exact ⟨fun _ => rfl,nofun⟩

theorem apply_heard (c : McuChannel) (call : Call) : Heard c call.io.now (c.apply call) := by
  obtain ⟨op,io⟩ := call
  cases op with
  | onFrame ftype payload =>
    simp only [apply,onFrame]
    split_ifs
    · exact .stay ⟨rfl,rfl,rfl⟩ rfl
    · obtain ⟨hc,hr⟩ := uartDrain_alike {c with txbuf := c.txbuf++payload} io
      exact .stay hc hr
    · exact .stay ⟨rfl,rfl,rfl⟩ rfl
  | onLinkConnect => exact .stay ⟨rfl,rfl,rfl⟩ rfl
  | onLinkDisconnect => exact .stay (updateInterest_alike _) rfl
  | tick now =>
    simp only [apply,tick,openUart]
    split
    · split
      · exact .stay ⟨rfl,rfl,rfl⟩ rfl
      · split_ifs
        · split
          · next hfd _ _ _ _ fd _ =>
            refine ⟨fun hne => absurd rfl hne,fun _ ha => ?_⟩
            obtain ⟨hs,hl,-⟩ := updateInterest_alike
              {c with fd := some fd, watch := .fresh, reopenAt := none}
            exact ⟨hs ▸ ha,hl⟩
          · exact .stay ⟨rfl,rfl,rfl⟩ rfl
        · exact .stay ⟨rfl,rfl,rfl⟩ rfl
    · split
      · split_ifs
        · apply Heard.stopped
          · rw [transition_resetting_state]
            decide
          · rfl
        · exact .stay ⟨rfl,rfl,rfl⟩ rfl
      · exact .stay ⟨rfl,rfl,rfl⟩ rfl
  | handleEvent token readable writable =>
    have hdrain : ∀{r : McuChannel × Effect},Heard c io.now r →
        Heard c io.now ((r.1.uartDrain io).1,r.2.next (r.1.uartDrain io).2) := by
      intro r h
      obtain ⟨⟨hs,hl,-⟩,hr⟩ := uartDrain_alike r.1 io
      refine ⟨?_,?_⟩
      · intro hne
        rw [Effect.next_read,hr,List.append_nil] at hne
        exact hl.trans (h.read hne)
      · intro he ha
        rw [Effect.next_read,hr,List.append_nil] at he
        obtain ⟨hc,hl'⟩ := h.quiet he (hs ▸ ha)
        exact ⟨hc,hl.trans hl'⟩
    have hread := uartRead_heard c io
    have hstay : Heard c io.now (c,.quiet) := .stay ⟨rfl,rfl,rfl⟩ rfl
    simp only [apply,handleEvent]
    cases readable with
    | false =>
      cases writable with
      | false => exact hstay
      | true => exact hdrain hstay
    | true =>
      cases writable with
      | false => simpa only [if_true,Bool.false_eq_true,if_false,Effect.next_quiet] using hread
      | true => exact hdrain hread
  | pauseSourceReads => exact .stay c.pauseSourceReads_alike rfl
  | resumeSourceReads => exact .stay c.resumeSourceReads_alike rfl

theorem apply_unread (c : McuChannel) {call : Call} (ho : call.op.isEvent=false) :
    (c.apply call).2.read=[] := by
  obtain ⟨op,io⟩ := call
  cases op with
  | onFrame ftype payload =>
    simp only [apply,onFrame]
    split_ifs
    · rfl
    · exact (uartDrain_alike {c with txbuf := c.txbuf++payload} io).2
    · rfl
  | tick now =>
    simp only [apply,tick]
    split
    · split
      · rfl
      · split_ifs <;> rfl
    · split
      · split_ifs <;> rfl
      · rfl
  | handleEvent => cases ho
  | onLinkConnect => rfl
  | onLinkDisconnect => rfl
  | pauseSourceReads => rfl
  | resumeSourceReads => rfl

/-- A running MCU that has not been heard for too long. -/
def Overdue (c : McuChannel) (now : Instant) : Prop :=
  c.state=.active ∧ ∃last,c.lastRx=some last ∧ resetSilence<now-last

/-- A tick declares a reset exactly of an MCU that is overdue. -/
theorem tick_resets {c : McuChannel} (ha : c.state=.active) (hfd : c.fd≠none) (now : Instant)
    (io : Io) : (c.tick now io).1.state=.resetting ↔ c.Overdue now := by
  obtain ⟨chId,state,fd,watch,txbuf,lastRx,reopenAt,bpPaused,linkUp⟩ := c
  cases ha
  cases fd with
  | none => exact absurd rfl hfd
  | some fd =>
    cases lastRx with
    | none => simp [tick,Overdue]
    | some last =>
      simp only [tick,Overdue,true_and,Option.some.injEq,exists_eq_left']
      split_ifs with hlate
      · exact iff_of_true (transition_resetting_state _) hlate
      · exact iff_of_false nofun hlate

end McuChannel

theorem ChannelMap.set_get_mcu {m : ChannelMap} {id j : UInt8} {call : Call} {c' : McuChannel}
    (h : (m.set id call).get j=some (.mcu c')) :
    j=id ∧ (∃c,m.get j=some (.mcu c) ∧ c'=(c.apply call).1) ∨ j≠id ∧ m.get j=some (.mcu c') := by
  by_cases hj : j=id
  · subst hj
    rw [set_get_self] at h
    obtain ⟨c,hc,he⟩ := Option.map_eq_some_iff.mp h
    cases c with
    | mcu c => exact .inl ⟨rfl,c,hc,(DynChannel.mcu.inj he).symm⟩
    | pty c => exact nomatch he
    | tcpSource c => exact nomatch he
    | tcpDest c => exact nomatch he
  · rw [set_get_other _ _ hj] at h
    exact .inr ⟨hj,h⟩

/-- The running MCUs of `m'` were running in `m` and have not been heard since. -/
def Unheard (m m' : ChannelMap) : Prop :=
  ∀id c',m'.get id=some (.mcu c') → c'.state=.active →
    ∃c,m.get id=some (.mcu c) ∧ c.state=.active ∧ c'.lastRx=c.lastRx

theorem Unheard.refl (m : ChannelMap) : Unheard m m := fun _ c hc ha => ⟨c,hc,ha,rfl⟩

theorem Unheard.call {m₀ m : ChannelMap} (id : UInt8) (call : Call) (ho : call.op.isEvent=false)
    (h : Unheard m₀ m) : Unheard m₀ (m.set id call) := by
  intro j c' hc ha
  rcases ChannelMap.set_get_mcu hc with ⟨-,c,hget,rfl⟩|⟨-,hget⟩
  · obtain ⟨hactive,hrx⟩ := (c.apply_heard call).quiet (c.apply_unread ho) ha
    obtain ⟨c₀,hc₀,ha₀,hrx₀⟩ := h j c hget hactive
    exact ⟨c₀,hc₀,ha₀,hrx.trans hrx₀⟩
  · exact h j c' hget ha

/-- All UARTs keep their invariant. -/
def UartsSound (m : ChannelMap) : Prop := ∀id c,m.get id=some (.mcu c) → c.Sound

theorem UartsSound.call {m : ChannelMap} (id : UInt8) (call : Call) (h : UartsSound m) :
    UartsSound (m.set id call) := by
  intro j c' hc
  rcases ChannelMap.set_get_mcu hc with ⟨-,c,hget,rfl⟩|⟨-,hget⟩
  · exact (h j c hget).apply call
  · exact h j c' hget

theorem fresh_get_mcu {m : ChannelMap} {ios : UInt8 → Io} {id : UInt8} {c : McuChannel}
    (h : (m.fresh ios).get id=some (.mcu c)) : ∃chId,c=.new chId (ios id) := by
  obtain ⟨c₀,-,he⟩ := Option.map_eq_some_iff.mp h
  cases c₀ with
  | mcu c₀ => exact ⟨c₀.chId,(DynChannel.mcu.inj he).symm⟩
  | pty c₀ => exact nomatch he
  | tcpSource c₀ => exact nomatch he
  | tcpDest c₀ => exact nomatch he

theorem fresh_uartsSound (m : ChannelMap) (ios : UInt8 → Io) : UartsSound (m.fresh ios) := by
  intro id c hc
  obtain ⟨chId,rfl⟩ := fresh_get_mcu hc
  exact .new chId _

/-- No MCU runs that has not been heard. -/
theorem fresh_stopped {m : ChannelMap} {ios : UInt8 → Io} {id : UInt8} {c : McuChannel}
    (h : (m.fresh ios).get id=some (.mcu c)) : c.state≠.active := by
  obtain ⟨chId,rfl⟩ := fresh_get_mcu h
  rw [McuChannel.new,(McuChannel.openUart_same _ _).2.1]
  exact nofun

end Serialmux.Channel

import Serialmux.EventLoop.Keepalive
import Serialmux.EventLoop.Run

namespace Serialmux.EventLoop

open Framework Protocol Channel

namespace RunOp

variable {W : Type}

/-- When an operation reads the clock first and last. -/
def begins : RunOp W → Instant
  | .loop op => op.begins
  | .link now _ _ _ _ _ => now

def ends : RunOp W → Instant
  | .loop op => op.ends
  | .link now _ _ _ _ _ => now

/-- The time of the latest loop head after an operation. -/
def headOf (headAt : Instant) : RunOp W → Instant
  | .loop (.turn (.head now _ _ _)) => now
  | _ => headAt

end RunOp

/-- When the peer was last heard, or the link opened, after one more operation. -/
def heardOf {Q W : Type} (d : Daemon Q) (heardAt : Instant) : RunOp W → Instant
  | .loop (.turn (.start now dev)) => if d.disconnected=true ∧ dev.isSome=true then now else heardAt
  | .loop (.turn (.head now later dev _)) =>
    if (d.disconnected=true ∧ d.reopenAt≤now) ∧ dev.isSome=true then later else heardAt
  | .loop (.receive now _ _) => if d.linkFd=none then heardAt else now
  | .link now readable _ (.data (_::_) _) _ _ =>
    if readable=true ∧ d.linkFd≠none then now else heardAt
  | _ => heardAt

/-- A daemon with the time of its last operation and of its last loop head, and the time at which its
peer was last heard. -/
structure Listener (Q : Type) where
  daemon : Daemon Q
  clock : Instant
  headAt : Instant
  heardAt : Instant

namespace Listener

variable {Q W : Type} (lq : LinkQueue Q W) (crc : List UInt8 → UInt32)

def step (s : Listener Q) (op : RunOp W) : Listener Q × Unit :=
  (⟨(s.daemon.step lq crc op).1,op.ends,op.headOf s.headAt,heardOf s.daemon s.heardAt op⟩,())

def new (m : ChannelMap) (start : Instant) : Listener Q := ⟨Daemon.new lq m start,start,start,start⟩

/-- Time goes on, and every operation ends within `period` of the latest loop head. -/
def Paced (period : Nat) (s : Listener Q) (op : RunOp W) : Prop :=
  (s.clock≤op.begins ∧ op.begins≤op.ends) ∧ op.ends≤op.headOf s.headAt+period

instance (period : Nat) (s : Listener Q) (op : RunOp W) : Decidable (Paced period s op) :=
  inferInstanceAs (Decidable (_∧_))

/-- A link that is open has been heard within the timeout, as of the latest loop head. -/
structure Inv (s : Listener Q) : Prop where
  closed : s.daemon.disconnected=true → s.daemon.linkFd=none
  heard : s.daemon.linkFd≠none →
    s.daemon.lastRx=some s.heardAt ∧ s.headAt ≤ s.heardAt+kaTimeout
  head : s.headAt ≤ s.clock

/-- The link is given up within a timeout and a period, and no loop head gives it up earlier. -/
def Judges (period : Nat) (s : Listener Q) (op : RunOp W) : Prop :=
  ((s.step lq crc op).1.daemon.linkFd≠none →
    op.ends≤(s.step lq crc op).1.heardAt+kaTimeout+period) ∧
  ∀now later dev ios,op=.loop (.turn (.head now later dev ios)) → s.daemon.linkFd≠none →
    now ≤ s.heardAt+kaTimeout → (s.step lq crc op).1.daemon.linkFd=s.daemon.linkFd

end Listener

namespace Daemon

variable {Q W : Type} (lq : LinkQueue Q W) (crc : List UInt8 → UInt32)

/-- The keepalive timer closes the link exactly if it was silent for too long. -/
theorem tickKeepalive_link (d : Daemon Q) (now later : Instant) (hd : d.disconnected=false)
    {t : Instant} (hrx : d.lastRx=some t) :
    t+kaTimeout<now ∧ (tickKeepalive lq d now later).linkFd=none ∨
      now≤t+kaTimeout ∧ (tickKeepalive lq d now later).link=d.link := by
  have hsilent : d.lastRx.any (fun last => kaTimeout<now-last)=true ↔ t+kaTimeout<now := by
    rw [hrx]
    simp only [Option.any_some,decide_eq_true_iff]
    unfold Instant at *
    omega
  unfold tickKeepalive
  simp only [hd,Bool.false_eq_true,if_false]
  split_ifs with hlate
  · exact .inl ⟨hsilent.mp hlate,(closeLink_get lq hd later).2.2.1⟩
  · exact .inr ⟨Nat.le_of_not_lt (mt hsilent.mpr hlate),enqueueFrame_link lq d later _⟩
  · exact .inr ⟨Nat.le_of_not_lt (mt hsilent.mpr hlate),rfl⟩

theorem closeLink_linkFd (d : Daemon Q) (now : Instant) (h : d.disconnected=true → d.linkFd=none) :
    (closeLink lq d now).linkFd=none ∧
      ((closeLink lq d now).disconnected=true → (closeLink lq d now).linkFd=none) := by
  cases hd : d.disconnected with
  | true =>
    rw [closeLink,if_pos hd]
    exact ⟨h hd,h⟩
  | false =>
    have hfd := (closeLink_get lq hd now).2.2.1
    exact ⟨hfd,fun _ => hfd⟩

theorem tickKeepalive_none (d : Daemon Q) (now later : Instant) (hfd : d.linkFd=none) :
    (tickKeepalive lq d now later).linkFd=none := by
  unfold tickKeepalive
  split_ifs
  · exact hfd
  · exact (closeLink_linkFd lq d later (fun _ => hfd)).1
  · exact (congrArg Prod.fst (enqueueFrame_link lq d later _)).trans hfd
  · exact hfd

theorem linkWrite_link (d : Daemon Q) (now : Instant) (w : W)
    (h : d.disconnected=true → d.linkFd=none) :
    (linkWrite lq d now w).linkFd=none ∨ (linkWrite lq d now w).link=d.link := by
  have hdrained : ({d with txq := (lq.drain d.txq w).1} : Daemon Q).link=d.link := rfl
  unfold linkWrite
  split_ifs with hfd
  · exact .inl hfd
  · exact .inl (closeLink_linkFd lq {d with txq := (lq.drain d.txq w).1} now h).1
  · exact .inr ((link_kept lq d.link).disarmIfEmpty ((link_kept lq d.link).resumeIfLow hdrained))

/-- A read of an open link: without data nothing changes, with an error it is closed. -/
theorem linkRead_link (d : Daemon Q) (now : Instant) (r : ReadResult 65536) (ios : Nat → Io)
    (h : d.disconnected=true → d.linkFd=none) :
    (linkRead lq crc d now r ios).linkFd=none ∨
      (linkRead lq crc d now r ios).link=
        match r with
        | .data (_::_) _ => (d.linkFd,d.disconnected,some now)
        | _ => d.link := by
  by_cases hfd : d.linkFd=none
  · rw [linkRead.eq_def,if_pos hfd]
    exact .inl hfd
  · cases r with
    | wouldBlock =>
      rw [linkRead,if_neg hfd]
      exact .inr rfl
    | error e =>
      rw [linkRead,if_neg hfd]
      exact .inl (closeLink_linkFd lq d now h).1
    | data bs hn =>
      cases bs with
      | nil =>
        rw [linkRead,if_neg hfd]
        exact .inr rfl
      | cons b bs =>
        right
        rw [linkRead,if_neg hfd]
        dsimp only [dispatchAll]
        have hrun : ∀(ps : List (Frame × Nat)) (d' : Daemon Q),
            (ps.foldl (fun d p => dispatchFrame lq d now (ios p.2) p.1) d').link=d'.link := by
          intro ps
          induction ps with
          | nil => exact fun _ => rfl
          | cons p ps ih => exact fun d' => (ih _).trans (dispatchFrame_link lq d' now _ _)
        exact hrun _ _

end Daemon

namespace Listener

variable {Q W : Type} (lq : LinkQueue Q W) (crc : List UInt8 → UInt32) {s : Listener Q}

/-- How an operation may leave the link: closed, as it was, or heard just now. -/
inductive Leaves (s : Listener Q) (op : RunOp W) : Prop
  | down (hfd : (s.step lq crc op).1.daemon.linkFd=none)
  | kept (hl : (s.step lq crc op).1.daemon.link=s.daemon.link)
      (ht : (s.step lq crc op).1.heardAt=s.heardAt)
  | fresh (hl : (s.step lq crc op).1.daemon.disconnected=true →
        (s.step lq crc op).1.daemon.linkFd=none)
      (hrx : (s.step lq crc op).1.daemon.lastRx=some (s.step lq crc op).1.heardAt)
      (hle : s.clock≤(s.step lq crc op).1.heardAt)

theorem leaves_turn {op : DaemonOp W} (hclosed : s.daemon.disconnected=true → s.daemon.linkFd=none)
    (hclock : s.clock≤(RunOp.loop (.turn op)).begins)
    (hop : ∀now later dev ios,op≠.head now later dev ios) :
    Leaves lq crc s (.loop (.turn op)) := by
  cases op with
  | head now later dev ios => exact absurd rfl (hop now later dev ios)
  | start now dev =>
    by_cases hd : s.daemon.disconnected=true
    · have hsame : (s.step lq crc (.loop (.turn (.start now dev)))).1.daemon=
          Daemon.openLink lq s.daemon now dev := if_pos hd
      cases dev with
      | none =>
        refine .kept (by rw [hsame]; rfl) ?_
        exact if_neg (by simp)
      | some fd =>
        have ht : (s.step lq crc (.loop (.turn (.start now (some fd))))).1.heardAt=now :=
          if_pos ⟨hd,rfl⟩
        refine .fresh (by rw [hsame]; exact fun h => absurd h (by simp [Daemon.openLink])) ?_ ?_
        · rw [hsame,ht]
          rfl
        · rw [ht]
          exact hclock
    · have hsame : (s.step lq crc (.loop (.turn (.start now dev)))).1.daemon=s.daemon := if_neg hd
      refine .kept (by rw [hsame]) ?_
      exact if_neg (fun h => hd h.1)
  | event now token readable writable io =>
    exact .kept ((Daemon.link_kept lq s.daemon.link).channelEvent now (fun _ => trivial) rfl) rfl
  | send now w =>
    rcases Daemon.linkWrite_link lq s.daemon now w hclosed with h|h
    · exact .down h
    · exact .kept h rfl
  | readError now =>
    by_cases hfd : s.daemon.linkFd=none
    · have hsame : (s.step lq crc (.loop (.turn (.readError now)))).1.daemon=s.daemon := if_pos hfd
      exact .kept (by rw [hsame]) rfl
    · have hsame : (s.step lq crc (.loop (.turn (.readError now)))).1.daemon=
          Daemon.closeLink lq s.daemon now := if_neg hfd
      exact .down (by rw [hsame]; exact (Daemon.closeLink_linkFd lq s.daemon now hclosed).1)
  | restart now ios => exact .down rfl

theorem leaves_receive {now : Instant} {io : Io} {f : Frame}
    (hclosed : s.daemon.disconnected=true → s.daemon.linkFd=none)
    (hclock : s.clock≤now) : Leaves lq crc s (.loop (.receive now io f) : RunOp W) := by
  by_cases hfd : s.daemon.linkFd=none
  · have hsame : (s.step lq crc (.loop (.receive now io f) : RunOp W)).1.daemon=s.daemon :=
      if_pos hfd
    exact .kept (by rw [hsame]) (if_pos hfd)
  · have hsame : (s.step lq crc (.loop (.receive now io f) : RunOp W)).1.daemon=
        Daemon.dispatchFrame lq {s.daemon with lastRx := some now} now io f := if_neg hfd
    have ht : (s.step lq crc (.loop (.receive now io f) : RunOp W)).1.heardAt=now := if_neg hfd
    have hlink := Daemon.dispatchFrame_link lq {s.daemon with lastRx := some now} now io f
    rw [← hsame] at hlink
    simp only [Daemon.link,Prod.mk.injEq] at hlink
    refine .fresh ?_ ?_ ?_
    · rw [hlink.1,hlink.2.1]
      exact hclosed
    · rw [hlink.2.2,ht]
    · rw [ht]
      exact hclock

theorem leaves_link {now : Instant} {readable writable : Bool} {r : ReadResult 65536}
    {ios : Nat → Io} {w : W} (hclosed : s.daemon.disconnected=true → s.daemon.linkFd=none)
    (hclock : s.clock≤now) : Leaves lq crc s (.link now readable writable r ios w) := by
  -- A write keeps the link or closes it.
  have hwrite : ∀d : Daemon Q,(d.disconnected=true → d.linkFd=none) →
      (if writable then Daemon.linkWrite lq d now w else d).linkFd=none ∨
        (if writable then Daemon.linkWrite lq d now w else d).link=d.link := by
    intro d hd
    split_ifs
    · exact Daemon.linkWrite_link lq d now w hd
    · exact .inr rfl
  have hsame : (s.step lq crc (.link now readable writable r ios w)).1.daemon=
      if writable then
        Daemon.linkWrite lq (if readable then Daemon.linkRead lq crc s.daemon now r ios
          else s.daemon) now w
      else if readable then Daemon.linkRead lq crc s.daemon now r ios else s.daemon := rfl
  cases readable with
  | false =>
    simp only [Bool.false_eq_true,if_false] at hsame
    have ht : (s.step lq crc (.link now false writable r ios w)).1.heardAt=s.heardAt := by
      cases r with
      | data bs hn => cases bs <;> rfl
      | wouldBlock => rfl
      | error e => rfl
    rcases hwrite s.daemon hclosed with h|h
    · exact .down (by rw [hsame]; exact h)
    · exact .kept (by rw [hsame]; exact h) ht
  | true =>
    simp only [if_true] at hsame
    have hread := Daemon.linkRead_link lq crc s.daemon now r ios hclosed
    generalize Daemon.linkRead lq crc s.daemon now r ios=d at hsame hread
    -- After the read a write changes nothing more, or closes the link.
    have hdown : d.linkFd=none → Leaves lq crc s (.link now true writable r ios w) := by
      intro hn
      rcases hwrite d (fun _ => hn) with h|h
      · exact .down (by rw [hsame]; exact h)
      · have hfd := congrArg Prod.fst h
        exact .down (by rw [hsame]; exact hfd.trans hn)
    rcases hread with hn|hl
    · exact hdown hn
    · have hquiet : d.link=s.daemon.link → (s.step lq crc (.link now true writable r ios w)).1.heardAt=
          s.heardAt → Leaves lq crc s (.link now true writable r ios w) := by
        intro hl ht
        have hc : d.disconnected=true → d.linkFd=none := by
          simp only [Daemon.link,Prod.mk.injEq] at hl
          rw [hl.1,hl.2.1]
          exact hclosed
        rcases hwrite d hc with h|h
        · exact .down (by rw [hsame]; exact h)
        · exact .kept (by rw [hsame]; exact h.trans hl) ht
      cases r with
      | wouldBlock => exact hquiet hl rfl
      | error e => exact hquiet hl rfl
      | data bs hn =>
        cases bs with
        | nil => exact hquiet hl rfl
        | cons b bs =>
          by_cases hfd : s.daemon.linkFd=none
          · exact hdown ((congrArg Prod.fst hl).trans hfd)
          · have ht : (s.step lq crc (.link now true writable (.data (b::bs) hn) ios w)).1.heardAt=
                now := if_pos ⟨rfl,hfd⟩
            have hc : d.disconnected=true → d.linkFd=none := by
              simp only [Daemon.link,Prod.mk.injEq] at hl
              rw [hl.1,hl.2.1]
              exact hclosed
            rcases hwrite d hc with h|h
            · exact .down (by rw [hsame]; exact h)
            · have hall := h.trans hl
              rw [← hsame] at hall
              simp only [Daemon.link,Prod.mk.injEq] at hall
              refine .fresh ?_ ?_ ?_
              · rw [hall.1,hall.2.1]
                exact hclosed
              · rw [hall.2.2,ht]
              · rw [ht]
                exact hclock

/-- The loop head: the link is closed exactly if it was silent for too long. -/
theorem head_judges {now later : Instant} {dev : Option RawFd} {ios : UInt8 → Io}
    (h : Inv s) (hclock : s.clock≤now ∧ now≤later) :
    Inv (s.step lq crc (.loop (.turn (.head now later dev ios)) : RunOp W)).1 ∧
      (s.daemon.linkFd≠none → now ≤ s.heardAt+kaTimeout →
        (s.step lq crc (.loop (.turn (.head now later dev ios)) : RunOp W)).1.daemon.linkFd=
          s.daemon.linkFd) := by
  have hsame : (s.step lq crc (.loop (.turn (.head now later dev ios)) : RunOp W)).1=
      ⟨Daemon.loopHead lq s.daemon now later dev ios,later,now,
        if (s.daemon.disconnected=true ∧ s.daemon.reopenAt≤now) ∧ dev.isSome=true then later
        else s.heardAt⟩ := rfl
  have htail : ∀d : Daemon Q,(Daemon.armIfQueued lq
      (Daemon.eachChannel lq d (fun id => ⟨.tick now,ios id⟩)) later).link=d.link := by
    intro d
    have hticks : (Daemon.eachChannel lq d (fun id => ⟨.tick now,ios id⟩)).link=d.link :=
      (Daemon.link_kept lq d.link).each (fun _ => trivial) rfl
    unfold Daemon.armIfQueued
    split_ifs
    · exact hticks
    · exact (Daemon.link_kept lq d.link).interest true hticks
  rw [hsame]
  unfold Daemon.loopHead
  by_cases hdue : s.daemon.disconnected=true ∧ s.daemon.reopenAt≤now
  · have hclosed := h.closed hdue.1
    have hreopen : Daemon.reopenIfDue lq s.daemon now later dev=
        Daemon.openLink lq s.daemon later dev := if_pos hdue
    rw [hreopen]
    refine ⟨?_,fun hfd => absurd hclosed hfd⟩
    cases dev with
    | none =>
      have hquiet : Daemon.tickKeepalive lq (Daemon.openLink lq s.daemon later none) now later=
          Daemon.openLink lq s.daemon later none := if_pos hdue.1
      have hlink := htail (Daemon.tickKeepalive lq (Daemon.openLink lq s.daemon later none) now later)
      rw [hquiet] at hlink ⊢
      have hfd : _=none := (congrArg Prod.fst hlink).trans hclosed
      exact ⟨fun _ => hfd,fun hn => absurd hfd hn,hclock.2⟩
    | some fd =>
      have hrx : (Daemon.openLink lq s.daemon later (some fd)).lastRx=some later := rfl
      have hlink := htail (Daemon.tickKeepalive lq
        (Daemon.openLink lq s.daemon later (some fd)) now later)
      have hnow : now≤later+kaTimeout := Nat.le_add_right_of_le hclock.2
      simp only [hdue,Option.isSome_some,and_self,if_true]
      rcases Daemon.tickKeepalive_link lq (Daemon.openLink lq s.daemon later (some fd)) now later
        rfl hrx with ⟨hlate,-⟩|⟨-,hkept⟩
      · exact absurd hnow (Nat.not_le_of_lt hlate)
      · rw [hkept] at hlink
        simp only [Daemon.link,Prod.mk.injEq] at hlink
        refine ⟨?_,fun _ => ⟨hlink.2.2,hnow⟩,hclock.2⟩
        intro hd
        rw [hlink.2.1] at hd
        exact absurd hd (by simp [Daemon.openLink])
  · have hreopen : Daemon.reopenIfDue lq s.daemon now later dev=s.daemon := if_neg hdue
    have hheard : (if (s.daemon.disconnected=true ∧ s.daemon.reopenAt≤now) ∧ dev.isSome=true then
        later else s.heardAt)=s.heardAt := if_neg (fun hn => hdue hn.1)
    rw [hreopen,hheard]
    have hlink := htail (Daemon.tickKeepalive lq s.daemon now later)
    by_cases hfd : s.daemon.linkFd=none
    · have hdown := (congrArg Prod.fst hlink).trans (Daemon.tickKeepalive_none lq _ now later hfd)
      exact ⟨⟨fun _ => hdown,fun hn => absurd hdown hn,hclock.2⟩,fun hn => absurd hfd hn⟩
    · obtain ⟨hrx,-⟩ := h.heard hfd
      have hdis : s.daemon.disconnected=false := by
        by_contra hd
        exact hfd (h.closed (by simpa using hd))
      rcases Daemon.tickKeepalive_link lq s.daemon now later hdis hrx with ⟨hlate,hnone⟩|⟨hle,hkept⟩
      · have hdown := (congrArg Prod.fst hlink).trans hnone
        exact ⟨⟨fun _ => hdown,fun hn => absurd hdown hn,hclock.2⟩,
          fun _ hn => absurd hn (Nat.not_le_of_lt hlate)⟩
      · rw [hkept] at hlink
        simp only [Daemon.link,Prod.mk.injEq] at hlink
        refine ⟨⟨?_,fun _ => ⟨hlink.2.2.trans hrx,hle⟩,hclock.2⟩,fun _ _ => hlink.1⟩
        intro hd
        rw [hlink.2.1,hdis] at hd
        simp at hd

theorem Inv.new (m : ChannelMap) (start : Instant) : Inv (new lq m start) :=
  ⟨fun _ => rfl,fun h => absurd rfl h,Nat.le_refl _⟩

/-- Between two loop heads the bound stays: what is heard anew is heard after the last head. -/
theorem Inv.leaves {op : RunOp W} (h : Inv s) (hl : Leaves lq crc s op)
    (hclock : s.clock≤op.begins ∧ op.begins≤op.ends) (hhead : op.headOf s.headAt=s.headAt) :
    Inv (s.step lq crc op).1 := by
  have hat : (s.step lq crc op).1.headAt=s.headAt := hhead
  have hpast : (s.step lq crc op).1.headAt≤(s.step lq crc op).1.clock := by
    rw [hat]
    exact Nat.le_trans h.head (Nat.le_trans hclock.1 hclock.2)
  cases hl with
  | down hfd => exact ⟨fun _ => hfd,fun hn => absurd hfd hn,hpast⟩
  | kept hl ht =>
    simp only [Daemon.link,Prod.mk.injEq] at hl
    refine ⟨?_,?_,hpast⟩
    · rw [hl.1,hl.2.1]
      exact h.closed
    · rw [hl.1,hl.2.2,ht,hat]
      exact h.heard
  | fresh hl hrx hle =>
    refine ⟨hl,fun _ => ⟨hrx,?_⟩,hpast⟩
    rw [hat]
    exact Nat.le_add_right_of_le (Nat.le_trans h.head hle)

theorem Inv.step {op : RunOp W} (h : Inv s)
    (hclock : s.clock≤op.begins ∧ op.begins≤op.ends) : Inv (s.step lq crc op).1 := by
  cases op with
  | loop op =>
    cases op with
    | turn op =>
      cases op with
      | head now later dev ios => exact (head_judges lq crc h hclock).1
      | start now dev =>
        exact h.leaves lq crc (leaves_turn lq crc h.closed hclock.1 (by simp)) hclock rfl
      | event now token readable writable io =>
        exact h.leaves lq crc (leaves_turn lq crc h.closed hclock.1 (by simp)) hclock rfl
      | send now w => exact h.leaves lq crc (leaves_turn lq crc h.closed hclock.1 (by simp)) hclock rfl
      | readError now =>
        exact h.leaves lq crc (leaves_turn lq crc h.closed hclock.1 (by simp)) hclock rfl
      | restart now ios =>
        exact h.leaves lq crc (leaves_turn lq crc h.closed hclock.1 (by simp)) hclock rfl
    | receive now io f => exact h.leaves lq crc (leaves_receive lq crc h.closed hclock.1) hclock rfl
  | link now readable writable r ios w =>
    exact h.leaves lq crc (leaves_link lq crc h.closed hclock.1) hclock rfl

/-- A peer that falls silent is noticed: while a link is open, it was opened or its peer heard within
the timeout and the length of a pass, and the keepalive timer closes no link that was opened or heard
within the timeout. -/
theorem silent_peer_detected {period : Nat} (m : ChannelMap) (start : Instant)
    {ops : List (RunOp W)}
    (h : Always (Listener.step lq crc) (Paced period) (new lq m start) ops) :
    Always (Listener.step lq crc) (Judges lq crc period) (new lq m start) ops := by
  refine always_of_always (Listener.step lq crc) (P := Inv) ?_ (Inv.new lq m start) h
  intro s op hinv ⟨hclock,hpaced⟩
  have hnext := hinv.step lq crc hclock
  refine ⟨⟨?_,?_⟩,hnext⟩
  · intro hfd
    have hbound := (hnext.heard hfd).2
    have hat : (s.step lq crc op).1.headAt=op.headOf s.headAt := rfl
    rw [← hat] at hpaced
    unfold Instant at *
    omega
  · intro now later dev ios hop
    subst hop
    exact (head_judges lq crc hinv hclock).2

/-- A peer that says one frame after the link was opened, and then nothing. -/
def lastWords : List (RunOp (Option Nat)) :=
  [.loop (.turn (.start 0 (some 3))),.loop (.receive (secs 1) Io.idle (Daemon.controlFrame fHello)),
    .loop (.turn (.head (secs 5) (secs 5) none (fun _ => Io.idle))),
    .loop (.turn (.head (secs 10) (secs 10) none (fun _ => Io.idle))),
    .loop (.turn (.head (secs 12) (secs 12) none (fun _ => Io.idle)))]

theorem silent_peer_detected_gone :
    Always (Listener.step fifoLink (fun _ => 0)) (Judges fifoLink (fun _ => 0) (secs 5))
      (new fifoLink (.single (.pty (.new 0))) 0) lastWords ∧
    (after (Listener.step fifoLink (fun _ => 0)) (new fifoLink (.single (.pty (.new 0))) 0)
      lastWords).daemon.linkFd=none :=
  ⟨silent_peer_detected fifoLink (fun _ => 0) (.single (.pty (.new 0))) 0 (by decide +kernel),
    by decide +kernel⟩

end Listener

end Serialmux.EventLoop

import Serialmux.Channel.TcpSlot

namespace Serialmux.Channel

open Protocol Framework

/-- No F_TCLOSE among some frames. -/
def Unclosed (fs : List Frame) : Prop := ∀f∈fs,f.ftype≠fTclose

/-- Frames that end with the first F_TCLOSE among them. -/
def SaysBye (fs : List Frame) : Prop := ∃pre f,fs=pre++[f] ∧ Unclosed pre ∧ f.ftype=fTclose

/-- How a local event may part with a connection: it stays as it is, and silent once the peer has
gone; or it goes with an F_TCLOSE; or it goes without one, because the peer has gone and everything
that was pending has been written. -/
structure PartsOp (op : SlotOp) : Prop where
  stays : ∀c c',(op (some c)).1=some c' → c'.closePending=c.closePending ∧
    Unclosed (op (some c)).2.frames ∧ (c.closePending=true → (op (some c)).2.frames=[])
  leaves : ∀c,(op (some c)).1=none → SaysBye (op (some c)).2.frames ∨
    c.closePending=true ∧ (op (some c)).2.frames=[] ∧ (op (some c)).2.wrote=c.txbuf

theorem Unclosed.nil : Unclosed [] := fun _ h => absurd h List.not_mem_nil

theorem Unclosed.append {fs gs : List Frame} (hf : Unclosed fs) (hg : Unclosed gs) :
    Unclosed (fs++gs) := by
  intro f h
  rcases List.mem_append.mp h with h|h
  · exact hf f h
  · exact hg f h

theorem Unclosed.bye {fs gs : List Frame} (hf : Unclosed fs) (hg : SaysBye gs) :
    SaysBye (fs++gs) := by
  obtain ⟨pre,f,rfl,hpre,hbye⟩ := hg
  exact ⟨fs++pre,f,(List.append_assoc ..).symm,hf.append hpre,hbye⟩

theorem unclosed_tdataFrames (chId : UInt8) (slot : Slot) (bs : List UInt8) :
    Unclosed (tdataFrames chId slot bs) := by
  intro f hf
  rw [tdataFrames_ftype hf]
  decide

theorem saysBye_tclose (chId : UInt8) (slot : Slot) : SaysBye [tcloseFrame chId slot] :=
  ⟨[],_,rfl,.nil,rfl⟩

namespace PartsOp

theorem skip : PartsOp .skip where
  stays := by
    intro c c' h
    obtain rfl := Option.some.inj h
    exact ⟨rfl,.nil,fun _ => rfl⟩
  leaves _ h := by cases h

theorem seq {f g : SlotOp} (hf : PartsOp f) (hg : PartsOp g) (lf : LocalOp f) (lg : LocalOp g) :
    PartsOp (.seq f g) := by
  have hmid : ∀c m,(f (some c)).1=some m → SlotOp.seq f g (some c)=
      ((g (some m)).1,(f (some c)).2.next (g (some m)).2) := by
    intro c m hm
    simp only [SlotOp.seq,hm]
  have hend : ∀c,(f (some c)).1=none → SlotOp.seq f g (some c)=(none,(f (some c)).2) := by
    intro c hm
    simp only [SlotOp.seq,hm,lg.empty,Effect.next_quiet]
  constructor
  · intro c c' h
    cases hm : (f (some c)).1 with
    | none =>
      rw [hend c hm] at h
      cases h
    | some m =>
      rw [hmid c m hm] at h ⊢
      obtain ⟨hp,hu,hq⟩ := hf.stays c m hm
      obtain ⟨hp',hu',hq'⟩ := hg.stays m c' h
      refine ⟨hp'.trans hp,hu.append hu',?_⟩
      intro hc
      rw [Effect.next_frames,hq hc,hq' (hp.trans hc),List.append_nil]
  · intro c h
    cases hm : (f (some c)).1 with
    | none =>
      rw [hend c hm]
      exact hf.leaves c hm
    | some m =>
      rw [hmid c m hm] at h ⊢
      obtain ⟨hp,hu,hq⟩ := hf.stays c m hm
      rcases hg.leaves m h with hbye|⟨hc,hnil,hw⟩
      · exact .inl (hu.bye hbye)
      · -- What the first part wrote and what the second wrote are all that was pending.
        have hout := (lf.occupied c).kept m hm
        refine .inr ⟨hp.symm.trans hc,?_,?_⟩
        · rw [Effect.next_frames,hq (hp.symm.trans hc),hnil,List.append_nil]
        · rw [Effect.next_wrote,hw,hout.2]

theorem guard {f : SlotOp} (b : Bool) (hf : PartsOp f) : PartsOp (.guard b f) := by
  cases b with
  | false => exact skip
  | true => exact hf

end PartsOp

section Slot

variable (chId : UInt8) (slot : Slot)

theorem updateConnInterest_parts (interest : TcpConn → Option Interest) :
    PartsOp (updateConnInterest interest) where
  stays := by
    intro c c' h
    obtain rfl := Option.some.inj h
    exact ⟨rfl,.nil,fun _ => rfl⟩
  leaves _ h := by cases h

/-- The loop does not read a connection whose peer has gone, so that it can only stay. -/
theorem readLoop_parts {blocked : TcpConn → Bool}
    (hb : ∀c : TcpConn,c.closePending=true → blocked c=true) (rs : List (ReadResult 65536)) :
    PartsOp (readLoop chId slot true blocked rs) := by
  induction rs with
  | nil => exact .skip
  | cons r rs ih =>
    have hclose : ∀c,readLoop chId slot true blocked (r::rs) (some c)=
        closeSlot chId slot true (some c) →
        (readLoop chId slot true blocked (r::rs) (some c)).1=none ∧
          SaysBye (readLoop chId slot true blocked (r::rs) (some c)).2.frames := by
      intro c h
      rw [h]
      exact ⟨rfl,saysBye_tclose chId slot⟩
    have hquiet : ∀c,readLoop chId slot true blocked (r::rs) (some c)=(some c,.quiet) →
        (readLoop chId slot true blocked (r::rs) (some c)).1=some c ∧
          (readLoop chId slot true blocked (r::rs) (some c)).2.frames=[] := by
      intro c h
      rw [h]
      exact ⟨rfl,rfl⟩
    have hmore : ∀c b bs hn,r=.data (b::bs) hn → blocked c=false →
        readLoop chId slot true blocked (r::rs) (some c)=
          ((readLoop chId slot true blocked rs (some c)).1,
            Effect.next ⟨tdataFrames chId slot (b::bs),b::bs,[]⟩
              (readLoop chId slot true blocked rs (some c)).2) := by
      intro c b bs hn hr hbl
      rw [hr,readLoop.eq_def]
      simp only [hbl,Bool.false_eq_true,if_false]
    have hcases : ∀c,readLoop chId slot true blocked (r::rs) (some c)=(some c,.quiet) ∨
        readLoop chId slot true blocked (r::rs) (some c)=closeSlot chId slot true (some c) ∨
        ∃b bs hn,r=.data (b::bs) hn ∧ blocked c=false := by
      intro c
      cases hbl : blocked c with
      | true => exact .inl (by rw [readLoop.eq_def]; simp only [hbl,if_true])
      | false =>
        cases r with
        | wouldBlock => exact .inl (by rw [readLoop,hbl]; rfl)
        | error e => exact .inr (.inl (by rw [readLoop,hbl]; rfl))
        | data bs hn =>
          cases bs with
          | nil => exact .inr (.inl (by rw [readLoop,hbl]; rfl))
          | cons b bs => exact .inr (.inr ⟨b,bs,hn,rfl,rfl⟩)
    constructor
    · intro c c' h
      rcases hcases c with hq|hc|⟨b,bs,hn,hr,hbl⟩
      · obtain ⟨h₁,h₂⟩ := hquiet c hq
        obtain rfl := Option.some.inj (h₁.symm.trans h)
        rw [h₂]
        exact ⟨rfl,.nil,fun _ => rfl⟩
      · rw [(hclose c hc).1] at h
        cases h
      · rw [hmore c b bs hn hr hbl] at h ⊢
        obtain ⟨hp,hu,-⟩ := ih.stays c c' h
        refine ⟨hp,(unclosed_tdataFrames chId slot (b::bs)).append hu,?_⟩
        intro hcp
        rw [hb c hcp] at hbl
        cases hbl
    · intro c h
      rcases hcases c with hq|hc|⟨b,bs,hn,hr,hbl⟩
      · rw [(hquiet c hq).1] at h
        cases h
      · exact .inl (hclose c hc).2
      · rw [hmore c b bs hn hr hbl] at h ⊢
        rcases ih.leaves c h with hbye|⟨hcp,-,-⟩
        · exact .inl ((unclosed_tdataFrames chId slot (b::bs)).bye hbye)
        · rw [hb c hcp] at hbl
          cases hbl

theorem writeSlot_parts (ready : TcpConn → Bool) (w : WriteResult) :
    PartsOp (writeSlot chId slot true ready w) := by
  have hcases : ∀c,writeSlot chId slot true ready w (some c)=closeSlot chId slot true (some c) ∨
      ∃c' out,writeTxbuf ready w c=some (c',out) ∧
        writeSlot chId slot true ready w (some c)=
          if c'.txbuf=[] ∧ c'.closePending=true then (none,⟨[],[],out⟩) else (some c',⟨[],[],out⟩) := by
    intro c
    rw [writeSlot]
    cases hw : writeTxbuf ready w c with
    | none => exact .inl rfl
    | some p => exact .inr ⟨p.1,p.2,rfl,rfl⟩
  constructor
  · intro c c' h
    rcases hcases c with hc|⟨c₁,out,hw,hc⟩
    · rw [hc] at h
      cases h
    · obtain ⟨-,hp,-⟩ := writeTxbuf_kept hw
      rw [hc] at h ⊢
      split_ifs at h ⊢ with hdone
      obtain rfl := Option.some.inj h
      exact ⟨hp,.nil,fun _ => rfl⟩
  · intro c h
    rcases hcases c with hc|⟨c₁,out,hw,hc⟩
    · rw [hc]
      exact .inl (saysBye_tclose chId slot)
    · obtain ⟨-,hp,hout⟩ := writeTxbuf_kept hw
      rw [hc] at h ⊢
      split_ifs at h ⊢ with hdone
      · rw [hdone.1,List.append_nil] at hout
        exact .inr ⟨hp.symm.trans hdone.2,rfl,hout⟩

end Slot

theorem TcpSourceChannel.slotEvent_parts (s : TcpSourceChannel) (hup : s.linkUp=true) (slot : Slot)
    (readable writable : Bool) (io : Io) : PartsOp (s.slotEvent slot readable writable io) := by
  unfold slotEvent
  rw [hup]
  refine .seq (.guard _ (readLoop_parts _ _ (fun _ h => h) _)) (.guard _ (.seq
    (writeSlot_parts _ _ _ _) (updateConnInterest_parts _) (writeSlot_local _ _ _ _ _)
    (updateConnInterest_local _))) (.guard _ (readLoop_local _ _ _ _ _)) (.guard _ ?_)
  exact .seq (writeSlot_local _ _ _ _ _) (updateConnInterest_local _)

namespace TcpDestChannel

theorem finishConnect_parts (chId : UInt8) (slot : Slot) (writable : Bool) (io : Io) :
    PartsOp (finishConnect chId slot writable io) := by
  constructor
  · intro c c' h
    rw [finishConnect] at h ⊢
    split_ifs at h ⊢
    · obtain rfl := Option.some.inj h
      exact ⟨rfl,.nil,fun _ => rfl⟩
    · cases h
    · obtain rfl := Option.some.inj h
      exact ⟨rfl,.nil,fun _ => rfl⟩
  · intro c h
    rw [finishConnect] at h ⊢
    split_ifs at h ⊢
    exact .inl (saysBye_tclose chId slot)

theorem slotEvent_parts (d : TcpDestChannel) (slot : Slot) (readable writable : Bool) (io : Io) :
    PartsOp (d.slotEvent slot readable writable io) := by
  have hblocked : ∀c : TcpConn,c.closePending=true → (c.connecting || c.closePending)=true := by
    intro c h
    rw [h,Bool.or_true]
  have hread := readLoop_local d.chId slot true (fun c => c.connecting || c.closePending) io.reads
  have hwrite := writeSlot_local d.chId slot true (fun c => !c.connecting) io.write
  have hinterest := updateConnInterest_local (dstConnInterest d.bpPaused)
  have hlast := LocalOp.seq (.guard readable hread) hinterest
  exact .seq (finishConnect_parts _ _ _ _)
    (.seq (.guard _ (writeSlot_parts _ _ _ _))
      (.seq (.guard _ (readLoop_parts _ _ hblocked _)) (updateConnInterest_parts _)
        (.guard _ hread) hinterest) (.guard _ hwrite) hlast)
    (finishConnect_local _ _ _ _) (.seq (.guard _ hwrite) hlast)

end TcpDestChannel

/-- How a frame that is delivered may part with a connection: data leave it as it is or end it with
an F_TCLOSE; an F_TCLOSE ends it in silence if nothing is pending, and makes it wait otherwise. -/
structure PartsFrame (f : Frame) (op : SlotOp) : Prop where
  stays : ∀c c',(op (some c)).1=some c' → (op (some c)).2.frames=[] ∧
    c'.closePending=(c.closePending || decide (f.ftype=fTclose))
  leaves : ∀c,(op (some c)).1=none → SaysBye (op (some c)).2.frames ∨
    f.ftype=fTclose ∧ (op (some c)).2.frames=[] ∧ c.txbuf=[]

section Frames

variable (chId : UInt8) (slot : Slot) (interest : TcpConn → Option Interest) {f : Frame}

theorem onTdata_parts (hf : f.ftype≠fTclose) (data : List UInt8) :
    PartsFrame f (onTdata chId slot true interest data) := by
  constructor
  · intro c c' h
    rw [onTdata] at h ⊢
    split_ifs at h ⊢
    · obtain rfl := Option.some.inj h
      simp [hf]
    · cases h
    · obtain rfl := Option.some.inj h
      simp [hf,updateConnInterest]
  · intro c h
    rw [onTdata] at h ⊢
    split_ifs at h ⊢
    · exact .inl (saysBye_tclose chId slot)
    · cases h

theorem onTclose_parts (hf : f.ftype=fTclose) : PartsFrame f (onTclose chId slot interest) := by
  constructor
  · intro c c' h
    rw [onTclose] at h ⊢
    split_ifs at h ⊢
    · cases h
    · obtain rfl := Option.some.inj h
      simp [hf,updateConnInterest]
  · intro c h
    rw [onTclose] at h ⊢
    split_ifs at h ⊢ with hnil
    · exact .inr ⟨hf,rfl,hnil⟩
    · cases h

theorem PartsFrame.skip (hf : f.ftype≠fTclose) : PartsFrame f .skip where
  stays := by
    intro c c' h
    obtain rfl := Option.some.inj h
    simp [SlotOp.skip,hf]
  leaves _ h := by cases h

end Frames

theorem TcpSourceChannel.slotFrame_parts (s : TcpSourceChannel) (hup : s.linkUp=true) (slot : Slot)
    (f : Frame) (data : List UInt8) : PartsFrame f (s.slotFrame slot f.ftype data) := by
  unfold slotFrame
  rw [hup]
  split_ifs with hd hc
  · exact onTdata_parts _ _ _ (by rw [hd]; decide) _
  · exact onTclose_parts _ _ _ hc
  · exact .skip hc

theorem TcpDestChannel.slotFrame_parts (d : TcpDestChannel) (slot : Slot) {f : Frame}
    (hf : f.ftype≠fTconn) (data : List UInt8) (io : Io) :
    PartsFrame f (d.slotFrame slot f.ftype data io) := by
  unfold slotFrame
  rw [if_neg hf]
  split_ifs with hd hc
  · exact onTdata_parts _ _ _ (by rw [hd]; decide) _
  · exact onTclose_parts _ _ _ hc
  · exact .skip hc

end Serialmux.Channel

import Serialmux.Channel.TcpLive
import Serialmux.System.Parting

namespace Serialmux.System

open Protocol Framework Channel

namespace Tunnel

variable {owner : Slot → Option Nat} {t : Tunnel} {k : Slot} {n : Nat}

/-- A slot with nothing in it, or with another connection, is not the slot of `n`. -/
theorem Inv.srcOther (h : Inv owner t) {j : Slot} {c : TcpConn} (hk : owner k=some n)
    (hc : t.src.conns j=some c) (hj : k≠j) : n≠c.stream := by
  rintro rfl
  exact hj (h.distinct _ _ _ hk (h.srcOwner hc))

theorem Inv.dstOther (h : Inv owner t) {j : Slot} {c : TcpConn} (hk : owner k=some n)
    (hc : t.dst.conns j=some c) (hj : k≠j) : n≠c.stream := by
  rintro rfl
  exact hj (h.distinct _ _ _ hk (h.dstOwner hc))

theorem srcEvent_lane (h : Inv owner t) (hup : t.src.linkUp=true) (slot : Slot)
    (readable writable : Bool) (io : Io) (hk : owner k=some n) :
    LaneStep (t.lane k n) ((t.step (.srcEvent slot readable writable io)).lane k n) := by
  have hop := t.src.slotEvent_local slot readable writable io
  have hcid : ∀f∈(t.src.slotEvent slot readable writable io (t.src.conns slot)).2.frames,
      cidOf f=some slot :=
    fun f hf => (t.src.slotEvent_sends slot readable writable io _ f hf).cid
  have hp := t.src.slotEvent_parts hup slot readable writable io
  simp only [step,TcpSourceChannel.apply_slotEvent]
  by_cases hks : k=slot
  · subst hks
    have hact := LaneStep.srcLocal (l := t.lane k n) hop hp
    cases hc : t.src.conns k with
    | none => simpa [lane,Lane.srcLocal,hc,hop.empty,numberOf] using hact
    | some c =>
      rw [hc] at hcid
      have hn : c.stream=n := Option.some.inj ((h.srcOwner hc).symm.trans hk)
      simpa [lane,Lane.srcLocal,hc,numberOf,hn,framesFor_tagged_self _ hcid] using hact
  · cases hc : t.src.conns slot with
    | none => simpa [lane,hc,hop.empty,numberOf,atSlot_other _ hks] using LaneStep.rest
    | some c =>
      rw [hc] at hcid
      have hn := h.srcOther hk hc hks
      simpa [lane,hc,numberOf,atSlot_other _ hks,framesFor_tagged_other _ hcid hks,
        record_other _ _ hn] using LaneStep.rest

theorem dstEvent_lane (h : Inv owner t) (slot : Slot) (readable writable : Bool) (io : Io)
    (hk : owner k=some n) :
    LaneStep (t.lane k n) ((t.step (.dstEvent slot readable writable io)).lane k n) := by
  have hop := t.dst.slotEvent_local slot readable writable io
  have hcid : ∀f∈(t.dst.slotEvent slot readable writable io (t.dst.conns slot)).2.frames,
      cidOf f=some slot :=
    fun f hf => (t.dst.slotEvent_sends slot readable writable io _ f hf).cid
  have hp := t.dst.slotEvent_parts slot readable writable io
  simp only [step,TcpDestChannel.apply_slotEvent]
  by_cases hks : k=slot
  · subst hks
    have hact := LaneStep.dstLocal (l := t.lane k n) hop hp
    cases hc : t.dst.conns k with
    | none => simpa [lane,Lane.dstLocal,hc,hop.empty,numberOf] using hact
    | some c =>
      rw [hc] at hcid
      have hn : c.stream=n := Option.some.inj ((h.dstOwner hc).symm.trans hk)
      simpa [lane,Lane.dstLocal,hc,numberOf,hn,framesFor_tagged_self _ hcid] using hact
  · cases hc : t.dst.conns slot with
    | none => simpa [lane,hc,hop.empty,numberOf,atSlot_other _ hks] using LaneStep.rest
    | some c =>
      rw [hc] at hcid
      have hn := h.dstOther hk hc hks
      simpa [lane,hc,numberOf,atSlot_other _ hks,framesFor_tagged_other _ hcid hks,
        record_other _ _ hn] using LaneStep.rest

theorem deliverSrc_lane (h : Inv owner t) (hup : t.src.linkUp=true) (hk : owner k=some n) :
    LaneStep (t.lane k n) ((t.step .deliverSrc).lane k n) := by
  simp only [step]
  cases hq : t.toSrc with
  | nil => exact .rest
  | cons p q =>
    obtain ⟨m,f⟩ := p
    obtain ⟨j,hf,hj⟩ := h.ownSrc m f (by rw [hq]; exact List.mem_cons_self)
    obtain ⟨data,hp⟩ := slotOfPayload_of_cid hf
    have hcid : ∀g∈(t.src.slotFrame j f.ftype data (t.src.conns j)).2.frames,cidOf g=some j :=
      fun g hg => (t.src.slotFrame_sends j f.ftype data _ g hg).cid
    simp only [TcpSourceChannel.apply_slotFrame t.src hp,h.numberAt_src hf hj]
    by_cases hkj : k=j
    · subst hkj
      obtain rfl := Option.some.inj (hj.symm.trans hk)
      have hact := LaneStep.srcDeliver (l := t.lane k m) (q := framesFor k q)
        (t.src.slotFrame_deliver hp) (t.src.slotFrame_parts hup k f data)
        (by simp only [lane,hq,framesFor_cons_self hf])
      simpa [lane,Lane.srcDeliver,framesFor_tagged_self _ hcid] using hact
    · simpa [lane,hq,atSlot_other _ hkj,framesFor_tagged_other _ hcid hkj,
        framesFor_cons_other hf hkj] using LaneStep.rest

theorem deliverDst_lane (h : Inv owner t) (connects : Bool) (hk : owner k=some n) :
    LaneStep (t.lane k n) ((t.step (.deliverDst connects)).lane k n) := by
  simp only [step]
  cases hq : t.toDst with
  | nil => exact .rest
  | cons p q =>
    obtain ⟨m,f⟩ := p
    obtain ⟨j,hf,hj⟩ := h.ownDst m f (by rw [hq]; exact List.mem_cons_self)
    obtain ⟨data,hp⟩ := slotOfPayload_of_cid hf
    have hcid : ∀g∈(t.dst.slotFrame j f.ftype data (connectIo connects m)
        (t.dst.conns j)).2.frames,cidOf g=some j :=
      fun g hg => (t.dst.slotFrame_sends j f.ftype data (connectIo connects m) _ g hg).cid
    simp only [TcpDestChannel.apply_slotFrame t.dst hp,h.numberAt_dst hf hj]
    by_cases hkj : k=j
    · subst hkj
      obtain rfl := Option.some.inj (hj.symm.trans hk)
      have hqk : (t.lane k m).toDst=f::framesFor k q := by
        simp only [lane,hq,framesFor_cons_self hf]
      have hact : LaneStep (t.lane k m) ((t.lane k m).dstDeliver (framesFor k q)
          (t.dst.slotFrame k f.ftype data (connectIo connects m))) := by
        by_cases hconn : f.ftype=fTconn
        · have hop : t.dst.slotFrame k f.ftype data (connectIo connects m)=
              TcpDestChannel.openConn t.dst.chId k (connectIo connects m) := by
            rw [TcpDestChannel.slotFrame,if_pos hconn]
          rw [hop]
          exact .dstOpen _ _ _ hqk hconn
        · exact .dstDeliver (t.dst.slotFrame_deliver _ hp hconn)
            (t.dst.slotFrame_parts k hconn data _) hqk hconn
      simpa [lane,Lane.dstDeliver,framesFor_tagged_self _ hcid] using hact
    · simpa [lane,hq,atSlot_other _ hkj,framesFor_tagged_other _ hcid hkj,
        framesFor_cons_other hf hkj] using LaneStep.rest

theorem srcPause_lane (t : Tunnel) (paused : Bool) (k : Slot) (n : Nat) :
    LaneStep (t.lane k n) ((t.step (.srcPause paused)).lane k n) := by
  have hset : ∀p,LaneStep (t.lane k n) ({t with src := t.src.setPaused p}.lane k n) := by
    intro p
    unfold TcpSourceChannel.setPaused
    split_ifs
    · exact .rest
    · have hact := LaneStep.srcLocal (l := t.lane k n)
        (updateConnInterest_local (TcpSourceChannel.srcConnInterest p))
        (updateConnInterest_parts _)
      simpa [lane,Lane.srcLocal,updateConnInterest] using hact
  cases paused with
  | false => exact hset false
  | true => exact hset true

theorem dstPause_lane (t : Tunnel) (paused : Bool) (k : Slot) (n : Nat) :
    LaneStep (t.lane k n) ((t.step (.dstPause paused)).lane k n) := by
  have hset : ∀p,LaneStep (t.lane k n) ({t with dst := t.dst.setPaused p}.lane k n) := by
    intro p
    unfold TcpDestChannel.setPaused
    split_ifs
    · exact .rest
    · have hact := LaneStep.dstLocal (l := t.lane k n)
        (updateConnInterest_local (TcpDestChannel.dstConnInterest p))
        (updateConnInterest_parts _)
      simpa [lane,Lane.dstLocal,updateConnInterest] using hact
  cases paused with
  | false => exact hset false
  | true => exact hset true

/-- What a step that accepts nobody does: it works on the lanes there are, and leaves the bytes of
the other connections as they are. -/
structure Works (owner : Slot → Option Nat) (t t' : Tunnel) : Prop where
  base : Inv owner t'
  linkUp : t'.src.linkUp=t.src.linkUp
  accepted : t'.accepted=t.accepted
  lanes : ∀k n,owner k=some n → LaneStep (t.lane k n) (t'.lane k n)
  past : ∀n,(∀k,owner k≠some n) → t'.srcRead n=t.srcRead n ∧ t'.srcWrote n=t.srcWrote n ∧
    t'.dstRead n=t.dstRead n ∧ t'.dstWrote n=t.dstWrote n

theorem srcEvent_works (h : Inv owner t) (hup : t.src.linkUp=true) (slot : Slot)
    (readable writable : Bool) (io : Io) :
    Works owner t (t.step (.srcEvent slot readable writable io)) where
  base := srcEvent_inv h slot readable writable io
  linkUp := by simp only [step,TcpSourceChannel.apply_slotEvent]
  accepted := rfl
  lanes _ _ hk := srcEvent_lane h hup slot readable writable io hk
  past := by
    intro n hn
    have hop := t.src.slotEvent_local slot readable writable io
    simp only [step,TcpSourceChannel.apply_slotEvent]
    cases hc : t.src.conns slot with
    | none => simp [hop.empty,numberOf]
    | some c =>
      have hne : n≠c.stream := by
        rintro rfl
        exact hn slot (h.srcOwner hc)
      simp [numberOf,record_other _ _ hne]

theorem dstEvent_works (h : Inv owner t) (slot : Slot) (readable writable : Bool) (io : Io) :
    Works owner t (t.step (.dstEvent slot readable writable io)) where
  base := dstEvent_inv h slot readable writable io
  linkUp := rfl
  accepted := rfl
  lanes _ _ hk := dstEvent_lane h slot readable writable io hk
  past := by
    intro n hn
    have hop := t.dst.slotEvent_local slot readable writable io
    simp only [step,TcpDestChannel.apply_slotEvent]
    cases hc : t.dst.conns slot with
    | none => simp [hop.empty,numberOf]
    | some c =>
      have hne : n≠c.stream := by
        rintro rfl
        exact hn slot (h.dstOwner hc)
      simp [numberOf,record_other _ _ hne]

theorem deliverSrc_works (h : Inv owner t) (hup : t.src.linkUp=true) :
    Works owner t (t.step .deliverSrc) := by
  have hlanes := fun k n (hk : owner k=some n) => deliverSrc_lane h hup hk
  have hbase := deliverSrc_inv h
  simp only [step] at hlanes hbase ⊢
  cases hq : t.toSrc with
  | nil =>
    simp only [hq] at hlanes hbase
    exact ⟨hbase,rfl,rfl,hlanes,fun _ _ => ⟨rfl,rfl,rfl,rfl⟩⟩
  | cons p q =>
    simp only [hq] at hlanes hbase
    exact ⟨hbase,t.src.apply_linkUp ⟨by simp,by simp⟩,rfl,hlanes,fun _ _ => ⟨rfl,rfl,rfl,rfl⟩⟩

theorem deliverDst_works (h : Inv owner t) (connects : Bool) :
    Works owner t (t.step (.deliverDst connects)) := by
  have hlanes := fun k n (hk : owner k=some n) => deliverDst_lane h connects hk
  have hbase := deliverDst_inv h connects
  simp only [step] at hlanes hbase ⊢
  cases hq : t.toDst with
  | nil =>
    simp only [hq] at hlanes hbase
    exact ⟨hbase,rfl,rfl,hlanes,fun _ _ => ⟨rfl,rfl,rfl,rfl⟩⟩
  | cons p q =>
    simp only [hq] at hlanes hbase
    exact ⟨hbase,rfl,rfl,hlanes,fun _ _ => ⟨rfl,rfl,rfl,rfl⟩⟩

theorem srcPause_works (h : Inv owner t) (paused : Bool) :
    Works owner t (t.step (.srcPause paused)) where
  base := srcPause_inv h paused
  linkUp := t.src.apply_linkUp (by cases paused <;> simp [pauseOp])
  accepted := rfl
  lanes k n _ := srcPause_lane t paused k n
  past _ _ := ⟨rfl,rfl,rfl,rfl⟩

theorem dstPause_works (h : Inv owner t) (paused : Bool) :
    Works owner t (t.step (.dstPause paused)) where
  base := dstPause_inv h paused
  linkUp := rfl
  accepted := rfl
  lanes k n _ := dstPause_lane t paused k n
  past _ _ := ⟨rfl,rfl,rfl,rfl⟩

/-- Whether an F_TCLOSE for connection `n` is on the way. -/
def parted (n : Nat) (q : List (Nat × Frame)) : Bool :=
  q.any (fun p => decide (p.1=n) && p.2.ftype==fTclose)

theorem Owned.parted_eq {q : List (Nat × Frame)} (hq : Owned owner q)
    (hd : ∀k k' n,owner k=some n → owner k'=some n → k=k') (hk : owner k=some n) :
    parted n q=bye (framesFor k q) := by
  have hsame : ∀p∈q,p.1=n ↔ cidOf p.2=some k := by
    intro p hp
    obtain ⟨j,hj,ho⟩ := hq p.1 p.2 hp
    constructor
    · rintro rfl
      rw [hj,hd _ _ _ ho hk]
    · intro hc
      obtain rfl := Option.some.inj (hj.symm.trans hc)
      exact Option.some.inj (ho.symm.trans hk)
  rw [Bool.eq_iff_iff]
  simp only [parted,bye,framesFor,List.any_map,List.any_filter,List.any_eq_true,Bool.and_eq_true,
    decide_eq_true_eq,beq_iff_eq,Function.comp_apply]
  exact exists_congr (fun p => and_congr_right (fun hp => by rw [hsame p hp]))

theorem Owned.parted_past {q : List (Nat × Frame)} (hq : Owned owner q)
    (hn : ∀k,owner k≠some n) : parted n q=false := by
  simp only [parted,List.any_eq_false]
  intro p hp hf
  obtain ⟨k,-,hk⟩ := hq p.1 p.2 hp
  simp only [Bool.and_eq_true,decide_eq_true_eq] at hf
  exact hn k (hf.1 ▸ hk)

/-- The lanes of a run part as they should, and the connections that have lost their slot parted so:
`sb` and `db` are the connections whose source and whose destination have sent their F_TCLOSE. -/
structure Partings (owner : Slot → Option Nat) (sb db : Nat → Bool) (t : Tunnel) : Prop where
  base : Inv owner t
  linkUp : t.src.linkUp=true
  lanes : ∀k n,owner k=some n → Parting (sb n) (db n) (t.lane k n)
  past : ∀n,(∀k,owner k≠some n) →
    (db n=false → t.dstWrote n=t.srcRead n) ∧ (sb n=false → t.srcWrote n=t.dstRead n)
  unborn : ∀n,t.accepted≤n → sb n=false ∧ db n=false

theorem partings_start (chId : UInt8) :
    Partings (fun _ => none) (fun _ => false) (fun _ => false) (start chId) where
  base := inv_start chId
  linkUp := rfl
  lanes _ _ h := by cases h
  past _ _ := ⟨fun _ => rfl,fun _ => rfl⟩
  unborn _ _ := ⟨rfl,rfl⟩

variable {t' : Tunnel} {sb db : Nat → Bool}

theorem Partings.work (h : Partings owner sb db t) (hw : Works owner t t') :
    Partings owner (fun n => sb n || parted n t'.toDst) (fun n => db n || parted n t'.toSrc) t' where
  base := hw.base
  linkUp := hw.linkUp.trans h.linkUp
  lanes := by
    intro k n hk
    have hp := (h.lanes k n hk).step (h.base.lanes k n hk) (hw.lanes k n hk)
    rwa [hw.base.ownDst.parted_eq hw.base.distinct hk,hw.base.ownSrc.parted_eq hw.base.distinct hk]
  past := by
    intro n hn
    obtain ⟨h₁,h₂,h₃,h₄⟩ := hw.past n hn
    rw [hw.base.ownDst.parted_past hn,hw.base.ownSrc.parted_past hn,Bool.or_false,Bool.or_false,
      h₁,h₂,h₃,h₄]
    exact h.past n hn
  unborn := by
    intro n hn
    have hnone : ∀k,owner k≠some n := by
      intro k hk
      have hlt := hw.base.born k n hk
      omega
    rw [hw.base.ownDst.parted_past hnone,hw.base.ownSrc.parted_past hnone,Bool.or_false,
      Bool.or_false]
    exact h.unborn n (hw.accepted ▸ hn)

theorem Partings.uncounted (h : Partings owner sb db t) (m : Nat) :
    Partings owner sb db {t with src := {t.src with nextSlot := m}, accepted := t.accepted+1} where
  base := h.base.uncounted m
  linkUp := h.linkUp
  lanes := h.lanes
  past := h.past
  unborn n hn := h.unborn n (Nat.le_of_succ_le hn)

/-- A connection that loses its slot to the next one has parted at either end, and nothing is on the
way for it. -/
theorem Partings.evicted (h : Partings owner sb db t) (hk : owner k=some n)
    (hs : t.src.conns k=none) (hd : t.dst.conns k=none) (hDst : ∀p∈t.toDst,cidOf p.2≠some k) :
    (db n=false → t.dstWrote n=t.srcRead n) ∧ (sb n=false → t.srcWrote n=t.dstRead n) := by
  have hl := h.lanes k n hk
  have hempty : (t.lane k n).toDst=[] := framesFor_clean hDst
  constructor
  · intro hdb
    have hconn : ∀f∈(t.lane k n).toDst,f.ftype≠fTconn := by
      rw [hempty]
      exact fun f hf => absurd hf List.not_mem_nil
    exact (hl.dstGone hd hdb hconn).2.2
  · intro hsb
    exact (hl.srcGone hs hsb).2.2

theorem Partings.taken (h : Partings owner sb db t) (m : Nat) (hs : t.src.conns k=none)
    (hd : t.dst.conns k=none) (hDst : ∀p∈t.toDst,cidOf p.2≠some k)
    (hSrc : ∀p∈t.toSrc,cidOf p.2≠some k) :
    Partings (Function.update owner k (some t.accepted)) sb db
      {t with
        src := {t.src with
          nextSlot := m
          conns := Function.update t.src.conns k (some (.opened t.accepted false))}
        toDst := t.toDst++[(t.accepted,tconnFrame t.src.chId k)]
        accepted := t.accepted+1} where
  base := h.base.taken m hs hd hDst hSrc
  linkUp := h.linkUp
  lanes := by
    intro j n hn
    by_cases hj : j=k
    · subst hj
      obtain rfl : t.accepted=n := by simpa using hn
      obtain ⟨h₁,h₂,h₃,h₄⟩ := h.base.unborn t.accepted le_rfl
      obtain ⟨hsb,hdb⟩ := h.unborn t.accepted le_rfl
      have hl := Parting.accepted t.src.chId j t.accepted
      have hfr : framesFor j [(t.accepted,tconnFrame t.src.chId j)]=[tconnFrame t.src.chId j] := by
        rw [framesFor_cons_self (cidOf_tconnFrame _ _),framesFor_nil]
      simpa [lane,hd,h₁,h₂,h₃,h₄,hsb,hdb,framesFor_clean hDst,framesFor_clean hSrc,hfr] using hl
    · rw [Function.update_of_ne hj] at hn
      have hl := h.lanes j n hn
      have hfr : framesFor j [(t.accepted,tconnFrame t.src.chId k)]=[] := by
        rw [framesFor_cons_other (cidOf_tconnFrame _ _) hj,framesFor_nil]
      simpa [lane,hj,hfr] using hl
  past := by
    intro n hn
    by_cases hk : owner k=some n
    · exact h.evicted hk hs hd hDst
    · refine h.past n (fun j hj => hn j ?_)
      have hjk : j≠k := by
        rintro rfl
        exact hk hj
      rw [Function.update_of_ne hjk,hj]
  unborn n hn := h.unborn n (Nat.le_of_succ_le hn)

theorem accept_partings (h : Partings owner sb db t) (registers : Bool)
    (hc : Clean t (.accept registers)) :
    ∃owner',Partings owner' sb db (t.step (.accept registers)) := by
  have hcall : ∀a,t.src.apply ⟨.handleEvent (primaryToken t.src.chId) true false,
      {Io.idle with accepts := [a]}⟩=t.src.acceptOne a := by
    intro a
    simp [TcpSourceChannel.apply,TcpSourceChannel.handleEvent,TcpSourceChannel.accept]
  simp only [step,hcall]
  rcases TcpSourceChannel.acceptOne_cases t.src ⟨t.accepted,registers⟩ with ⟨m,ha⟩|⟨m,k,hk,hs,ha⟩
  · refine ⟨owner,?_⟩
    simpa only [ha,Effect.quiet_frames,List.map_nil,List.append_nil] using h.uncounted m
  · obtain ⟨hd,hDst,hSrc⟩ := hc k hk
    refine ⟨Function.update owner k (some t.accepted),?_⟩
    simpa only [ha,Effect.sends_frames,List.map_cons,List.map_nil] using h.taken m hs hd hDst hSrc

theorem step_works (h : Partings owner sb db t) (s : TunnelStep) :
    (∃registers,s=.accept registers) ∨ Works owner t (t.step s) := by
  cases s with
  | accept registers => exact .inl ⟨registers,rfl⟩
  | srcEvent slot readable writable io =>
    exact .inr (srcEvent_works h.base h.linkUp slot readable writable io)
  | dstEvent slot readable writable io =>
    exact .inr (dstEvent_works h.base slot readable writable io)
  | deliverDst connects => exact .inr (deliverDst_works h.base connects)
  | deliverSrc => exact .inr (deliverSrc_works h.base h.linkUp)
  | srcPause paused => exact .inr (srcPause_works h.base paused)
  | dstPause paused => exact .inr (dstPause_works h.base paused)

theorem step_partings (h : Partings owner sb db t) (s : TunnelStep) (hc : Clean t s) :
    ∃owner' sb' db',Partings owner' sb' db' (t.step s) ∧
      (∀n,sb' n=true → sb n=true ∨ parted n (t.step s).toDst=true) ∧
      ∀n,db' n=true → db n=true ∨ parted n (t.step s).toSrc=true := by
  rcases step_works h s with ⟨registers,rfl⟩|hw
  · obtain ⟨owner',h'⟩ := accept_partings h registers hc
    exact ⟨owner',sb,db,h',fun _ => .inl,fun _ => .inl⟩
  · exact ⟨owner,_,_,h.work hw,fun _ => Bool.or_eq_true_iff.mp,fun _ => Bool.or_eq_true_iff.mp⟩

/-- Over a run the ends have said goodbye only where an F_TCLOSE was seen on the way. -/
theorem run_partings {steps : List TunnelStep} (h : Partings owner sb db t)
    (hc : Always next Clean t steps) :
    ∃owner' sb' db',Partings owner' sb' db' (after next t steps) ∧
      (∀n,sb' n=true → sb n=true ∨ ∃i≤ steps.length,parted n (after next t (steps.take i)).toDst=true) ∧
      ∀n,db' n=true → db n=true ∨ ∃i≤ steps.length,parted n (after next t (steps.take i)).toSrc=true := by
  induction steps generalizing owner sb db t with
  | nil => exact ⟨owner,sb,db,h,fun _ => .inl,fun _ => .inl⟩
  | cons s steps ih =>
    obtain ⟨o₁,s₁,d₁,h₁,hs₁,hd₁⟩ := step_partings h s hc.1
    obtain ⟨o₂,s₂,d₂,h₂,hs₂,hd₂⟩ := ih h₁ hc.2
    refine ⟨o₂,s₂,d₂,h₂,?_,?_⟩
    · intro n hn
      rcases hs₂ n hn with hn|⟨i,hle,hi⟩
      · rcases hs₁ n hn with hn|hn
        · exact .inl hn
        · exact .inr ⟨1,Nat.le_add_left _ _,hn⟩
      · exact .inr ⟨i+1,Nat.succ_le_succ hle,hi⟩
    · intro n hn
      rcases hd₂ n hn with hn|⟨i,hle,hi⟩
      · rcases hd₁ n hn with hn|hn
        · exact .inl hn
        · exact .inr ⟨1,Nat.le_add_left _ _,hn⟩
      · exact .inr ⟨i+1,Nat.succ_le_succ hle,hi⟩

/-- Connection `n` has no slot at the destination, now and with what is on the way. -/
def GoneDst (n : Nat) (t : Tunnel) : Prop :=
  (∀k,∀c∈t.dst.conns k,c.stream≠n) ∧ ∀p∈t.toDst,p.1=n → p.2.ftype≠fTconn

def GoneSrc (n : Nat) (t : Tunnel) : Prop := ∀k,∀c∈t.src.conns k,c.stream≠n

instance (n : Nat) (t : Tunnel) : Decidable (GoneDst n t) := inferInstanceAs (Decidable (_ ∧ _))

theorem Partings.dstComplete (h : Partings owner sb db t) (hg : GoneDst n t) (hdb : db n=false) :
    t.dstWrote n=t.srcRead n := by
  by_cases hn : ∃k,owner k=some n
  · obtain ⟨k,hk⟩ := hn
    have hnone : t.dst.conns k=none := by
      cases hc : t.dst.conns k with
      | none => rfl
      | some c => exact absurd ((h.base.lanes k n hk).dstStream c hc) (hg.1 k c hc)
    refine ((h.lanes k n hk).dstGone hnone hdb ?_).2.2
    intro f hf
    obtain ⟨p,hp,rfl⟩ := List.mem_map.mp hf
    obtain ⟨hq,hc⟩ := List.mem_filter.mp hp
    obtain ⟨j,hj,ho⟩ := h.base.ownDst p.1 p.2 hq
    obtain rfl := Option.some.inj (hj.symm.trans (beq_iff_eq.mp hc))
    exact hg.2 p hq (Option.some.inj (ho.symm.trans hk))
  · exact (h.past n (fun k hk => hn ⟨k,hk⟩)).1 hdb

theorem Partings.srcComplete (h : Partings owner sb db t) (hg : GoneSrc n t) (hsb : sb n=false) :
    t.srcWrote n=t.dstRead n := by
  by_cases hn : ∃k,owner k=some n
  · obtain ⟨k,hk⟩ := hn
    have hnone : t.src.conns k=none := by
      cases hc : t.src.conns k with
      | none => rfl
      | some c => exact absurd ((h.base.lanes k n hk).srcStream c hc) (hg k c hc)
    exact ((h.lanes k n hk).srcGone hnone hsb).2.2
  · exact (h.past n (fun k hk => hn ⟨k,hk⟩)).2 hsb

/-- A silent close loses nothing while the link stays up: in every run that hands out a cid only
after its last connection has left no trace, an end that is gone without ever having sent an
F_TCLOSE has written every byte that the other end has read from its socket. -/
theorem silent_close_complete (chId : UInt8) (steps : List TunnelStep)
    (hc : Always next Clean (start chId) steps) (n : Nat) :
    (GoneDst n (after next (start chId) steps) →
      (∀i≤ steps.length,parted n (after next (start chId) (steps.take i)).toSrc=false) →
      (after next (start chId) steps).dstWrote n=(after next (start chId) steps).srcRead n) ∧
    (GoneSrc n (after next (start chId) steps) →
      (∀i≤ steps.length,parted n (after next (start chId) (steps.take i)).toDst=false) →
      (after next (start chId) steps).srcWrote n=(after next (start chId) steps).dstRead n) := by
  obtain ⟨owner,sb,db,h,hsb,hdb⟩ := run_partings (partings_start chId) hc
  constructor
  · intro hg hquiet
    refine h.dstComplete hg ?_
    cases hd : db n with
    | false => rfl
    | true =>
      rcases hdb n hd with hfalse|⟨i,hle,hi⟩
      · cases hfalse
      · rw [hquiet i hle] at hi
        cases hi
  · intro hg hquiet
    refine h.srcComplete hg ?_
    cases hs : sb n with
    | false => rfl
    | true =>
      rcases hsb n hs with hfalse|⟨i,hle,hi⟩
      · cases hfalse
      · rw [hquiet i hle] at hi
        cases hi

theorem letter_fits : [(0x61 : UInt8)].length≤65536 := by decide

/-- A client sends one byte and goes; the destination hears of it before it has written the byte. -/
def lastByte : List TunnelStep :=
  [.accept true,.deliverDst true,
    .srcEvent 0 true false {Io.idle with reads := [.data [0x61] letter_fits]},
    .srcEvent 0 true false {Io.idle with reads := [.data [] eof_fits]},
    .deliverDst true,.deliverDst true,
    .dstEvent 0 false true {Io.idle with peerAddr := true, write := .wrote 1}]

theorem silent_close_complete_lastByte :
    (after next (start 0) lastByte).dst.conns 0=none ∧
      (after next (start 0) lastByte).dstWrote 0=(after next (start 0) lastByte).srcRead 0 ∧
      (after next (start 0) lastByte).srcRead 0=[0x61] :=
  ⟨by decide +kernel,(silent_close_complete 0 lastByte
    ⟨fun _ _ => ⟨rfl,fun _ h => absurd h List.not_mem_nil,fun _ h => absurd h List.not_mem_nil⟩,
      trivial,trivial,trivial,trivial,trivial,trivial,trivial⟩ 0).1
      (by decide +kernel) (by decide +kernel),by decide +kernel⟩

end Tunnel

end Serialmux.System

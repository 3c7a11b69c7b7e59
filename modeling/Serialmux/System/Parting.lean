import Serialmux.Channel.TcpFarewell
import Serialmux.System.Tunnel

namespace Serialmux.System

open Protocol Framework Channel

/-- Whether an F_TCLOSE is among some frames. -/
def bye (fs : List Frame) : Bool := fs.any (fun f => f.ftype==fTclose)

theorem bye_eq_false {fs : List Frame} : bye fs=false ↔ Unclosed fs := by
  simp only [bye,List.any_eq_false,beq_iff_eq,Unclosed]

theorem bye_of_saysBye {fs : List Frame} (h : SaysBye fs) : bye fs=true := by
  obtain ⟨pre,f,rfl,-,hf⟩ := h
  simp [bye,hf]

/-- Nothing follows an F_TCLOSE. -/
def Closes (fs : List Frame) : Prop := Unclosed fs ∨ SaysBye fs

theorem Closes.tail {f : Frame} {q : List Frame} (h : Closes (f::q)) :
    Closes q ∧ (f.ftype=fTclose → q=[]) := by
  rcases h with h|⟨pre,g,hq,hpre,hg⟩
  · exact ⟨.inl (fun x hx => h x (List.mem_cons_of_mem _ hx)),
      fun hf => absurd hf (h f List.mem_cons_self)⟩
  · cases pre with
    | nil =>
      obtain ⟨-,rfl⟩ := List.cons_eq_cons.mp hq
      exact ⟨.inl .nil,fun _ => rfl⟩
    | cons x pre =>
      obtain ⟨rfl,rfl⟩ := List.cons_eq_cons.mp hq
      have hrest : Unclosed pre := fun y hy => hpre y (List.mem_cons_of_mem _ hy)
      exact ⟨.inr ⟨pre,g,rfl,hrest,hg⟩,fun hf => absurd hf (hpre _ List.mem_cons_self)⟩

/-- How far a lane has parted, `sb` and `db` telling whether its source and its destination have sent
their F_TCLOSE. An end that goes without one has heard the other end's, and has written everything
that came before it. -/
structure Parting (sb db : Bool) (l : Lane) : Prop where
  saidDst : bye l.toDst=true → sb=true
  saidSrc : bye l.toSrc=true → db=true
  srcThere : ∀c,l.src=some c → sb=false
  dstThere : ∀c,l.dst=some c → db=false
  lastDst : Closes l.toDst
  lastSrc : Closes l.toSrc
  unopened : ∀f∈l.toDst,f.ftype=fTconn → db=false ∧ l.toSrc=[]
  srcPending : ∀c,l.src=some c → c.closePending=true → db=true ∧ l.toSrc=[]
  dstPending : ∀c,l.dst=some c → c.closePending=true → sb=true ∧ l.toDst=[]
  srcGone : l.src=none → sb=false → db=true ∧ l.toSrc=[] ∧ l.srcWrote=l.dstRead
  dstGone : l.dst=none → db=false → (∀f∈l.toDst,f.ftype≠fTconn) →
    sb=true ∧ l.toDst=[] ∧ l.dstWrote=l.srcRead

namespace Parting

variable {n : Nat} {sb db : Bool} {l : Lane}

theorem quietDst (h : Parting sb db l) : (sb || bye l.toDst)=sb := by
  cases hb : bye l.toDst with
  | false => exact Bool.or_false sb
  | true => rw [h.saidDst hb]; rfl

theorem quietSrc (h : Parting sb db l) : (db || bye l.toSrc)=db := by
  cases hb : bye l.toSrc with
  | false => exact Bool.or_false db
  | true => rw [h.saidSrc hb]; rfl

/-- A source that is there has not said goodbye, so there is no F_TCLOSE on the way. -/
theorem openDst (h : Parting sb db l) {c : TcpConn} (hc : l.src=some c) : Unclosed l.toDst := by
  rw [← bye_eq_false]
  cases hb : bye l.toDst with
  | false => rfl
  | true =>
    have hsb := h.saidDst hb
    rw [h.srcThere c hc] at hsb
    cases hsb

theorem openSrc (h : Parting sb db l) {c : TcpConn} (hc : l.dst=some c) : Unclosed l.toSrc := by
  rw [← bye_eq_false]
  cases hb : bye l.toSrc with
  | false => rfl
  | true =>
    have hdb := h.saidSrc hb
    rw [h.dstThere c hc] at hdb
    cases hdb

/-- A queue that an end works off, or that it leaves as it is. -/
structure WorksOff (q q' : List Frame) : Prop where
  closes : Closes q → Closes q'
  said : bye q'=true → bye q=true
  empty : q=[] → q'=[]

theorem WorksOff.same (q : List Frame) : WorksOff q q := ⟨id,id,id⟩

theorem WorksOff.head {f : Frame} {q q' : List Frame} (h : q=f::q') : WorksOff q q' := by
  subst h
  refine ⟨fun h => h.tail.1,?_,fun h => by cases h⟩
  intro hb
  rw [bye,List.any_cons]
  exact (congrArg (_ || ·) hb).trans (Bool.or_true _)

/-- What a source that is there may do: stay, waiting for nothing more once the other end has gone;
go with an F_TCLOSE; or go without one, when all it was sent is written. -/
theorem srcActs {l' : Lane} {c : TcpConn} {fs : List Frame} (h : Parting sb db l)
    (hs : l.src=some c) (hdst : l'.dst=l.dst) (hto : l'.toDst=l.toDst++fs)
    (hq : WorksOff l.toSrc l'.toSrc) (hconn : ∀f∈fs,f.ftype≠fTconn)
    (hout : (∃c',l'.src=some c' ∧ Unclosed fs ∧
        (c'.closePending=true → db=true ∧ l'.toSrc=[])) ∨
      (l'.src=none ∧ SaysBye fs) ∨
      (l'.src=none ∧ fs=[] ∧ db=true ∧ l'.toSrc=[] ∧ l'.srcWrote=l'.dstRead)) :
    Parting (sb || bye l'.toDst) (db || bye l'.toSrc) l' := by
  have hsb := h.srcThere c hs
  have hun := h.openDst hs
  have hdb : (db || bye l'.toSrc)=db := by
    cases hb : bye l'.toSrc with
    | false => exact Bool.or_false db
    | true => rw [h.saidSrc (hq.said hb)]; rfl
  have hfs : bye l'.toDst=bye fs := by
    have hnone : bye l.toDst=false := bye_eq_false.mpr hun
    rw [hto,bye,List.any_append]
    exact (congrArg (· || _) hnone).trans (Bool.false_or _)
  rw [hdb,hsb,Bool.false_or,hfs]
  -- A destination that has gone in silence has heard the F_TCLOSE that was not sent.
  have hgone : l'.dst=none → db=false → (∀f∈l'.toDst,f.ftype≠fTconn) → False := by
    intro h₁ h₂ h₃
    rw [hdst] at h₁
    rw [hto] at h₃
    have hsaid := (h.dstGone h₁ h₂ (fun f hf => h₃ f (List.mem_append_left _ hf))).1
    rw [hsb] at hsaid
    cases hsaid
  have hpending : ∀d,l'.dst=some d → d.closePending=true → False := by
    intro d hd hcp
    rw [hdst] at hd
    have hsaid := (h.dstPending d hd hcp).1
    rw [hsb] at hsaid
    cases hsaid
  refine ⟨by rw [hfs]; exact id,fun hb => h.saidSrc (hq.said hb),?_,?_,?_,hq.closes h.lastSrc,?_,
    ?_,fun d hd hcp => (hpending d hd hcp).elim,?_,fun h₁ h₂ h₃ => (hgone h₁ h₂ h₃).elim⟩
  · intro c' hc'
    rcases hout with ⟨x,-,hu,-⟩|⟨hnone,-⟩|⟨hnone,-⟩
    · exact bye_eq_false.mpr hu
    · rw [hnone] at hc'
      cases hc'
    · rw [hnone] at hc'
      cases hc'
  · intro d hd
    exact h.dstThere d (hdst ▸ hd)
  · rw [hto]
    rcases hout with ⟨x,-,hu,-⟩|⟨-,hbye⟩|⟨-,rfl,-⟩
    · exact .inl (hun.append hu)
    · exact .inr (hun.bye hbye)
    · exact .inl (hun.append .nil)
  · intro f hf hc
    rw [hto] at hf
    rcases List.mem_append.mp hf with hf|hf
    · obtain ⟨h₁,h₂⟩ := h.unopened f hf hc
      exact ⟨h₁,hq.empty h₂⟩
    · exact absurd hc (hconn f hf)
  · intro c' hc' hcp
    rcases hout with ⟨x,hx,-,hpend⟩|⟨hnone,-⟩|⟨hnone,-⟩
    · obtain rfl := Option.some.inj (hx.symm.trans hc')
      exact hpend hcp
    · rw [hnone] at hc'
      cases hc'
    · rw [hnone] at hc'
      cases hc'
  · intro hnone hsb'
    rcases hout with ⟨x,hx,-⟩|⟨-,hbye⟩|⟨-,-,h₁,h₂,h₃⟩
    · rw [hnone] at hx
      cases hx
    · rw [bye_of_saysBye hbye] at hsb'
      cases hsb'
    · exact ⟨h₁,h₂,h₃⟩

/-- What a destination that is there may do. -/
theorem dstActs {l' : Lane} {c : TcpConn} {fs : List Frame} (h : Parting sb db l)
    (hd : l.dst=some c) (hsrc : l'.src=l.src)
    (hto : l'.toSrc=l.toSrc++fs) (hq : WorksOff l.toDst l'.toDst)
    (hq' : ∀f∈l'.toDst,f.ftype≠fTconn)
    (hout : (∃c',l'.dst=some c' ∧ Unclosed fs ∧
        (c'.closePending=true → sb=true ∧ l'.toDst=[])) ∨
      (l'.dst=none ∧ SaysBye fs) ∨
      (l'.dst=none ∧ fs=[] ∧ sb=true ∧ l'.toDst=[] ∧ l'.dstWrote=l'.srcRead)) :
    Parting (sb || bye l'.toDst) (db || bye l'.toSrc) l' := by
  have hdb := h.dstThere c hd
  have hun := h.openSrc hd
  have hsb : (sb || bye l'.toDst)=sb := by
    cases hb : bye l'.toDst with
    | false => exact Bool.or_false sb
    | true => rw [h.saidDst (hq.said hb)]; rfl
  have hfs : bye l'.toSrc=bye fs := by
    have hnone : bye l.toSrc=false := bye_eq_false.mpr hun
    rw [hto,bye,List.any_append]
    exact (congrArg (· || _) hnone).trans (Bool.false_or _)
  rw [hsb,hdb,Bool.false_or,hfs]
  -- A source that has gone in silence has heard the F_TCLOSE that was not sent.
  have hgone : l'.src=none → sb=false → False := by
    intro h₁ h₂
    have hsaid := (h.srcGone (hsrc ▸ h₁) h₂).1
    rw [hdb] at hsaid
    cases hsaid
  have hpending : ∀x,l'.src=some x → x.closePending=true → False := by
    intro x hx hcp
    have hsaid := (h.srcPending x (hsrc ▸ hx) hcp).1
    rw [hdb] at hsaid
    cases hsaid
  refine ⟨fun hb => h.saidDst (hq.said hb),by rw [hfs]; exact id,?_,?_,hq.closes h.lastDst,?_,
    fun f hf hc => absurd hc (hq' f hf),fun x hx hcp => (hpending x hx hcp).elim,?_,
    fun h₁ h₂ => (hgone h₁ h₂).elim,?_⟩
  · intro x hx
    exact h.srcThere x (hsrc ▸ hx)
  · intro c' hc'
    rcases hout with ⟨x,-,hu,-⟩|⟨hnone,-⟩|⟨hnone,-⟩
    · exact bye_eq_false.mpr hu
    · rw [hnone] at hc'
      cases hc'
    · rw [hnone] at hc'
      cases hc'
  · rw [hto]
    rcases hout with ⟨x,-,hu,-⟩|⟨-,hbye⟩|⟨-,rfl,-⟩
    · exact .inl (hun.append hu)
    · exact .inr (hun.bye hbye)
    · exact .inl (hun.append .nil)
  · intro c' hc' hcp
    rcases hout with ⟨x,hx,-,hpend⟩|⟨hnone,-⟩|⟨hnone,-⟩
    · obtain rfl := Option.some.inj (hx.symm.trans hc')
      exact hpend hcp
    · rw [hnone] at hc'
      cases hc'
    · rw [hnone] at hc'
      cases hc'
  · intro hnone hdb' _
    rcases hout with ⟨x,hx,-⟩|⟨-,hbye⟩|⟨-,-,h₁,h₂,h₃⟩
    · rw [hnone] at hx
      cases hx
    · rw [bye_of_saysBye hbye] at hdb'
      cases hdb'
    · exact ⟨h₁,h₂,h₃⟩

theorem srcLocal {op : SlotOp} (h : Parting sb db l) (hl : LaneInv n l) (hop : LocalOp op)
    (hp : PartsOp op) :
    Parting (sb || bye (l.srcLocal op).toDst) (db || bye (l.srcLocal op).toSrc) (l.srcLocal op) := by
  cases hs : l.src with
  | none =>
    have hsame : l.srcLocal op=l := by
      obtain ⟨src,dst,toDst,toSrc,srcRead,srcWrote,dstRead,dstWrote⟩ := l
      cases hs
      simp [Lane.srcLocal,hop.empty]
    rw [hsame,h.quietDst,h.quietSrc]
    exact h
  | some c =>
    have hact : l.srcLocal op={l with
        src := (op (some c)).1
        toDst := l.toDst++(op (some c)).2.frames
        srcRead := l.srcRead++(op (some c)).2.read
        srcWrote := l.srcWrote++(op (some c)).2.wrote} := by
      rw [Lane.srcLocal,hs]
    refine h.srcActs hs rfl (congrArg Lane.toDst hact) (.same _) (hop.occupied c).unannounced ?_
    rw [hact]
    cases hm : (op (some c)).1 with
    | some c' =>
      obtain ⟨hcp,hu,-⟩ := hp.stays c c' hm
      exact .inl ⟨c',rfl,hu,fun hc => h.srcPending c hs (hcp.symm.trans hc)⟩
    | none =>
      rcases hp.leaves c hm with hbye|⟨hcp,hnil,hw⟩
      · exact .inr (.inl ⟨rfl,hbye⟩)
      · obtain ⟨hdb,hempty⟩ := h.srcPending c hs hcp
        have hback := hl.backward c hs
        rw [hempty,streamOf_nil,List.append_nil] at hback
        exact .inr (.inr ⟨rfl,hnil,hdb,hempty,(congrArg (l.srcWrote++·) hw).trans hback⟩)

theorem dstLocal {op : SlotOp} (h : Parting sb db l) (hl : LaneInv n l) (hop : LocalOp op)
    (hp : PartsOp op) :
    Parting (sb || bye (l.dstLocal op).toDst) (db || bye (l.dstLocal op).toSrc) (l.dstLocal op) := by
  cases hd : l.dst with
  | none =>
    have hsame : l.dstLocal op=l := by
      obtain ⟨src,dst,toDst,toSrc,srcRead,srcWrote,dstRead,dstWrote⟩ := l
      cases hd
      simp [Lane.dstLocal,hop.empty]
    rw [hsame,h.quietDst,h.quietSrc]
    exact h
  | some c =>
    have hact : l.dstLocal op={l with
        dst := (op (some c)).1
        toSrc := l.toSrc++(op (some c)).2.frames
        dstRead := l.dstRead++(op (some c)).2.read
        dstWrote := l.dstWrote++(op (some c)).2.wrote} := by
      rw [Lane.dstLocal,hd]
    obtain ⟨hconn,hfor⟩ := hl.forward c hd
    refine h.dstActs hd rfl (congrArg Lane.toSrc hact) (.same _) hconn ?_
    rw [hact]
    cases hm : (op (some c)).1 with
    | some c' =>
      obtain ⟨hcp,hu,-⟩ := hp.stays c c' hm
      exact .inl ⟨c',rfl,hu,fun hc => h.dstPending c hd (hcp.symm.trans hc)⟩
    | none =>
      rcases hp.leaves c hm with hbye|⟨hcp,hnil,hw⟩
      · exact .inr (.inl ⟨rfl,hbye⟩)
      · obtain ⟨hsb,hempty⟩ := h.dstPending c hd hcp
        rw [hempty,streamOf_nil,List.append_nil] at hfor
        exact .inr (.inr ⟨rfl,hnil,hsb,hempty,(congrArg (l.dstWrote++·) hw).trans hfor⟩)

/-- An end that has gone takes no notice of what still arrives. -/
theorem srcIdle {q : List Frame} (h : Parting sb db l) (hs : l.src=none) {f : Frame}
    (hq : l.toSrc=f::q) :
    Parting (sb || bye l.toDst) (db || bye q) {l with toSrc := q} := by
  have hoff := WorksOff.head hq
  have hdb : (db || bye q)=db := by
    cases hb : bye q with
    | false => exact Bool.or_false db
    | true => rw [h.saidSrc (hoff.said hb)]; rfl
  rw [h.quietDst,hdb]
  refine ⟨h.saidDst,fun hb => h.saidSrc (hoff.said hb),h.srcThere,h.dstThere,h.lastDst,
    hoff.closes h.lastSrc,?_,?_,h.dstPending,?_,h.dstGone⟩
  · intro g hg hc
    obtain ⟨h₁,h₂⟩ := h.unopened g hg hc
    exact ⟨h₁,hoff.empty h₂⟩
  · intro c hc
    rw [hs] at hc
    cases hc
  · intro _ hsb
    obtain ⟨h₁,h₂,h₃⟩ := h.srcGone hs hsb
    exact ⟨h₁,hoff.empty h₂,h₃⟩

theorem dstIdle {q : List Frame} (h : Parting sb db l) (hd : l.dst=none) {f : Frame}
    (hq : l.toDst=f::q) (hf : f.ftype≠fTconn) :
    Parting (sb || bye q) (db || bye l.toSrc) {l with toDst := q} := by
  have hoff := WorksOff.head hq
  have hsb : (sb || bye q)=sb := by
    cases hb : bye q with
    | false => exact Bool.or_false sb
    | true => rw [h.saidDst (hoff.said hb)]; rfl
  rw [h.quietSrc,hsb]
  refine ⟨fun hb => h.saidDst (hoff.said hb),h.saidSrc,h.srcThere,h.dstThere,
    hoff.closes h.lastDst,h.lastSrc,?_,h.srcPending,?_,h.srcGone,?_⟩
  · exact fun g hg => h.unopened g (by rw [hq]; exact List.mem_cons_of_mem _ hg)
  · intro c hc
    rw [hd] at hc
    cases hc
  · intro _ hdb hconn
    have hall : ∀g∈l.toDst,g.ftype≠fTconn := by
      intro g hg
      rw [hq] at hg
      rcases List.mem_cons.mp hg with rfl|hg
      · exact hf
      · exact hconn g hg
    obtain ⟨h₁,h₂,h₃⟩ := h.dstGone hd hdb hall
    exact ⟨h₁,hoff.empty h₂,h₃⟩

theorem streamBytes_of_tclose {f : Frame} (hf : f.ftype=fTclose) : streamBytes f=[] := by
  rw [streamBytes,hf]
  rfl

theorem bye_head {f : Frame} {q : List Frame} (hf : f.ftype=fTclose) : bye (f::q)=true := by
  simp [bye,hf]

theorem srcDeliver {op : SlotOp} {f : Frame} {q : List Frame} (h : Parting sb db l)
    (hl : LaneInv n l) (hop : DeliverOp (streamBytes f) op) (hp : PartsFrame f op)
    (hq : l.toSrc=f::q) :
    Parting (sb || bye (l.srcDeliver q op).toDst) (db || bye (l.srcDeliver q op).toSrc)
      (l.srcDeliver q op) := by
  cases hs : l.src with
  | none =>
    have hsame : l.srcDeliver q op={l with toSrc := q} := by
      obtain ⟨src,dst,toDst,toSrc,srcRead,srcWrote,dstRead,dstWrote⟩ := l
      cases hs
      simp [Lane.srcDeliver,hop.empty]
    rw [hsame]
    exact h.srcIdle hs hq
  | some c =>
    have hact : l.srcDeliver q op={l with
        src := (op (some c)).1, toSrc := q, toDst := l.toDst++(op (some c)).2.frames} := by
      rw [Lane.srcDeliver,hs]
    have hlast := h.lastSrc
    rw [hq] at hlast
    have hheard : f.ftype=fTclose → db=true ∧ q=[] := by
      intro hf
      exact ⟨h.saidSrc (hq ▸ bye_head hf),hlast.tail.2 hf⟩
    have hopen : c.closePending=false := by
      cases hc : c.closePending with
      | false => rfl
      | true =>
        have hempty := (h.srcPending c hs hc).2
        rw [hq] at hempty
        cases hempty
    refine h.srcActs hs rfl (congrArg Lane.toDst hact) (.head hq) (hop.unannounced _) ?_
    rw [hact]
    cases hm : (op (some c)).1 with
    | some c' =>
      obtain ⟨hnil,hcp⟩ := hp.stays c c' hm
      refine .inl ⟨c',rfl,by rw [hnil]; exact .nil,fun hc => ?_⟩
      rw [hcp,hopen,Bool.false_or] at hc
      exact hheard (of_decide_eq_true hc)
    | none =>
      rcases hp.leaves c hm with hbye|⟨hf,hnil,htx⟩
      · exact .inr (.inl ⟨rfl,hbye⟩)
      · obtain ⟨hdb,hempty⟩ := hheard hf
        have hback := hl.backward c hs
        rw [hq,streamOf_cons,streamBytes_of_tclose hf,hempty,htx] at hback
        exact .inr (.inr ⟨rfl,hnil,hdb,hempty,by simpa using hback⟩)

theorem dstDeliver {op : SlotOp} {f : Frame} {q : List Frame} (h : Parting sb db l)
    (hl : LaneInv n l) (hop : DeliverOp (streamBytes f) op) (hp : PartsFrame f op)
    (hq : l.toDst=f::q) (hconn : f.ftype≠fTconn) :
    Parting (sb || bye (l.dstDeliver q op).toDst) (db || bye (l.dstDeliver q op).toSrc)
      (l.dstDeliver q op) := by
  cases hd : l.dst with
  | none =>
    have hsame : l.dstDeliver q op={l with toDst := q} := by
      obtain ⟨src,dst,toDst,toSrc,srcRead,srcWrote,dstRead,dstWrote⟩ := l
      cases hd
      simp [Lane.dstDeliver,hop.empty]
    rw [hsame]
    exact h.dstIdle hd hq hconn
  | some c =>
    have hact : l.dstDeliver q op={l with
        dst := (op (some c)).1, toDst := q, toSrc := l.toSrc++(op (some c)).2.frames} := by
      rw [Lane.dstDeliver,hd]
    have hlast := h.lastDst
    rw [hq] at hlast
    have hheard : f.ftype=fTclose → sb=true ∧ q=[] := by
      intro hf
      exact ⟨h.saidDst (hq ▸ bye_head hf),hlast.tail.2 hf⟩
    have hopen : c.closePending=false := by
      cases hc : c.closePending with
      | false => rfl
      | true =>
        have hempty := (h.dstPending c hd hc).2
        rw [hq] at hempty
        cases hempty
    obtain ⟨hline,hfor⟩ := hl.forward c hd
    have hrest : ∀g∈q,g.ftype≠fTconn := fun g hg => hline g (by rw [hq]; exact List.mem_cons_of_mem _ hg)
    refine h.dstActs hd rfl (congrArg Lane.toSrc hact) (.head hq) hrest ?_
    rw [hact]
    cases hm : (op (some c)).1 with
    | some c' =>
      obtain ⟨hnil,hcp⟩ := hp.stays c c' hm
      refine .inl ⟨c',rfl,by rw [hnil]; exact .nil,fun hc => ?_⟩
      rw [hcp,hopen,Bool.false_or] at hc
      exact hheard (of_decide_eq_true hc)
    | none =>
      rcases hp.leaves c hm with hbye|⟨hf,hnil,htx⟩
      · exact .inr (.inl ⟨rfl,hbye⟩)
      · obtain ⟨hsb,hempty⟩ := hheard hf
        rw [hq,streamOf_cons,streamBytes_of_tclose hf,hempty,htx] at hfor
        exact .inr (.inr ⟨rfl,hnil,hsb,hempty,by simpa using hfor⟩)

/-- The announcement arrives: the destination is there from now on, or says goodbye at once. -/
theorem dstOpen {chId : UInt8} {slot : Slot} {io : Io} {f : Frame} {q : List Frame}
    (h : Parting sb db l) (hl : LaneInv n l) (hq : l.toDst=f::q) (hf : f.ftype=fTconn) :
    Parting (sb || bye (l.dstDeliver q (TcpDestChannel.openConn chId slot io)).toDst)
      (db || bye (l.dstDeliver q (TcpDestChannel.openConn chId slot io)).toSrc)
      (l.dstDeliver q (TcpDestChannel.openConn chId slot io)) := by
  obtain ⟨hd,-⟩ := hl.opening f q hq hf
  obtain ⟨hdb,hempty⟩ := h.unopened f (by rw [hq]; exact List.mem_cons_self) hf
  have hoff := WorksOff.head hq
  have hrest : ∀g∈q,g.ftype≠fTconn := by
    have hline := hl.line
    rwa [hq] at hline
  have hsb : (sb || bye q)=sb := by
    cases hb : bye q with
    | false => exact Bool.or_false sb
    | true => rw [h.saidDst (hoff.said hb)]; rfl
  -- A source that has gone in silence has heard a goodbye, which the destination has not said.
  have hgone : l.src=none → sb=false → False := by
    intro h₁ h₂
    have hsaid := (h.srcGone h₁ h₂).1
    rw [hdb] at hsaid
    cases hsaid
  have hpending : ∀c,l.src=some c → c.closePending=true → False := by
    intro c hc hcp
    have hsaid := (h.srcPending c hc hcp).1
    rw [hdb] at hsaid
    cases hsaid
  cases hio : io.connect with
  | none =>
    have hact : l.dstDeliver q (TcpDestChannel.openConn chId slot io)={l with
        toDst := q, toSrc := [tcloseFrame chId slot]} := by
      rw [Lane.dstDeliver,hd,TcpDestChannel.openConn,hio,hempty]
      rfl
    rw [hact]
    have hsaid : (db || bye [tcloseFrame chId slot])=true := by
      rw [bye_of_saysBye (saysBye_tclose chId slot),Bool.or_true]
    rw [hsaid,hsb]
    refine ⟨fun hb => h.saidDst (hoff.said hb),fun _ => rfl,h.srcThere,?_,hoff.closes h.lastDst,
      .inr (saysBye_tclose chId slot),fun g hg hc => absurd hc (hrest g hg),
      fun c hc hcp => (hpending c hc hcp).elim,?_,fun h₁ h₂ => (hgone h₁ h₂).elim,?_⟩
    · intro c hc
      rw [hd] at hc
      cases hc
    · intro c hc
      rw [hd] at hc
      cases hc
    · intro _ hfalse
      cases hfalse
  | some stream =>
    have hact : l.dstDeliver q (TcpDestChannel.openConn chId slot io)={l with
        dst := some (.opened stream true), toDst := q} := by
      rw [Lane.dstDeliver,hd,TcpDestChannel.openConn,hio]
      simp
    rw [hact]
    have hquiet : (db || bye l.toSrc)=db := h.quietSrc
    rw [hquiet,hsb]
    refine ⟨fun hb => h.saidDst (hoff.said hb),h.saidSrc,h.srcThere,fun _ _ => hdb,
      hoff.closes h.lastDst,h.lastSrc,fun g hg hc => absurd hc (hrest g hg),
      fun c hc hcp => (hpending c hc hcp).elim,?_,fun h₁ h₂ => (hgone h₁ h₂).elim,?_⟩
    · intro c hc hcp
      obtain rfl := Option.some.inj hc
      cases hcp
    · intro hnone
      cases hnone

theorem accepted (chId : UInt8) (slot : Slot) (n : Nat) :
    Parting false false ⟨some (.opened n false),none,[tconnFrame chId slot],[],[],[],[],[]⟩ where
  saidDst hb := by cases hb
  saidSrc hb := by cases hb
  srcThere _ _ := rfl
  dstThere _ _ := rfl
  lastDst := .inl (bye_eq_false.mp rfl)
  lastSrc := .inl .nil
  unopened _ _ _ := ⟨rfl,rfl⟩
  srcPending c hc hcp := by
    obtain rfl := Option.some.inj hc
    cases hcp
  dstPending c hc := by cases hc
  srcGone h := by cases h
  dstGone _ _ h := absurd rfl (h (tconnFrame chId slot) List.mem_cons_self)

end Parting

/-- What a step of the tunnel may do to the lane of a connection. -/
inductive LaneStep (l : Lane) : Lane → Prop
  | rest : LaneStep l l
  | srcLocal {op : SlotOp} (hop : LocalOp op) (hp : PartsOp op) : LaneStep l (l.srcLocal op)
  | dstLocal {op : SlotOp} (hop : LocalOp op) (hp : PartsOp op) : LaneStep l (l.dstLocal op)
  | srcDeliver {op : SlotOp} {f : Frame} {q : List Frame} (hop : DeliverOp (streamBytes f) op)
      (hp : PartsFrame f op) (hq : l.toSrc=f::q) : LaneStep l (l.srcDeliver q op)
  | dstDeliver {op : SlotOp} {f : Frame} {q : List Frame} (hop : DeliverOp (streamBytes f) op)
      (hp : PartsFrame f op) (hq : l.toDst=f::q) (hconn : f.ftype≠fTconn) :
      LaneStep l (l.dstDeliver q op)
  | dstOpen (chId : UInt8) (slot : Slot) (io : Io) {f : Frame} {q : List Frame}
      (hq : l.toDst=f::q) (hconn : f.ftype=fTconn) :
      LaneStep l (l.dstDeliver q (TcpDestChannel.openConn chId slot io))

/-- Whatever an end does on a lane, it goes with an F_TCLOSE or with everything written. -/
theorem Parting.step {n : Nat} {sb db : Bool} {l l' : Lane} (h : Parting sb db l) (hl : LaneInv n l)
    (hs : LaneStep l l') : Parting (sb || bye l'.toDst) (db || bye l'.toSrc) l' := by
  cases hs with
  | rest =>
    rw [h.quietDst,h.quietSrc]
    exact h
  | srcLocal hop hp => exact h.srcLocal hl hop hp
  | dstLocal hop hp => exact h.dstLocal hl hop hp
  | srcDeliver hop hp hq => exact h.srcDeliver hl hop hp hq
  | dstDeliver hop hp hq hconn => exact h.dstDeliver hl hop hp hq hconn
  | dstOpen chId slot io hq hconn => exact h.dstOpen hl hq hconn

end Serialmux.System

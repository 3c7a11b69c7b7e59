import Serialmux.System.Speech

namespace Serialmux.System

open Framework Protocol Channel EventLoop

/-- What a PTY holds: what it has taken since it was opened and what still waits for it. -/
def holds (heard : List UInt8) (q : PtyChannel) : Option (List UInt8) :=
  if q.isOpen then some (heard++q.txbuf) else none

/-- After a call with effect `e` the PTY `q` is closed and empty, or it holds `got`. -/
structure Holds (heard : List UInt8) (q : PtyChannel) (e : Effect) (got : Option (List UInt8)) :
    Prop where
  empty : q.isOpen=false → q.txbuf=[]
  got : holds (heard++e.wrote) q=none ∨ holds (heard++e.wrote) q=got

section Pty

variable {io : Io} {heard : List UInt8} {q : PtyChannel}

theorem holds_closed (h : q.isOpen=false) : holds heard q=none := by
  simp [holds,h]

theorem holds_open (h : q.isOpen=true) : holds heard q=some (heard++q.txbuf) := by
  simp [holds,h]

/-- What a call without a write changes neither in the PTY nor in its buffer. -/
theorem Holds.same (heard : List UInt8) {q' : PtyChannel} (hempty : q.isOpen=false → q.txbuf=[])
    (hopen : q'.isOpen=q.isOpen) (hbuf : q'.txbuf=q.txbuf) :
    Holds heard q' .quiet (holds heard q) := by
  refine ⟨?_,.inr ?_⟩
  · rw [hopen,hbuf]
    exact hempty
  · simp [holds,hopen,hbuf]

theorem Holds.closed (e : Effect) (got : Option (List UInt8)) : Holds heard q.closePty e got :=
  ⟨fun _ => rfl,.inl (holds_closed rfl)⟩

theorem updateInterest_txbuf (q : PtyChannel) : q.updateInterest.txbuf=q.txbuf := by
  unfold PtyChannel.updateInterest
  split <;> rfl

theorem pause_txbuf (q : PtyChannel) : q.pauseSourceReads.txbuf=q.txbuf := by
  unfold PtyChannel.pauseSourceReads
  split_ifs
  · rfl
  · exact updateInterest_txbuf _

theorem resume_txbuf (q : PtyChannel) : q.resumeSourceReads.txbuf=q.txbuf := by
  unfold PtyChannel.resumeSourceReads
  split_ifs
  · exact updateInterest_txbuf _
  · rfl

/-- A write that does not fail moves bytes from the buffer to the reader of the PTY. -/
theorem ptyDrain_holds (heard : List UInt8) (hw : io.write≠.error) (hempty : q.isOpen=false → q.txbuf=[]) :
    Holds heard (q.ptyDrain io).1 (q.ptyDrain io).2 (holds heard q) := by
  have hflush : (McuChannel.flushBuf q.txbuf io.write).2++
      (McuChannel.flushBuf q.txbuf io.write).1=q.txbuf := by
    cases hio : io.write with
    | wrote n => exact List.take_append_drop n q.txbuf
    | again => rfl
    | error => exact absurd hio hw
  unfold PtyChannel.ptyDrain
  split
  · exact .same heard hempty rfl rfl
  · next fd hfd =>
    split_ifs
    · exact .same heard hempty rfl rfl
    · have hopen : q.isOpen=true := by simp [PtyChannel.isOpen,hfd]
      have hopen' : (PtyChannel.updateInterest
          {q with txbuf := (McuChannel.flushBuf q.txbuf io.write).1}).isOpen=true :=
        (PtyChannel.updateInterest_isOpen _).trans hopen
      refine ⟨fun hc => absurd hc (by simp [hopen']),.inr ?_⟩
      rw [holds_open hopen,holds_open hopen',updateInterest_txbuf,List.append_assoc,hflush]

/-- An event of the PTY changes what it holds only by closing it. -/
theorem handleEvent_holds (hw : io.write≠.error) (readable writable : Bool)
    (hempty : q.isOpen=false → q.txbuf=[]) :
    Holds heard (q.handleEvent readable writable io).1 (q.handleEvent readable writable io).2
      (holds heard q) := by
  have hread : ((q.ptyRead io).1=q ∨ (q.ptyRead io).1=q.closePty) ∧
      (q.ptyRead io).2.wrote=[] := by
    unfold PtyChannel.ptyRead
    split <;> simp
  have hafter : ∀{q₁ : PtyChannel} {e₁ : Effect},(q₁=q ∨ q₁=q.closePty) → e₁.wrote=[] →
      Holds heard (if writable then q₁.ptyDrain io else (q₁,.quiet)).1
        (e₁.next (if writable then q₁.ptyDrain io else (q₁,.quiet)).2) (holds heard q) := by
    intro q₁ e₁ hq he
    rcases hq with rfl|rfl
    · cases writable with
      | false =>
        obtain ⟨h₁,h₂⟩ := Holds.same heard hempty rfl rfl
        exact ⟨h₁,by simp [he]⟩
      | true =>
        obtain ⟨h₁,h₂⟩ := ptyDrain_holds heard hw hempty
        exact ⟨h₁,by simpa [he] using h₂⟩
    · have hdrain : (q.closePty.ptyDrain io).1=q.closePty := rfl
      cases writable with
      | false => exact Holds.closed _ _
      | true =>
        rw [if_pos rfl,hdrain]
        exact Holds.closed _ _
  unfold PtyChannel.handleEvent
  split
  · exact .same heard hempty rfl rfl
  · cases readable with
    | false => exact hafter (.inl rfl) rfl
    | true => exact hafter hread.1 hread.2

/-- A routed frame for the PTY makes it hold what the frame brings, unless there is no PTY to open. -/
theorem onFrame_holds {f : Frame} (hw : io.write≠.error) (hctl : isControl f.ftype=false)
    (hempty : q.isOpen=false → heard=[] ∧ q.txbuf=[]) :
    Holds heard (q.onFrame f.ftype f.payload io).1 (q.onFrame f.ftype f.payload io).2
      (reception f.channel (holds heard q) f) := by
  simp only [isControl,Bool.or_eq_false_iff,beq_eq_false_iff_ne] at hctl
  have hclean : q.isOpen=false → q.txbuf=[] := fun h => (hempty h).2
  unfold PtyChannel.onFrame
  by_cases hfl : f.ftype=fFlush
  · rw [if_pos hfl]
    exact Holds.closed _ _
  · rw [if_neg hfl]
    by_cases hr : f.ftype=fReady
    · have hne : fReady≠fHello ∧ fReady≠fFlush := by decide
      have hrec : reception f.channel (holds heard q) f=some ((holds heard q).getD []) := by
        simp [reception,hr,hne]
      rw [if_pos hr,hrec]
      unfold PtyChannel.openPty
      cases hfd : q.masterFd with
      | some fd =>
        have hopen : q.isOpen=true := by simp [PtyChannel.isOpen,hfd]
        have hsame := Holds.same heard hclean rfl rfl
        simpa [holds_open hopen] using hsame
      | none =>
        have hclosed : q.isOpen=false := by simp [PtyChannel.isOpen,hfd]
        obtain ⟨rfl,hbuf⟩ := hempty hclosed
        cases io.openPty with
        | none => exact ⟨hclean,.inl (holds_closed hclosed)⟩
        | some fds =>
          have hopen : (PtyChannel.updateInterest {q with
              masterFd := some fds.1, slaveFd := some fds.2, watch := .fresh}).isOpen=true :=
            PtyChannel.updateInterest_isOpen _
          refine ⟨fun hc => absurd hc (by simp [hopen]),.inr ?_⟩
          rw [holds_open hopen,holds_closed hclosed,updateInterest_txbuf,hbuf]
          rfl
    · rw [if_neg hr]
      by_cases hd : f.ftype=fData
      · have hne : fData≠fHello ∧ fData≠fFlush ∧ fData≠fReady := by decide
        have hrec : reception f.channel (holds heard q) f=(holds heard q).map (·++f.payload) := by
          simp [reception,hd,hne]
        rw [if_pos hd,hrec]
        split
        · next hfd =>
          have hclosed : q.isOpen=false := by simp [PtyChannel.isOpen,hfd]
          exact ⟨hclean,.inl (holds_closed hclosed)⟩
        · next fd hfd =>
          have hopen : q.isOpen=true := by simp [PtyChannel.isOpen,hfd]
          have hopen' : ({q with txbuf := q.txbuf++f.payload} : PtyChannel).isOpen=true := hopen
          have hdrain := ptyDrain_holds (q := {q with txbuf := q.txbuf++f.payload}) heard hw
            (fun hc => absurd hc (by simp [hopen']))
          rw [holds_open hopen',← List.append_assoc] at hdrain
          rw [holds_open hopen]
          exact hdrain
      · have hrec : reception f.channel (holds heard q) f=holds heard q := by
          simp [reception,hctl,hfl,hr,hd]
        rw [if_neg hd,hrec]
        exact .same heard hclean rfl rfl

end Pty

/-- The host of channel `id`, of which `R` says what its PTY holds. -/
structure Listens (id : UInt8) (R : Option (List UInt8) → Prop) (heard : List UInt8)
    (d : Daemon (List Frame)) : Prop where
  pty : ∃q,d.channels.get id=some (.pty q) ∧ (q.isOpen=false → q.txbuf=[]) ∧
    (d.disconnected=true → q.isOpen=false) ∧ R (holds heard q)
  down : d.disconnected=true → d.linkFd=none

namespace Listens

variable {id : UInt8} {R R' : Option (List UInt8) → Prop} {heard : List UInt8}
  {d : Daemon (List Frame)}

/-- A call of another channel. -/
theorem other {j : UInt8} (hj : j≠id) (c : Call) (h : Listens id R heard d) :
    Listens id R heard (Daemon.callChannel fifoLink d j c) := by
  obtain ⟨⟨q,hq,hrest⟩,hdown⟩ := h
  exact ⟨⟨q,(ChannelMap.set_get_other _ _ hj.symm).trans hq,hrest⟩,hdown⟩

/-- A call of the channel itself. -/
theorem own {c : Call} {q : PtyChannel} (hq : d.channels.get id=some (.pty q))
    (hdis : d.disconnected=true → (q.apply c).1.isOpen=false)
    (hdown : d.disconnected=true → d.linkFd=none) {got : Option (List UInt8)} (hholds : Holds heard (q.apply c).1 (q.apply c).2 got)
    (hnone : R none) (hgot : R got) :
    Listens id R (heard++(q.apply c).2.wrote) (Daemon.callChannel fifoLink d id c) := by
  refine ⟨⟨(q.apply c).1,by simp [Daemon.callChannel,hq,DynChannel.apply],hholds.empty,hdis,?_⟩,
    hdown⟩
  rcases hholds.got with h|h
  · rw [h]
    exact hnone
  · rw [h]
    exact hgot

theorem still {j : UInt8} {c : Call} (hc : Still c) (h : Listens id R heard d) :
    Listens id R heard (Daemon.callChannel fifoLink d j c) := by
  by_cases hj : j=id
  · subst hj
    obtain ⟨⟨q,hq,hempty,hdis,hR⟩,hdown⟩ := h
    have hsame : (q.apply c).1.isOpen=q.isOpen ∧ (q.apply c).1.txbuf=q.txbuf := by
      obtain ⟨op,io⟩ := c
      cases op with
      | tick now => exact ⟨rfl,rfl⟩
      | pauseSourceReads => exact ⟨q.pauseSourceReads_isOpen,pause_txbuf q⟩
      | resumeSourceReads => exact ⟨q.resumeSourceReads_isOpen,resume_txbuf q⟩
      | onFrame | onLinkConnect | onLinkDisconnect | handleEvent => exact hc.elim
    refine ⟨⟨(q.apply c).1,by simp [Daemon.callChannel,hq,DynChannel.apply],?_,?_,?_⟩,hdown⟩
    · rw [hsame.1,hsame.2]
      exact hempty
    · rw [hsame.1]
      exact hdis
    · simpa only [holds,hsame.1,hsame.2] using hR
  · exact h.other hj c

theorem closed {now : Instant} (hR : ∀got,R got → R none) (h : Listens id R heard d) :
    Listens id R heard (Daemon.closeLink fifoLink d now) := by
  by_cases hd : d.disconnected=true
  · rw [Daemon.closeLink,if_pos hd]
    exact h
  · obtain ⟨q,hq,-,-,hgot⟩ := h.pty
    obtain ⟨-,-,hfd,hget⟩ := Daemon.closeLink_get fifoLink (by simpa using hd) now
    obtain ⟨c,hc,hres⟩ := hget id _ hq
    have hpty : ∃q' : PtyChannel,c=.pty q' := by
      rcases hres with rfl|rfl
      · exact ⟨q,rfl⟩
      · exact ⟨_,rfl⟩
    obtain ⟨q',rfl⟩ := hpty
    have hclosed : q'.closePty.isOpen=false := rfl
    refine ⟨⟨q'.closePty,hc,fun _ => rfl,fun _ => rfl,?_⟩,fun _ => hfd⟩
    rw [holds_closed hclosed]
    exact hR _ hgot

theorem turns (hR : ∀got,R got → R none) :
    Daemon.Turns (fun _ c => Still c) (Listens id R heard) where
  core := by
    intro d d' h hc _ _ hdis hfd _
    obtain ⟨h₁,h₂⟩ := h
    refine ⟨?_,?_⟩
    · rw [hc,hdis]
      exact h₁
    · rw [hdis,hfd]
      exact h₂
  call := still
  pause _ := trivial
  resume _ := trivial
  opened := by
    intro d now dev h hdis
    cases dev with
    | none => exact ⟨h.pty,h.down⟩
    | some fd =>
      obtain ⟨q,hq,hempty,-,hgot⟩ := h.pty
      exact ⟨⟨q,hq,hempty,fun hd => absurd hd (by simp [Daemon.openLink]),hgot⟩,
        fun hd => absurd hd (by simp [Daemon.openLink])⟩
  closed := closed hR
  ping := by
    intro d now h
    rcases Daemon.enqueueFrame_fifo d now fPing with ⟨he,-⟩|⟨b,he⟩
    · rw [he]
      exact h
    · rw [he]
      exact ⟨h.pty,h.down⟩

/-- The link has come up: every PTY is closed. -/
theorem connected {now : Instant} (hR : ∀got,R got → R' none) (h : Listens id R heard d) :
    Listens id R' heard (Daemon.connectChannels fifoLink {d with linkUp := true} now) := by
  obtain ⟨⟨q,hq,-,-,hgot⟩,hdown⟩ := h
  obtain ⟨m,b,hc,-,hget⟩ := Daemon.connectChannels_fifo {d with linkUp := true} now
  have hclosed : q.closePty.isOpen=false := rfl
  rw [hc]
  refine ⟨⟨q.closePty,by simp [hget,hq,DynChannel.apply,PtyChannel.apply],fun _ => rfl,
    fun _ => rfl,?_⟩,hdown⟩
  rw [holds_closed hclosed]
  exact hR _ hgot

end Listens

/-- The frames on their way to the host and what its PTY holds fit what the UART has said. -/
abbrev Fits (id : UInt8) (I B : Option (List UInt8) → Prop) (fs : List Frame)
    (got : Option (List UInt8)) : Prop :=
  Foretells (reception id) none I B fs got

namespace Listens

variable {id : UInt8} {I B : Option (List UInt8) → Prop} {heard : List UInt8} {f : Frame}
  {fs : List Frame} {d : Daemon (List Frame)}

/-- A frame for the channels, with what it makes the PTY write. -/
theorem route {now : Instant} {io : Io} (hI : I none) (hw : io.write≠.error)
    (hdis : d.disconnected=false) (hctl : isControl f.ftype=false)
    (hclosed : ∀q,d.channels.get id=some (.pty q) → q.isOpen=false → heard=[])
    (h : Listens id (Fits id I B (f::fs)) heard d) :
    Listens id (Fits id I B fs) (heard++(arrival id d f io).wrote)
      (Daemon.routeFrame fifoLink d now io f) := by
  have hnone : ∀got,Fits id I B fs got → Fits id I B fs none := fun _ h => h.lose hI
  have hnone' : ∀got,Fits id I B (f::fs) got → Fits id I B (f::fs) none := fun _ h => h.lose hI
  have hbefore : Listens id (Fits id I B (f::fs)) heard (beforeRoute d f) := by
    unfold beforeRoute
    split_ifs
    · exact (turns hnone').toKept.checkBpHigh h
    · exact h
  refine (turns hnone).toKept.touch now ?_
  change Listens id (Fits id I B fs) (heard++(arrival id d f io).wrote)
    (Daemon.callChannel fifoLink (beforeRoute d f) f.channel ⟨.onFrame f.ftype f.payload,io⟩)
  obtain ⟨hdis',hget⟩ := beforeRoute_get id d f
  by_cases hch : f.channel=id
  · subst hch
    obtain ⟨⟨q,hq,hempty,-,hfits⟩,hdown⟩ := hbefore
    have hheard : q.isOpen=false → heard=[] := by
      obtain ⟨q₀,hq₀,-⟩ := h.pty
      rcases hget with hg|hg
      · rw [hg] at hq
        exact hclosed q hq
      · rw [hg,hq₀] at hq
        obtain rfl : q₀.pauseSourceReads=q := by simpa [DynChannel.apply,PtyChannel.apply] using hq
        rw [PtyChannel.pauseSourceReads_isOpen]
        exact hclosed q₀ hq₀
    have heffect : arrival f.channel d f io=(q.apply ⟨.onFrame f.ftype f.payload,io⟩).2 := by
      simp [arrival,hctl,effect,hq,DynChannel.apply]
    rw [heffect]
    exact own hq (fun hd => absurd hd (by simp [hdis',hdis])) hdown
      (onFrame_holds hw hctl (fun hc => ⟨hheard hc,hempty hc⟩)) (hnone _ hfits.deliver) hfits.deliver
  · have hsame : ∀got,reception id got f=got := by
      intro got
      simp only [isControl,Bool.or_eq_false_iff,beq_eq_false_iff_ne] at hctl
      simp [reception,hch,hctl]
    have hquiet : (arrival id d f io).wrote=[] := by simp [arrival,hch]
    rw [hquiet,List.append_nil]
    have hother := hbefore.other hch ⟨.onFrame f.ftype f.payload,io⟩
    obtain ⟨⟨q,hq,hempty,hd,hfits⟩,hdown⟩ := hother
    refine ⟨⟨q,hq,hempty,hd,?_⟩,hdown⟩
    have hnext := hfits.deliver
    rwa [hsame] at hnext

/-- An event of some fd, with what it makes the PTY write. -/
theorem event {R : Option (List UInt8) → Prop} {now : Instant} {token : Token}
    {readable writable : Bool} {io : Io} (hw : io.write≠.error) (hR : ∀got,R got → R none)
    (h : Listens id R heard d) :
    Listens id R (heard++(occurrence id d.channels token readable writable io).wrote)
      (Daemon.channelEvent fifoLink d now token readable writable io) := by
  unfold Daemon.channelEvent occurrence
  cases htoken : channelIdForToken token with
  | none => simpa using h
  | some j =>
    apply (turns hR).toKept.touch
    apply (turns hR).toKept.checkBpHigh
    by_cases hj : j=id
    · subst hj
      obtain ⟨⟨q,hq,hempty,hdis,hgot⟩,hdown⟩ := h
      have heffect : effect j d.channels ⟨.handleEvent token readable writable,io⟩=
          (q.apply ⟨.handleEvent token readable writable,io⟩).2 := by
        simp [effect,hq,DynChannel.apply]
      rw [if_pos rfl,heffect]
      refine own hq ?_ hdown (handleEvent_holds hw readable writable hempty) (hR _ hgot) hgot
      intro hd
      have hshut : q.masterFd=none := by simpa [PtyChannel.isOpen] using hdis hd
      simpa [PtyChannel.apply,PtyChannel.handleEvent,hshut] using hdis hd
    · simpa [hj] using h.other hj ⟨.handleEvent token readable writable,io⟩

/-- The arrival of the first frame, whatever it is. -/
theorem dispatch (now : Instant) {io : Io} (hI : I none) (hw : io.write≠.error)
    (hfd : d.linkFd≠none)
    (hclosed : ∀q,d.channels.get id=some (.pty q) → q.isOpen=false → heard=[])
    (h : Listens id (Fits id I B (f::fs)) heard d) :
    Listens id (Fits id I B fs) (heard++(arrival id d f io).wrote)
      (Daemon.dispatchFrame fifoLink d now io f) := by
  have hdis : d.disconnected=false := by
    by_contra hd
    exact hfd (h.down (by simpa using hd))
  have hquiet : isControl f.ftype=true → heard++(arrival id d f io).wrote=heard := by
    intro hc
    simp [arrival,hc]
  have hnone : ∀got,Fits id I B (f::fs) got → Fits id I B fs none :=
    fun _ h => h.deliver.lose hI
  -- A frame of the daemons that is no HELLO means nothing to the PTY.
  have hskip : (f.ftype=fPing ∨ f.ftype=fPong ∨ f.ftype=fAck) →
      Listens id (Fits id I B fs) heard d := by
    intro hf
    have hne : f.ftype≠fHello ∧ f.ftype≠fFlush ∧ f.ftype≠fReady ∧ f.ftype≠fData := by
      rcases hf with hf|hf|hf <;> rw [hf] <;> decide
    obtain ⟨⟨q,hq,hempty,hd,hfits⟩,hdown⟩ := h
    refine ⟨⟨q,hq,hempty,hd,?_⟩,hdown⟩
    have hnext := hfits.deliver
    have hsame : reception id (holds heard q) f=holds heard q := by simp [reception,hne]
    rwa [hsame] at hnext
  apply Daemon.dispatchFrame_induct
  · intro hp
    rw [hquiet (by simp [isControl,hp])]
    rcases Daemon.enqueueFrame_fifo d now fPong with ⟨he,-⟩|⟨b,he⟩
    · rw [he]
      exact hskip (.inl hp)
    · rw [he]
      exact ⟨(hskip (.inl hp)).pty,(hskip (.inl hp)).down⟩
  · intro hp
    rw [hquiet (by simp [isControl,hp])]
    exact hskip (.inr (.inl hp))
  · intro hh
    rw [hquiet (by simp [isControl,hh])]
    rcases Daemon.enqueueFrame_fifo d now fAck with ⟨he,-⟩|⟨b,he⟩
    · rw [he]
      exact h.connected hnone
    · rw [he]
      exact Listens.connected (d := {d with
        txq := d.txq++[Daemon.controlFrame fAck], lastTx := some now, wantWrite := b})
        hnone ⟨h.pty,h.down⟩
  · intro ha _
    rw [hquiet (by simp [isControl,ha])]
    exact hskip (.inr (.inr ha))
  · intro ha _
    rw [hquiet (by simp [isControl,ha])]
    exact h.connected hnone
  · intro hr
    exact h.route hI hw hdis hr hclosed

end Listens

/-- The reader of the PTY takes what is written, or the kernel has no room for it. -/
def PairOp.PtyTakes : PairOp → Prop
  | .host (.own (.event _ _ _ _ io)) => io.write≠.error
  | .host (.deliver _ io) => io.write≠.error
  | _ => True

/-- The host's side of a turn, with what is left of the frames on their way to it. -/
theorem Listens.step {id : UInt8} {I B : Option (List UInt8) → Prop} {heard : List UInt8}
    {txq : List Frame} {e : Endpoint} (op : EndpointOp) (hop : (PairOp.host op).PtyTakes)
    (hI : I none) (hclosed : ∀q,e.daemon.channels.get id=some (.pty q) → q.isOpen=false → heard=[])
    (h : Listens id (Fits id I B (e.incoming++txq)) heard e.daemon) :
    Listens id (Fits id I B ((e.step op).1.incoming++txq)) (heard++(e.effectOn id op).wrote)
      (e.step op).1.daemon := by
  have hnone : ∀got,Fits id I B (e.incoming++txq) got → Fits id I B (e.incoming++txq) none :=
    fun _ h => h.lose hI
  cases op with
  | own op =>
    by_cases hev : ∃now token readable writable io,op=.event now token readable writable io
    · obtain ⟨now,token,readable,writable,io,rfl⟩ := hev
      exact h.event hop hnone
    · push Not at hev
      have hok : Daemon.Calls (fun _ c => Still c) op := by
        cases op with
        | head now later dev ios => exact fun _ => trivial
        | event now token readable writable io => exact absurd rfl (hev _ _ _ _ _)
        | start | send | readError | restart => trivial
      have hquiet : e.effectOn id (.own op)=.quiet := by
        cases op with
        | event now token readable writable io => exact absurd rfl (hev _ _ _ _ _)
        | start | head | send | readError | restart => rfl
      rw [hquiet,Effect.quiet_wrote,List.append_nil]
      apply (Listens.turns hnone).step hok
      · intro now w _ _
        exact ⟨h.pty,h.down⟩
      · intro now ios _
        obtain ⟨q,hq,-,-,hfits⟩ := h.pty
        have hshut : (PtyChannel.new q.chId).isOpen=false := rfl
        refine ⟨⟨.new q.chId,?_,fun _ => rfl,fun _ => rfl,?_⟩,fun _ => rfl⟩
        · simp [Daemon.new,ChannelMap.fresh,hq,DynChannel.fresh]
        · rw [holds_closed hshut]
          exact hnone _ hfits
      · exact fun _ => h
  | deliver now io =>
    cases hin : e.incoming with
    | nil =>
      rw [hin] at h
      simpa [Endpoint.step,Endpoint.effectOn,hin] using h
    | cons f fs =>
      by_cases hfd : e.daemon.linkFd=none
      · rw [hin] at h
        simpa [Endpoint.step,Endpoint.effectOn,hin,hfd] using h
      · rw [hin] at h
        have hd : Listens id (Fits id I B (f::(fs++txq))) heard
            {e.daemon with lastRx := some now} := ⟨h.pty,h.down⟩
        have hnext := Listens.dispatch (d := {e.daemon with lastRx := some now}) now hI hop hfd
          hclosed hd
        simpa [Endpoint.step,Endpoint.effectOn,hin,hfd,Daemon.receive] using hnext
  | lose n =>
    have hquiet : (e.effectOn id (.lose n)).wrote=[] := rfl
    rw [hquiet,List.append_nil]
    simp only [Endpoint.step]
    split_ifs with hd
    · obtain ⟨⟨q,hq,hempty,hdis,hfits⟩,hdown⟩ := h
      refine ⟨⟨q,hq,hempty,hdis,?_⟩,hdown⟩
      rw [holds_closed (hdis hd)] at hfits ⊢
      rcases Nat.le_total n e.incoming.length with hn|hn
      · rw [← List.drop_append_of_le_length hn]
        exact hfits.drop hI n
      · rw [List.drop_of_length_le hn,List.nil_append]
        have hall := hfits.drop hI e.incoming.length
        rwa [List.drop_left] at hall
    · exact h

/-- The invariant of channel `id`: what its PTY holds and what is on its way to it fit what the UART
has said. -/
structure Carries (id : UInt8) (s : Uplink) : Prop where
  pty : ∃q,s.pair.host.daemon.channels.get id=some (.pty q) ∧
    (q.isOpen=false → s.heard=[] ∧ q.txbuf=[]) ∧
    (s.pair.host.daemon.disconnected=true → q.isOpen=false) ∧
    Speaks id s.speech s.pair.host.incoming (holds s.heard q) s.pair.exporter.daemon
  down : s.pair.host.daemon.disconnected=true → s.pair.host.daemon.linkFd=none

namespace Carries

variable {id : UInt8} {s : Uplink}

theorem step {op : PairOp} (hop : op.PtyTakes) (h : Carries id s) : Carries id (s.step id op).1 := by
  obtain ⟨⟨q,hq,hclosed,hdis,hspeaks⟩,hdown⟩ := h
  obtain ⟨m,hm,hl,hf⟩ := hspeaks.mcu
  cases op with
  | exporter op =>
    simp only [Uplink.step,hm]
    exact ⟨⟨q,hq,hclosed,hdis,hspeaks.step op hm⟩,hdown⟩
  | host op =>
    have hlistens : Listens id (Fits id (Spoken s.speech)
        (Ends s.speech s.pair.exporter.daemon.linkUp (m.state=.active)
          (s.pair.exporter.daemon.linkFd=none))
        (s.pair.host.incoming++s.pair.exporter.daemon.txq)) s.heard s.pair.host.daemon :=
      ⟨⟨q,hq,fun h => (hclosed h).2,hdis,hf⟩,hdown⟩
    have hheard : ∀q',s.pair.host.daemon.channels.get id=some (.pty q') → q'.isOpen=false →
        s.heard=[] := by
      intro q' hq' hc
      obtain rfl : q=q' := by simpa [hq] using hq'
      exact (hclosed hc).1
    obtain ⟨⟨q',hq',hempty,hdis',hfits⟩,hdown'⟩ :=
      hlistens.step op hop (Spoken.none s.speech) hheard
    have hget : (s.pair.step (.host op)).1.host.daemon.channels.get id=some (.pty q') := hq'
    simp only [Uplink.step,hget]
    refine ⟨⟨q',hq',?_,hdis',⟨m,hm,hl,?_⟩,hspeaks.down⟩,hdown'⟩
    · intro hc
      exact ⟨by simp [hc],hempty hc⟩
    · cases ho : q'.isOpen with
      | true =>
        simp only [if_true]
        exact hfits
      | false =>
        rw [holds_closed ho] at hfits ⊢
        exact hfits

theorem new {exporter host : ChannelMap} {io : Io} (hexp : exporter.get id=some (.mcu (.new id io)))
    (hhost : host.get id=some (.pty (.new id))) (now : Instant) :
    Carries id (Uplink.new exporter host now) := by
  have hshut : (PtyChannel.new id).isOpen=false := rfl
  refine ⟨⟨.new id,hhost,fun _ => ⟨rfl,rfl⟩,fun _ => rfl,⟨.new id io,hexp,?_,?_⟩,
    fun _ => ⟨rfl,rfl⟩⟩,fun _ => rfl⟩
  · exact (McuChannel.openUart_same _ io).2.2
  · rw [holds_closed hshut]
    have hnone := Spoken.none (Uplink.new exporter host now).speech
    simpa [Uplink.new,Pair.new,Daemon.new,fifoLink,Foretells] using hnone

end Carries

/-- Whatever the order of reads, resets, link losses, restarts, timeouts and deliveries on the two
sides, while no queue refuses a frame: as long as its reader takes them, the bytes that a PTY is
given from its opening on are a contiguous piece of what the UART has said between a sync byte and
the next reset, from a READY on. Once both sides are connected and nothing is on its way to the
host, an open PTY has all of it. -/
theorem klipper_hears_mcu {exporter host : ChannelMap} {id : UInt8} {io : Io}
    (hexp : exporter.get id=some (.mcu (.new id io))) (hhost : host.get id=some (.pty (.new id)))
    (now : Instant) {ops : List PairOp} (hops : ∀op∈ops,op.PtyTakes) :
    ∃m q,
      (after (Uplink.step id) (Uplink.new exporter host now) ops).pair.exporter.daemon.channels.get
        id=some (.mcu m) ∧
      (after (Uplink.step id) (Uplink.new exporter host now) ops).pair.host.daemon.channels.get
        id=some (.pty q) ∧
      (q.isOpen=true →
        ∃u∈(after (Uplink.step id) (Uplink.new exporter host now) ops).speech,∃k∈u.ready,
          (after (Uplink.step id) (Uplink.new exporter host now) ops).heard++q.txbuf <+:
            u.said.drop k) ∧
      (q.isOpen=true →
        (after (Uplink.step id) (Uplink.new exporter host now) ops).pair.Connected →
        (after (Uplink.step id) (Uplink.new exporter host now) ops).pair.towardsHost=[] →
        m.state=.active ∧
          ∃u us,(after (Uplink.step id) (Uplink.new exporter host now) ops).speech=u::us ∧
            ∃k∈u.ready,(after (Uplink.step id) (Uplink.new exporter host now) ops).heard++q.txbuf=
              u.said.drop k) := by
  have hinv : Carries id (after (Uplink.step id) (Uplink.new exporter host now) ops) :=
    after_of_always (Uplink.step id) (fun _ _ h hop => h.step hop) (Carries.new hexp hhost now)
      (always_of_forall (Uplink.step id) hops)
  generalize after (Uplink.step id) (Uplink.new exporter host now) ops=s at hinv ⊢
  obtain ⟨⟨q,hq,-,-,hspeaks⟩,-⟩ := hinv
  obtain ⟨m,hm,-,hf⟩ := hspeaks.mcu
  refine ⟨m,q,hm,hq,?_,?_⟩
  · intro hopen
    rw [holds_open hopen] at hf
    exact hf.now (fun _ => Ends.spoken) _ rfl
  · intro hopen hup hidle
    have hidle' : s.pair.host.incoming++s.pair.exporter.daemon.txq=[] := hidle
    rw [hidle',holds_open hopen,hup.1] at hf
    have hends := hf.1
    by_cases ha : m.state=.active
    · simp only [Ends,ha,decide_true,if_true] at hends
      obtain ⟨u,us,hus,hu⟩ := hends
      obtain ⟨k,hk,-,he⟩ := hu _ rfl
      exact ⟨ha,u,us,hus,k,hk,he⟩
    · simp [Ends,ha] at hends

/-- A kernel with a PTY to give away, whose reader takes two bytes at a time, and a UART that reads
noise, the sync byte and one more byte. -/
def wakeIo : Io :=
  {Io.idle with
    openSerialFd := some 4, openPty := some (5,6), write := .wrote 2
    read := .data [0,klipperSync,1] (by decide)}

/-- The handshake, and a UART that wakes up and goes on talking. -/
def wakeOps : List PairOp :=
  [.exporter (.own (.start 0 (some 3))),.host (.own (.start 0 (some 3))),
    .exporter (.own (.send 1 (some 1))),.host (.own (.send 1 (some 1))),
    .exporter (.deliver 2 wakeIo),.host (.deliver 2 wakeIo),
    .exporter (.own (.event 3 (primaryToken 0) true false wakeIo)),
    .exporter (.own (.event 4 (primaryToken 0) true false wakeIo)),
    .exporter (.own (.send 5 (some 9)))]++
  List.replicate 5 (.host (.deliver 6 wakeIo))

def wakeRun : Uplink :=
  after (Uplink.step 0)
    (Uplink.new (.single (.mcu (.new 0 wakeIo))) (.single (.pty (.new 0))) 0) wakeOps

/-- Whether a channel has a PTY to show. -/
def shownPty : DynChannel → Bool
  | .pty q => q.isOpen
  | _ => false

theorem klipper_hears_mcu_wake :
    wakeRun.heard=[klipperSync,1,0,klipperSync] ∧
      ∃q,wakeRun.pair.host.daemon.channels.get 0=some (.pty q) ∧ q.isOpen=true ∧
        ∃u us,wakeRun.speech=u::us ∧ ∃k∈u.ready,wakeRun.heard++q.txbuf=u.said.drop k := by
  have hexp : (ChannelMap.single (.mcu (.new 0 wakeIo))).get 0=some (.mcu (.new 0 wakeIo)) := rfl
  have hops : ∀op∈wakeOps,op.PtyTakes := by
    intro op hop
    simp only [wakeOps,List.mem_append,List.mem_cons,List.mem_replicate,List.not_mem_nil,
      or_false] at hop
    rcases hop with (rfl|rfl|rfl|rfl|rfl|rfl|rfl|rfl|rfl)|⟨-,rfl⟩ <;> simp [PairOp.PtyTakes,wakeIo]
  have hhost : (ChannelMap.single (.pty (.new 0))).get 0=some (.pty (.new 0)) := rfl
  obtain ⟨m,q,-,hq,-,hall⟩ := klipper_hears_mcu hexp hhost 0 hops
  have hshown : (wakeRun.pair.host.daemon.channels.get 0).any shownPty=true := by decide +kernel
  have hopen : q.isOpen=true := by
    have hget : wakeRun.pair.host.daemon.channels.get 0=some (.pty q) := hq
    rwa [hget] at hshown
  obtain ⟨-,hsaid⟩ := hall hopen ⟨by decide +kernel,by decide +kernel⟩ (by decide +kernel)
  exact ⟨by decide +kernel,q,hq,hopen,hsaid⟩

end Serialmux.System

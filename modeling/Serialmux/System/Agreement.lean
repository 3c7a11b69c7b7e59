import Serialmux.Framework.Machine
import Serialmux.Framework.Marks
import Serialmux.System.Pair

namespace Serialmux.System

open Framework Protocol Channel EventLoop

/-- What a frame means to the host's PTY: it starts over, opens or closes. -/
inductive Notice where
  | greeting
  | status (active : Bool)
  deriving DecidableEq

/-- HELLO and ACK concern every channel, READY and FLUSH the one they name. -/
def notice (id : UInt8) (f : Frame) : Option Notice :=
  if f.ftype=fHello ∨ f.ftype=fAck then some .greeting
  else if f.channel=id ∧ f.ftype=fReady then some (.status true)
  else if f.channel=id ∧ f.ftype=fFlush then some (.status false)
  else none

/-- Whether a PTY is open after a routed frame. -/
def Notice.shows : Option Notice → Bool → Bool
  | some (.status b),_ => b
  | _,shown => shown

/-- The state the host will have heard of once its queue is empty, where `view` is what it shows
now: nothing while its link is down. -/
def Told (active : Bool) : Option Notice → Option Bool → Prop
  | some (.status b),_ => b=active
  | some .greeting,_ => False
  | none,view => ∀shown,view=some shown → shown=active

theorem Told.down {active : Bool} {n : Option Notice} {view : Option Bool}
    (h : Told active n view) : Told active n none := by
  match n with
  | some (.status _) => exact h
  | some .greeting => exact h
  | none => exact nofun

/-- What the host shows after the last frame, which has told it `n`. -/
theorem Told.shown {active up shown : Bool} {n : Option Notice}
    (h : Told active n (if up then some shown else none)) :
    Told active none (if up then some (Notice.shows n shown) else none) := by
  intro shown' hs
  cases up with
  | false => simp at hs
  | true =>
    match n with
    | some (.status b) => exact (Option.some.inj hs).symm.trans h
    | some .greeting => exact h.elim
    | none => exact h shown' hs

/-- A frame that arrives need only be checked as the last one. -/
theorem Told.deliver {id : UInt8} {active : Bool} {f : Frame} {fs : List Frame}
    {view view' : Option Bool} (h : Told active (lastMark (notice id) (f::fs)) view)
    (hlast : Told active (notice id f) view → Told active none view') :
    Told active (lastMark (notice id) fs) view' := by
  rw [lastMark_cons] at h
  match hm : lastMark (notice id) fs with
  | some (.status _) =>
    rw [hm,Option.some_or] at h
    exact h
  | some .greeting =>
    rw [hm,Option.some_or] at h
    exact h
  | none =>
    rw [hm,Option.none_or] at h
    exact hlast h

theorem notice_keepalive (id : UInt8) : notice id (Daemon.controlFrame fPing)=none ∧
    notice id (Daemon.controlFrame fPong)=none := by
  have h : fPing≠fHello ∧ fPing≠fAck ∧ fPing≠fReady ∧ fPing≠fFlush ∧
      fPong≠fHello ∧ fPong≠fAck ∧ fPong≠fReady ∧ fPong≠fFlush := by decide
  simp [notice,Daemon.controlFrame,h]

theorem notice_other {id j : UInt8} {f : Frame} (h : ChannelFrame j f) (hj : j≠id) :
    notice id f=none := by
  have hr := h.routed
  simp only [isControl,Bool.or_eq_false_iff,beq_eq_false_iff_ne] at hr
  simp [notice,h.channel,hj,hr]

theorem notice_route {id : UInt8} {f : Frame} (h : isControl f.ftype=false) :
    notice id f=
      if f.channel=id ∧ f.ftype=fReady then some (.status true)
      else if f.channel=id ∧ f.ftype=fFlush then some (.status false) else none := by
  simp only [isControl,Bool.or_eq_false_iff,beq_eq_false_iff_ne] at h
  simp [notice,h]

/-- The exporter of channel `id`, where `wire` is what it has put on the link and `view` what the
host shows. -/
structure Exports (id : UInt8) (wire : List Frame) (view : Option Bool)
    (d : Daemon (List Frame)) : Prop where
  mcu : ∃m,d.channels.get id=some (.mcu m) ∧ m.linkUp=d.linkUp ∧ (d.linkUp=true →
    Told (m.state=.active) (lastMark (notice id) (wire++d.txq)) view)
  down : d.disconnected=true → d.linkUp=false ∧ d.linkFd=none

namespace Exports

variable {id : UInt8} {wire : List Frame} {view : Option Bool} {d : Daemon (List Frame)}

/-- A call that is neither a connect nor a disconnect; it announces a change of the UART's state
in the frame that goes with it. -/
theorem call {j : UInt8} {c : Call}
    (hc : c.op≠.onLinkConnect ∧ c.op≠.onLinkDisconnect) (h : Exports id wire view d) :
    Exports id wire view (Daemon.callChannel fifoLink d j c) := by
  obtain ⟨⟨m,hm,hl,htold⟩,hdown⟩ := h
  refine ⟨?_,hdown⟩
  rw [Daemon.callChannel_txq,← List.append_assoc]
  by_cases hj : id=j
  · subst hj
    refine ⟨(m.apply c).1,by simp [Daemon.callChannel,hm,DynChannel.apply],?_⟩
    have hid : m.chId=id := d.channels.ids id _ hm
    have hframes : d.channels.frames id c=(m.apply c).2.frames := by
      simp [ChannelMap.frames,hm,DynChannel.apply]
    rw [hframes]
    obtain ⟨hmoves,-⟩ := m.apply_moves c
    cases hmoves with
    | connect ho => exact absurd ho hc.1
    | disconnect ho => exact absurd ho hc.2
    | stay _ hs hl' hf =>
      refine ⟨hl'.trans hl,?_⟩
      rw [hf,hs,List.append_nil]
      exact htold
    | forward _ hs hs' hl' _ hf =>
      refine ⟨hl'.trans hl,?_⟩
      intro hup
      have hdata : ∀bs,notice id (m.frame fData bs)=none := by
        intro bs
        have h₁ : fData≠fHello ∧ fData≠fAck ∧ fData≠fReady ∧ fData≠fFlush := by decide
        simp [notice,McuChannel.frame,h₁]
      have hunmarked : ∀f∈(m.apply c).2.frames,notice id f=none := by
        simp [hf,McuChannel.whenUp,hl,hdata]
      have hbefore := htold hup
      rw [hs] at hbefore
      rw [lastMark_append_unmarked _ hunmarked,hs']
      exact hbefore
    | wake _ _ hs' hl' _ hf =>
      refine ⟨hl'.trans hl,?_⟩
      intro hup
      have hready : lastMark (notice id) (m.apply c).2.frames=some (.status true) := by
        have h₁ : fReady≠fHello ∧ fReady≠fAck ∧ fData≠fHello ∧ fData≠fAck ∧ fData≠fReady ∧
          fData≠fFlush := by decide
        have hup' : m.linkUp=true := hl.trans hup
        simp [hf,McuChannel.whenUp,hup',lastMark_cons,notice,McuChannel.frame,h₁,hid]
      rw [lastMark_append,hready,hs',Option.some_or]
      rfl
    | reset _ _ hs' hl' _ hf =>
      refine ⟨hl'.trans hl,?_⟩
      intro hup
      have hflush : lastMark (notice id) (m.apply c).2.frames=some (.status false) := by
        have h₁ : fFlush≠fHello ∧ fFlush≠fAck ∧ fFlush≠fReady := by decide
        have hup' : m.linkUp=true := hl.trans hup
        simp [hf,McuChannel.whenUp,hup',lastMark_cons,notice,McuChannel.frame,h₁,hid]
      rw [lastMark_append,hflush,hs',Option.some_or]
      rfl
  · refine ⟨m,(ChannelMap.set_get_other _ _ hj).trans hm,hl,?_⟩
    rw [lastMark_append_unmarked]
    · exact htold
    · intro f hf
      exact notice_other (d.channels.frames_channelFrame j c f hf) (Ne.symm hj)

/-- A frame of the daemon that is no greeting. -/
theorem control {now : Instant} {ftype : UInt8} (hf : notice id (Daemon.controlFrame ftype)=none)
    (h : Exports id wire view d) :
    Exports id wire view (Daemon.enqueueFrame fifoLink d now (Daemon.controlFrame ftype)) := by
  rcases Daemon.enqueueFrame_fifo d now ftype with ⟨he,-⟩|⟨b,he⟩
  · rw [he]
    exact h
  · rw [he]
    obtain ⟨⟨m,hm,hl,htold⟩,hdown⟩ := h
    refine ⟨⟨m,hm,hl,?_⟩,hdown⟩
    rw [← List.append_assoc,lastMark_append_unmarked _ (by simpa using hf)]
    exact htold

/-- Once the link is up every channel has said its state after the last greeting, whatever was
queued before. -/
theorem connected {now : Instant} (hup : d.linkUp=true) (hd : d.disconnected=false)
    (hm : ∃m,d.channels.get id=some (.mcu m)) :
    Exports id wire view (Daemon.connectChannels fifoLink d now) := by
  obtain ⟨m,hm⟩ := hm
  obtain ⟨channels,b,hc,-,hget⟩ := Daemon.connectChannels_fifo d now
  rw [hc]
  have hid : m.chId=id := d.channels.ids id _ hm
  refine ⟨⟨{m with linkUp := true},?_,hup.symm,?_⟩,fun h => absurd h (by simp [hd])⟩
  · simp [hget,hm,DynChannel.apply,McuChannel.apply,McuChannel.onLinkConnect]
  · intro _
    have hgreet : lastMark (notice id) (Daemon.greetings d.channels)=
        some (.status (decide (m.state=.active))) := by
      have hown : d.channels.frames id ⟨.onLinkConnect,Io.idle⟩=
          [m.frame (if m.state=.active then fReady else fFlush) []] := by
        simp [ChannelMap.frames,hm,DynChannel.apply,McuChannel.apply,McuChannel.onLinkConnect]
      have hnotice : notice id (m.frame (if m.state=.active then fReady else fFlush) [])=
          some (.status (decide (m.state=.active))) := by
        have h₁ : fReady≠fHello ∧ fReady≠fAck ∧ fFlush≠fHello ∧ fFlush≠fAck ∧ fFlush≠fReady := by
          decide
        by_cases hs : m.state=.active <;> simp [notice,McuChannel.frame,hid,hs,h₁]
      apply lastMark_const
      · intro f hf
        obtain ⟨j,-,hf⟩ := List.mem_flatMap.mp hf
        by_cases hj : j=id
        · subst hj
          rw [hown] at hf
          rw [List.mem_singleton.mp hf]
          exact .inr hnotice
        · exact .inl (notice_other (d.channels.frames_channelFrame j _ f hf) hj)
      · refine ⟨_,List.mem_flatMap.mpr ⟨id,?_,?_⟩,hnotice⟩
        · rw [d.channels.covers,hm]
          rfl
        · rw [hown]
          exact List.mem_singleton_self _
    rw [← List.append_assoc,lastMark_append,hgreet,Option.some_or]
    rfl

theorem closed {now : Instant} (h : Exports id wire view d) :
    Exports id wire view (Daemon.closeLink fifoLink d now) := by
  by_cases hd : d.disconnected=true
  · rw [Daemon.closeLink,if_pos hd]
    exact h
  · obtain ⟨m,hm,-,-⟩ := h.mcu
    obtain ⟨hup,hdis,hfd,hget⟩ := Daemon.closeLink_get fifoLink (by simpa using hd) now
    obtain ⟨c,hc,hres⟩ := hget id _ hm
    have hmcu : ∃m' : McuChannel,c=.mcu m' := by
      rcases hres with rfl|rfl
      · exact ⟨m,rfl⟩
      · exact ⟨_,rfl⟩
    obtain ⟨m',rfl⟩ := hmcu
    refine ⟨⟨_,hc,?_,fun h => absurd h (by simp [hup])⟩,fun _ => ⟨hup,hfd⟩⟩
    rw [hup]
    simp [McuChannel.apply,McuChannel.onLinkDisconnect]

theorem turns : Daemon.Turns (fun _ c => c.op≠.onLinkConnect ∧ c.op≠.onLinkDisconnect)
    (Exports id wire view) where
  core := by
    intro d d' h hc hq hup hdis hfd _
    obtain ⟨h₁,h₂⟩ := h
    refine ⟨?_,?_⟩
    · rw [hc,hq,hup]
      exact h₁
    · rw [hdis,hup,hfd]
      exact h₂
  call := call
  pause _ := ⟨nofun,nofun⟩
  resume _ := ⟨nofun,nofun⟩
  opened := by
    intro d now dev h hdis
    cases dev with
    | none => exact ⟨h.mcu,h.down⟩
    | some fd =>
      obtain ⟨m,hm,hl,-⟩ := h.mcu
      have hup : d.linkUp≠true := by simp [(h.down hdis).1]
      exact ⟨⟨m,hm,hl,fun h => absurd h hup⟩,nofun⟩
  closed := closed
  ping := control (notice_keepalive id).1

theorem dispatch {now : Instant} {io : Io} {f : Frame} (h : Exports id wire view d)
    (hfd : d.linkFd≠none) : Exports id wire view (Daemon.dispatchFrame fifoLink d now io f) := by
  have hdis : d.disconnected=false := by
    by_contra hd
    exact hfd (h.down (by simpa using hd)).2
  obtain ⟨m,hm,-,-⟩ := h.mcu
  apply Daemon.dispatchFrame_induct
  · intro _
    exact control (notice_keepalive id).2 h
  · intro _
    exact h
  · intro _
    rcases Daemon.enqueueFrame_fifo d now fAck with ⟨he,-⟩|⟨b,he⟩
    · rw [he]
      exact connected rfl hdis ⟨m,hm⟩
    · rw [he]
      exact connected rfl hdis ⟨m,hm⟩
  · intro _ _
    exact h
  · intro _ _
    exact connected rfl hdis ⟨m,hm⟩
  · intro _
    exact turns.toKept.routeFrame now ⟨nofun,nofun⟩ h

end Exports

/-- The host of channel `id`, of which `R` says what it shows. -/
structure Hosts (id : UInt8) (R : Option Bool → Prop) (d : Daemon (List Frame)) : Prop where
  pty : ∃q,d.channels.get id=some (.pty q) ∧ R (if d.linkUp then some q.isOpen else none)
  down : d.disconnected=true → d.linkUp=false ∧ d.linkFd=none

namespace Hosts

variable {id : UInt8} {R R' : Option Bool → Prop} {d : Daemon (List Frame)}

/-- A call that leaves every PTY as it is. -/
def Harmless (c : Call) : Prop :=
  match c.op with
  | .onFrame _ _ => False
  | .onLinkConnect => False
  | .onLinkDisconnect => False
  | .handleEvent _ _ _ => c.io.read≠.error .eio
  | _ => True

theorem call {j : UInt8} {c : Call} (hc : Harmless c) (h : Hosts id R d) :
    Hosts id R (Daemon.callChannel fifoLink d j c) := by
  obtain ⟨⟨q,hq,hR⟩,hdown⟩ := h
  refine ⟨?_,hdown⟩
  by_cases hj : id=j
  · subst hj
    refine ⟨(q.apply c).1,by simp [Daemon.callChannel,hq,DynChannel.apply],?_⟩
    have hopen : (q.apply c).1.isOpen=q.isOpen := by
      obtain ⟨op,io⟩ := c
      cases op with
      | onFrame ftype payload => exact False.elim hc
      | onLinkConnect => exact False.elim hc
      | onLinkDisconnect => exact False.elim hc
      | tick now => rfl
      | handleEvent token readable writable => exact q.handleEvent_isOpen readable writable hc
      | pauseSourceReads => exact q.pauseSourceReads_isOpen
      | resumeSourceReads => exact q.resumeSourceReads_isOpen
    rw [hopen]
    exact hR
  · exact ⟨q,(ChannelMap.set_get_other _ _ hj).trans hq,hR⟩

/-- A routed frame opens, closes or leaves the PTY, by what it means to it. -/
theorem onFrame {io : Io} {f : Frame} (ho : io.openPty≠none) (hf : isControl f.ftype=false)
    (hR' : ∀shown,R (if d.linkUp then some shown else none) →
      R' (if d.linkUp then some (Notice.shows (notice id f) shown) else none))
    (h : Hosts id R d) :
    Hosts id R' (Daemon.callChannel fifoLink d f.channel ⟨.onFrame f.ftype f.payload,io⟩) := by
  obtain ⟨⟨q,hq,hR⟩,hdown⟩ := h
  refine ⟨?_,hdown⟩
  have hnext := hR' _ hR
  rw [notice_route hf] at hnext
  by_cases hj : id=f.channel
  · subst hj
    refine ⟨(q.onFrame f.ftype f.payload io).1,
      by simp [Daemon.callChannel,hq,DynChannel.apply,PtyChannel.apply],?_⟩
    have hsome : io.openPty.isSome=true := Option.isSome_iff_ne_none.mpr ho
    have hne : fReady≠fFlush := by decide
    rw [PtyChannel.onFrame_isOpen,hsome]
    by_cases hfl : f.ftype=fFlush
    · simpa [hfl,hne.symm,Notice.shows,Daemon.callChannel] using hnext
    · by_cases hr : f.ftype=fReady
      · simpa [hr,hne,Notice.shows,Daemon.callChannel] using hnext
      · simpa [hfl,hr,Notice.shows,Daemon.callChannel] using hnext
  · refine ⟨q,(ChannelMap.set_get_other _ _ hj).trans hq,?_⟩
    have hch : f.channel≠id := Ne.symm hj
    have hsame : R' (if d.linkUp then some q.isOpen else none) := by
      simpa [hch,Notice.shows] using hnext
    exact hsame

theorem closed {now : Instant} (hR : ∀view,R view → R none) (h : Hosts id R d) :
    Hosts id R (Daemon.closeLink fifoLink d now) := by
  by_cases hd : d.disconnected=true
  · rw [Daemon.closeLink,if_pos hd]
    exact h
  · obtain ⟨q,hq,hv⟩ := h.pty
    obtain ⟨hup,-,hfd,hget⟩ := Daemon.closeLink_get fifoLink (by simpa using hd) now
    obtain ⟨c,hc,hres⟩ := hget id _ hq
    have hpty : ∃q' : PtyChannel,c=.pty q' := by
      rcases hres with rfl|rfl
      · exact ⟨q,rfl⟩
      · exact ⟨_,rfl⟩
    obtain ⟨q',rfl⟩ := hpty
    refine ⟨⟨_,hc,?_⟩,fun _ => ⟨hup,hfd⟩⟩
    rw [hup]
    exact hR _ hv

theorem turns (hR : ∀view,R view → R none) :
    Daemon.Turns (fun _ c => Harmless c) (Hosts id R) where
  core := by
    intro d d' h hc hq hup hdis hfd _
    obtain ⟨h₁,h₂⟩ := h
    refine ⟨?_,?_⟩
    · rw [hc,hup]
      exact h₁
    · rw [hdis,hup,hfd]
      exact h₂
  call := call
  pause _ := trivial
  resume _ := trivial
  opened := by
    intro d now dev h hdis
    cases dev with
    | none => exact ⟨h.pty,h.down⟩
    | some fd => exact ⟨h.pty,nofun⟩
  closed := closed hR
  ping := by
    intro d now h
    rcases Daemon.enqueueFrame_fifo d now fPing with ⟨he,-⟩|⟨b,he⟩
    · rw [he]
      exact h
    · rw [he]
      exact ⟨h.pty,h.down⟩

/-- The host while `fs` is on its way to it, and once the first of these frames has arrived. -/
theorem dispatch {up active : Bool} {now : Instant} {io : Io} {f : Frame} {fs : List Frame}
    (ho : io.openPty≠none) (hfd : d.linkFd≠none)
    (h : Hosts id (fun view => up=true → Told active (lastMark (notice id) (f::fs)) view) d) :
    Hosts id (fun view => up=true → Told active (lastMark (notice id) fs) view)
      (Daemon.dispatchFrame fifoLink d now io f) := by
  have hdown : ∀{fs : List Frame} (view : Option Bool),
      (up=true → Told active (lastMark (notice id) fs) view) →
      up=true → Told active (lastMark (notice id) fs) none := fun _ h hup => (h hup).down
  -- A frame without a notice for the channel may be taken off the queue.
  have hskip : notice id f=none →
      Hosts id (fun view => up=true → Told active (lastMark (notice id) fs) view) d := by
    intro hn
    obtain ⟨⟨q,hq,hR⟩,hd⟩ := h
    refine ⟨⟨q,hq,?_⟩,hd⟩
    intro hup
    refine (hR hup).deliver ?_
    rw [hn]
    exact fun h => h
  have hgreeting : f.ftype=fHello ∨ f.ftype=fAck → notice id f=some .greeting := fun h => if_pos h
  -- After a greeting the status is still to come, whatever the host shows.
  have hconnect : notice id f=some .greeting → ∀d' : Daemon (List Frame),
      d'.channels=d.channels → d'.disconnected=d.disconnected → d'.linkFd=d.linkFd →
      Hosts id (fun view => up=true → Told active (lastMark (notice id) fs) view)
        (Daemon.connectChannels fifoLink {d' with linkUp := true} now) := by
    intro hn d' hch hdis hfd'
    obtain ⟨⟨q,hq,hR⟩,hd⟩ := h
    obtain ⟨m,b,hc,-,hget⟩ := Daemon.connectChannels_fifo {d' with linkUp := true} now
    rw [hc]
    refine ⟨⟨q.closePty,by simp [hget,hch,hq,DynChannel.apply,PtyChannel.apply],?_⟩,?_⟩
    · intro hup
      refine (hR hup).deliver ?_
      rw [hn]
      exact False.elim
    · intro hd'
      exact absurd (hd (hdis ▸ hd')).2 hfd
  apply Daemon.dispatchFrame_induct
  · intro hp
    have hn : notice id f=none := by
      have hne : fPing≠fHello ∧ fPing≠fAck ∧ fPing≠fReady ∧ fPing≠fFlush := by decide
      simp [notice,hp,hne]
    rcases Daemon.enqueueFrame_fifo d now fPong with ⟨he,-⟩|⟨b,he⟩
    · rw [he]
      exact hskip hn
    · rw [he]
      exact ⟨(hskip hn).pty,(hskip hn).down⟩
  · intro hp
    have hne : fPong≠fHello ∧ fPong≠fAck ∧ fPong≠fReady ∧ fPong≠fFlush := by decide
    exact hskip (by simp [notice,hp,hne])
  · intro hh
    rcases Daemon.enqueueFrame_fifo d now fAck with ⟨he,-⟩|⟨b,he⟩
    · rw [he]
      exact hconnect (hgreeting (.inl hh)) _ rfl rfl rfl
    · rw [he]
      exact hconnect (hgreeting (.inl hh)) {d with
        txq := d.txq++[Daemon.controlFrame fAck], lastTx := some now, wantWrite := b} rfl rfl rfl
  · intro ha _
    obtain ⟨⟨q,hq,hR⟩,hd⟩ := h
    refine ⟨⟨q,hq,?_⟩,hd⟩
    intro hup
    refine (hR hup).deliver ?_
    rw [hgreeting (.inr ha)]
    exact False.elim
  · intro ha _
    exact hconnect (hgreeting (.inr ha)) _ rfl rfl rfl
  · intro hf
    refine (turns hdown).toKept.touch now ?_
    have hbp : Hosts id (fun view => up=true → Told active (lastMark (notice id) (f::fs)) view)
        (if f.ftype=fData ∨ f.ftype=fTdata then Daemon.checkBpHigh fifoLink d else d) := by
      split_ifs
      · exact (turns hdown).toKept.checkBpHigh h
      · exact h
    refine hbp.onFrame ho hf ?_
    intro shown hR hup
    exact (hR hup).deliver Told.shown

end Hosts

/-- The exporter's side of a turn, with the frames it puts on the link. -/
theorem Exports.step {id : UInt8} {wire : List Frame} {view : Option Bool} {e : Endpoint}
    (op : EndpointOp) (h : Exports id wire view e.daemon) :
    Exports id (wire++(e.step op).2) view (e.step op).1.daemon := by
  cases op with
  | own op =>
    have hok : Daemon.Calls (fun _ c => c.op≠.onLinkConnect ∧ c.op≠.onLinkDisconnect) op := by
      cases op with
      | head now later dev ios => exact fun _ => ⟨nofun,nofun⟩
      | event now token readable writable io => exact fun _ => ⟨nofun,nofun⟩
      | start | send | readError | restart => trivial
    apply Exports.turns.step hok
    · intro now w hop hfd
      subst hop
      obtain ⟨⟨m,hm,hl,htold⟩,hdown⟩ := h
      have hsent : (e.step (.own (.send now w))).2=e.daemon.txq.take (w.getD 0) := if_neg hfd
      refine ⟨⟨m,hm,hl,?_⟩,hdown⟩
      rw [hsent,List.append_assoc,Daemon.drain_append]
      exact htold
    · intro now ios hop
      obtain ⟨m,hm,-,-⟩ := h.mcu
      refine ⟨⟨.new m.chId (ios id),?_,?_,nofun⟩,fun _ => ⟨rfl,rfl⟩⟩
      · simp [Daemon.new,ChannelMap.fresh,hm,DynChannel.fresh]
      · exact (McuChannel.openUart_same _ (ios id)).2.2
    · intro hnil
      have hout : (e.step (.own op)).2=[] := hnil
      rw [hout,List.append_nil]
      exact h
  | deliver now io =>
    simp only [Endpoint.step]
    cases e.incoming with
    | nil =>
      rw [List.append_nil]
      exact h
    | cons f fs =>
      dsimp only
      split_ifs with hfd
      · rw [List.append_nil]
        exact h
      · have hd : Exports id wire view {e.daemon with lastRx := some now} := ⟨h.mcu,h.down⟩
        rw [List.append_nil,Daemon.receive,if_neg hfd]
        exact hd.dispatch hfd
  | lose n =>
    simp only [Endpoint.step]
    split_ifs <;> rw [List.append_nil] <;> exact h

/-- The kernel always gives the host a PTY, and never EIO on its master. -/
def PairOp.PtyWorks : PairOp → Prop
  | .host (.own (.event _ _ _ _ io)) => io.read≠.error .eio
  | .host (.deliver _ io) => io.openPty≠none
  | _ => True

/-- The host's side of a turn, with what is left of the frames on their way to it. -/
theorem Hosts.step {id : UInt8} {up active : Bool} {txq : List Frame} {e : Endpoint}
    (op : EndpointOp) (hop : (PairOp.host op).PtyWorks)
    (h : Hosts id (fun view => up=true →
      Told active (lastMark (notice id) (e.incoming++txq)) view) e.daemon) :
    Hosts id (fun view => up=true →
      Told active (lastMark (notice id) ((e.step op).1.incoming++txq)) view)
      (e.step op).1.daemon := by
  have hdown : ∀view,
      (up=true → Told active (lastMark (notice id) (e.incoming++txq)) view) →
      up=true → Told active (lastMark (notice id) (e.incoming++txq)) none :=
    fun _ h hup => (h hup).down
  cases op with
  | own op =>
    have hok : Daemon.Calls (fun _ c => Hosts.Harmless c) op := by
      cases op with
      | head now later dev ios => exact fun _ => trivial
      | event now token readable writable io => exact fun _ => hop
      | start | send | readError | restart => trivial
    apply (Hosts.turns hdown).step hok
    · intro now w _ _
      exact ⟨h.pty,h.down⟩
    · intro now ios _
      obtain ⟨q,hq,hR⟩ := h.pty
      refine ⟨⟨.new q.chId,?_,hdown _ hR⟩,fun _ => ⟨rfl,rfl⟩⟩
      simp [Daemon.new,ChannelMap.fresh,hq,DynChannel.fresh]
    · exact fun _ => h
  | deliver now io =>
    simp only [Endpoint.step]
    cases hin : e.incoming with
    | nil =>
      rw [hin] at h
      simpa only [hin] using h
    | cons f fs =>
      dsimp only
      split_ifs with hfd
      · exact h
      · rw [hin] at h
        have hd : Hosts id (fun view => up=true →
            Told active (lastMark (notice id) (f::(fs++txq))) view)
            {e.daemon with lastRx := some now} := ⟨h.pty,h.down⟩
        rw [Daemon.receive,if_neg hfd]
        exact hd.dispatch hop hfd
  | lose n =>
    simp only [Endpoint.step]
    split_ifs with hd
    · obtain ⟨q,hq,hR⟩ := h.pty
      refine ⟨⟨q,hq,?_⟩,h.down⟩
      rw [(h.down hd).1] at hR ⊢
      intro hup
      rcases lastMark_drop e.incoming txq n with hl|hl
      · rw [hl]
        exact hR hup
      · rw [hl]
        simp [Told]
    · exact h

/-- The invariant of channel `id`: the frames on their way to the host end with its state, or the
host shows it already. -/
def Agrees (id : UInt8) (p : Pair) : Prop :=
  ∃q,p.host.daemon.channels.get id=some (.pty q) ∧
    Exports id p.host.incoming (if p.host.daemon.linkUp then some q.isOpen else none)
      p.exporter.daemon ∧
    (p.host.daemon.disconnected=true →
      p.host.daemon.linkUp=false ∧ p.host.daemon.linkFd=none)

theorem Agrees.step {id : UInt8} {p : Pair} {op : PairOp} (h : Agrees id p) (hop : op.PtyWorks) :
    Agrees id (p.step op).1 := by
  obtain ⟨q,hq,hexp,hdown⟩ := h
  cases op with
  | exporter op => exact ⟨q,hq,hexp.step op,hdown⟩
  | host op =>
    obtain ⟨m,hm,hl,htold⟩ := hexp.mcu
    have hhost : Hosts id (fun view => p.exporter.daemon.linkUp=true →
        Told (m.state=.active) (lastMark (notice id) (p.host.incoming++p.exporter.daemon.txq)) view)
        p.host.daemon := ⟨⟨q,hq,htold⟩,hdown⟩
    obtain ⟨⟨q',hq',htold'⟩,hdown'⟩ := hhost.step op hop
    exact ⟨q',hq',⟨⟨m,hm,hl,htold'⟩,hexp.down⟩,hdown'⟩

theorem Agrees.new {id : UInt8} {exporter host : ChannelMap} {io : Io}
    (hexp : exporter.get id=some (.mcu (.new id io))) (hhost : host.get id=some (.pty (.new id)))
    (now : Instant) : Agrees id (Pair.new exporter host now) :=
  ⟨_,hhost,⟨⟨_,hexp,(McuChannel.openUart_same _ io).2.2,nofun⟩,fun _ => ⟨rfl,rfl⟩⟩,
    fun _ => ⟨rfl,rfl⟩⟩

/-- Whatever the order of UART reads, errors and timers, link losses, restarts and deliveries on the
two sides, once both have completed the handshake and nothing is on its way, the host's PTY is open
exactly if the exporter's UART speaks Klipper. -/
theorem pty_open_iff_mcu_active {exporter host : ChannelMap} {id : UInt8} {io : Io}
    (hexp : exporter.get id=some (.mcu (.new id io))) (hhost : host.get id=some (.pty (.new id)))
    (now : Instant) {ops : List PairOp} (hops : ∀op∈ops,op.PtyWorks)
    (hup : (after Pair.step (Pair.new exporter host now) ops).Connected)
    (hq : (after Pair.step (Pair.new exporter host now) ops).Quiescent) :
    ∃m q,
      (after Pair.step (Pair.new exporter host now) ops).exporter.daemon.channels.get id=
        some (.mcu m) ∧
      (after Pair.step (Pair.new exporter host now) ops).host.daemon.channels.get id=
        some (.pty q) ∧
      (q.isOpen=true ↔ m.state=.active) := by
  have hinv : Agrees id (after Pair.step (Pair.new exporter host now) ops) :=
    after_of_always Pair.step (fun _ _ h hop => h.step hop) (Agrees.new hexp hhost now)
      (always_of_forall Pair.step hops)
  generalize after Pair.step (Pair.new exporter host now) ops=p at hup hq hinv
  obtain ⟨q,hq',⟨⟨m,hm,-,htold⟩,-⟩,-⟩ := hinv
  refine ⟨m,q,hm,hq',?_⟩
  have hempty : p.host.incoming++p.exporter.daemon.txq=[] := hq.1
  have hshown := htold hup.1
  rw [hempty,hup.2] at hshown
  have heq : q.isOpen=decide (m.state=.active) := hshown q.isOpen rfl
  rw [heq,decide_eq_true_iff]

/-- A kernel with a UART that reads the sync byte and a PTY to give away. -/
def probeIo : Io :=
  {Io.idle with
    openSerialFd := some 4, openPty := some (5,6), read := .data [klipperSync] sync_fits}

/-- Both sides open, greet each other, and the UART wakes up while the handshake is on its way. -/
def probeOps : List PairOp :=
  [.exporter (.own (.start 0 (some 3))),.host (.own (.start 0 (some 3))),
    .exporter (.own (.send 1 (some 1))),.host (.own (.send 1 (some 1))),
    .exporter (.deliver 2 Io.idle),.host (.deliver 2 probeIo),
    .exporter (.own (.event 3 (primaryToken 0) true false probeIo)),
    .exporter (.own (.send 4 (some 9))),.host (.own (.send 4 (some 9)))]++
  List.replicate 4 (.host (.deliver 5 probeIo))++[.exporter (.deliver 5 Io.idle)]

theorem pty_open_iff_mcu_active_probe :
    ∃m q,
      (after Pair.step (Pair.new (.single (.mcu (.new 0 probeIo))) (.single (.pty (.new 0))) 0)
        probeOps).exporter.daemon.channels.get 0=some (.mcu m) ∧
      (after Pair.step (Pair.new (.single (.mcu (.new 0 probeIo))) (.single (.pty (.new 0))) 0)
        probeOps).host.daemon.channels.get 0=some (.pty q) ∧
      (q.isOpen=true ↔ m.state=.active) := by
  have hexp : (ChannelMap.single (.mcu (.new 0 probeIo))).get 0=
      some (.mcu (.new 0 probeIo)) := rfl
  refine pty_open_iff_mcu_active hexp rfl 0 ?_ ?_ ?_
  · intro op hop
    simp only [probeOps,List.mem_append,List.mem_cons,List.mem_replicate,List.not_mem_nil,
      or_false] at hop
    rcases hop with ((rfl|rfl|rfl|rfl|rfl|rfl|rfl|rfl|rfl)|⟨-,rfl⟩)|rfl <;>
      simp [PairOp.PtyWorks,probeIo]
  · exact ⟨by decide +kernel,by decide +kernel⟩
  · exact ⟨by decide +kernel,by decide +kernel⟩

end Serialmux.System

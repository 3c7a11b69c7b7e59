import Serialmux.Framework.Inflight
import Serialmux.Channel.McuProtocol
import Serialmux.System.Pair

namespace Serialmux.System

open Framework Protocol Channel EventLoop

/-- No frame makes a UART channel read. -/
theorem arrival_read (id : UInt8) {d : Daemon (List Frame)} {m : McuChannel}
    (hm : d.channels.get id=some (.mcu m)) (f : Frame) (io : Io) : (arrival id d f io).read=[] := by
  have hmcu : ∃m',(beforeRoute d f).channels.get id=some (.mcu m') := by
    rcases (beforeRoute_get id d f).2 with h|h
    · exact ⟨m,h.trans hm⟩
    · exact ⟨_,by rw [h,hm]; rfl⟩
  obtain ⟨m',hm'⟩ := hmcu
  unfold arrival
  split_ifs
  · rfl
  · simp only [effect,hm',DynChannel.apply]
    exact (m'.apply_rests (by simp)).1

/-- What the UART has said from its first sync byte to its next reset, on a link that was up, and how
much it had said whenever a READY told the host so. -/
structure Utterance where
  said : List UInt8
  ready : List Nat
  deriving DecidableEq

namespace Utterance

/-- A read of an active UART, or of one that its sync byte wakes up. -/
def speak (active : Bool) (read : List UInt8) (us : List Utterance) : List Utterance :=
  if active then us.modifyHead (fun u => {u with said := u.said++read})
  else if klipperSync∈read then ⟨read.dropWhile (·!=klipperSync),[0]⟩::us
  else us

/-- A READY for an active UART, on a link that was up before or not. -/
def announce (up : Bool) (us : List Utterance) : List Utterance :=
  if up then us.modifyHead (fun u => {u with ready := u.ready++[u.said.length]})
  else ⟨[],[0]⟩::us

@[simp] theorem speak_nil (active : Bool) (us : List Utterance) : speak active [] us=us := by
  unfold speak
  cases active <;> cases us <;> simp

end Utterance

/-- The two sides with what channel `id` has carried to the host: the utterances of the UART, the
latest first, and the bytes that the PTY has taken since it was opened. -/
structure Uplink where
  pair : Pair
  speech : List Utterance
  heard : List UInt8

namespace Uplink

variable (id : UInt8)

/-- The utterances after a turn of the exporter, whose UART channel was `m`. -/
def nextSpeech (e : Endpoint) (op : EndpointOp) (m : McuChannel) (us : List Utterance) :
    List Utterance :=
  if e.greets op then if m.state=.active then Utterance.announce e.daemon.linkUp us else us
  else if m.linkUp then Utterance.speak (m.state=.active) (e.effectOn id op).read us
  else us

def step (s : Uplink) (op : PairOp) : Uplink × Unit :=
  match op with
  | .exporter op' =>
    match s.pair.exporter.daemon.channels.get id with
    | some (.mcu m) =>
      (⟨(s.pair.step op).1,nextSpeech id s.pair.exporter op' m s.speech,s.heard⟩,())
    | _ => (⟨(s.pair.step op).1,s.speech,s.heard⟩,())
  | .host op' =>
    match (s.pair.step op).1.host.daemon.channels.get id with
    | some (.pty q) =>
      (⟨(s.pair.step op).1,s.speech,
        if q.isOpen then s.heard++(s.pair.host.effectOn id op').wrote else []⟩,())
    | _ => (⟨(s.pair.step op).1,s.speech,s.heard⟩,())

def new (exporter host : ChannelMap) (now : Instant) : Uplink :=
  ⟨Pair.new exporter host now,[],[]⟩

end Uplink

/-- The bytes that have come in for a PTY while it was open, after one more frame. A HELLO starts it
over. -/
def reception (id : UInt8) (got : Option (List UInt8)) (f : Frame) : Option (List UInt8) :=
  if f.ftype=fHello then none
  else if f.channel=id ∧ f.ftype=fFlush then none
  else if f.channel=id ∧ f.ftype=fReady then some (got.getD [])
  else if f.channel=id ∧ f.ftype=fData then got.map (·++f.payload)
  else got

/-- What has come in is a piece of an utterance from a READY on. -/
def Spoken (us : List Utterance) (got : Option (List UInt8)) : Prop :=
  ∀g,got=some g → ∃u∈us,∃k∈u.ready,g <+: u.said.drop k

/-- What has come in is all that the latest utterance has to offer. -/
def Current (us : List Utterance) (got : Option (List UInt8)) : Prop :=
  ∃u us',us=u::us' ∧ ∀g,got=some g → ∃k∈u.ready,k≤u.said.length ∧ g=u.said.drop k

/-- What a PTY holds once every frame on the way has come in: all of the latest utterance while the
UART is active, nothing while it is not, and nothing after a HELLO. A link that is closed has cut the
frames off. -/
def Ends (us : List Utterance) (up active closed : Bool) (got : Option (List UInt8)) : Prop :=
  if up then if active then Current us got else got=none
  else if closed then Spoken us got else got=none

theorem Spoken.none (us : List Utterance) : Spoken us none := by
  simp [Spoken]

namespace Ends

variable {us : List Utterance} {up active closed : Bool} {got : Option (List UInt8)}

@[simp] theorem closed_eq : Ends us false active true=Spoken us := by
  funext got
  simp [Ends]

theorem spoken (h : Ends us up active closed got) : Spoken us got := by
  intro g hg
  subst hg
  unfold Ends at h
  split_ifs at h
  · obtain ⟨u,us',rfl,hu⟩ := h
    obtain ⟨k,hk,-,rfl⟩ := hu g rfl
    exact ⟨u,List.mem_cons_self,k,hk,List.prefix_rfl⟩
  · exact h g rfl

theorem lost (h : Ends us up active closed got) : Ends us up active closed none := by
  unfold Ends at h ⊢
  split_ifs at h ⊢
  · obtain ⟨u,us',hus,-⟩ := h
    exact ⟨u,us',hus,by simp⟩
  · rfl
  · exact Spoken.none us
  · rfl

end Ends

/-- The same utterances, or more of them, with more said and more announced. -/
def Grows (us us' : List Utterance) : Prop :=
  ∀u∈us,∃u'∈us',u.said <+: u'.said ∧ u.ready <+: u'.ready

namespace Grows

theorem refl (us : List Utterance) : Grows us us := fun u hu =>
  ⟨u,hu,List.prefix_rfl,List.prefix_rfl⟩

theorem cons (u : Utterance) (us : List Utterance) : Grows us (u::us) := fun u' hu =>
  ⟨u',List.mem_cons_of_mem _ hu,List.prefix_rfl,List.prefix_rfl⟩

theorem modifyHead {f : Utterance → Utterance} (us : List Utterance)
    (hf : ∀u,u.said <+: (f u).said ∧ u.ready <+: (f u).ready) : Grows us (us.modifyHead f) := by
  cases us with
  | nil => exact refl []
  | cons v us =>
    intro u hu
    rcases List.mem_cons.mp hu with rfl|hu
    · exact ⟨f u,List.mem_cons_self,hf u⟩
    · exact ⟨u,List.mem_cons_of_mem _ hu,List.prefix_rfl,List.prefix_rfl⟩

theorem speak (active : Bool) (read : List UInt8) (us : List Utterance) :
    Grows us (Utterance.speak active read us) := by
  unfold Utterance.speak
  split_ifs
  · exact modifyHead us (fun _ => ⟨List.prefix_append _ _,List.prefix_rfl⟩)
  · exact cons _ us
  · exact refl us

theorem announce (up : Bool) (us : List Utterance) : Grows us (Utterance.announce up us) := by
  unfold Utterance.announce
  split_ifs
  · exact modifyHead us (fun _ => ⟨List.prefix_rfl,List.prefix_append _ _⟩)
  · exact cons _ us

end Grows

theorem Spoken.mono {us us' : List Utterance} {got : Option (List UInt8)} (hu : Grows us us')
    (h : Spoken us got) : Spoken us' got := by
  intro g hg
  obtain ⟨u,hmem,k,hk,hpre⟩ := h g hg
  obtain ⟨u',hmem',hsaid,hready⟩ := hu u hmem
  exact ⟨u',hmem',k,hready.subset hk,hpre.trans (hsaid.drop k)⟩

theorem reception_other {id j : UInt8} {f : Frame} (h : ChannelFrame j f) (hj : j≠id)
    (got : Option (List UInt8)) : reception id got f=got := by
  have hr := h.routed
  simp only [isControl,Bool.or_eq_false_iff,beq_eq_false_iff_ne] at hr
  simp [reception,h.channel,hj,hr]

/-- The frames of the daemon itself, but for its HELLO. -/
theorem reception_control (id : UInt8) {ftype : UInt8}
    (h : ftype=fPing ∨ ftype=fPong ∨ ftype=fAck) (got : Option (List UInt8)) :
    reception id got (Daemon.controlFrame ftype)=got := by
  have hne : ftype≠fHello ∧ ftype≠fFlush ∧ ftype≠fReady ∧ ftype≠fData := by
    rcases h with rfl|rfl|rfl <;> decide
  simp [reception,Daemon.controlFrame,hne]

section Reception

variable {us : List Utterance} {got : Option (List UInt8)} {id : UInt8}

theorem reception_hello : reception id got (Daemon.controlFrame fHello)=none := if_pos rfl

theorem reception_flush {payload : List UInt8} : reception id got ⟨fFlush,id,payload⟩=none := by
  have hne : fFlush≠fHello := by decide
  simp [reception,hne]

theorem reception_ready {payload : List UInt8} :
    reception id got ⟨fReady,id,payload⟩=some (got.getD []) := by
  have hne : fReady≠fHello ∧ fReady≠fFlush := by decide
  simp [reception,hne]

theorem reception_data {payload : List UInt8} :
    reception id got ⟨fData,id,payload⟩=got.map (·++payload) := by
  have hne : fData≠fHello ∧ fData≠fFlush ∧ fData≠fReady := by decide
  simp [reception,hne]

/-- An active UART speaks, and a DATA frame follows. -/
theorem Current.speak {read : List UInt8} (h : Current us got) :
    Current (Utterance.speak true read us) (reception id got ⟨fData,id,read⟩) := by
  obtain ⟨u,us',rfl,hu⟩ := h
  refine ⟨_,us',rfl,?_⟩
  rw [reception_data]
  intro g hg
  obtain ⟨g',hg',rfl⟩ := Option.map_eq_some_iff.mp hg
  obtain ⟨k,hk,hle,rfl⟩ := hu g' hg'
  refine ⟨k,hk,?_,?_⟩
  · rw [List.length_append]
    exact Nat.le_add_right_of_le hle
  · rw [List.drop_append_of_le_length hle]

/-- A READY while the link is up. -/
theorem Current.announce {payload : List UInt8} (h : Current us got) :
    Current (Utterance.announce true us) (reception id got ⟨fReady,id,payload⟩) := by
  obtain ⟨u,us',rfl,hu⟩ := h
  refine ⟨_,us',rfl,?_⟩
  rw [reception_ready]
  intro g hg
  cases got with
  | none =>
    obtain rfl : []=g := Option.some.inj hg
    exact ⟨u.said.length,by simp,Nat.le_refl _,by simp⟩
  | some g' =>
    obtain rfl : g'=g := Option.some.inj hg
    obtain ⟨k,hk,hle,he⟩ := hu g' rfl
    exact ⟨k,List.mem_append_left _ hk,hle,he⟩

/-- The first READY of an utterance, for a PTY that is closed. -/
theorem Current.start (said : List UInt8) (us : List Utterance) :
    Current (⟨said,[0]⟩::us) none ∧ Current (⟨said,[0]⟩::us) (some said) ∧
      Spoken (⟨said,[0]⟩::us) (some []) := by
  refine ⟨⟨_,us,rfl,by simp⟩,⟨_,us,rfl,by simp⟩,?_⟩
  intro g hg
  obtain rfl : []=g := Option.some.inj hg
  exact ⟨_,List.mem_cons_self,0,List.mem_singleton_self _,List.nil_prefix⟩

end Reception

/-- The exporter of channel `id` whose UART has said `us`, where `wire` is what it has put on the
link and `got` what the PTY holds. -/
structure Speaks (id : UInt8) (us : List Utterance) (wire : List Frame) (got : Option (List UInt8))
    (d : Daemon (List Frame)) : Prop where
  mcu : ∃m,d.channels.get id=some (.mcu m) ∧ m.linkUp=d.linkUp ∧
    Foretells (reception id) none (Spoken us)
      (Ends us d.linkUp (m.state=.active) (d.linkFd=none)) (wire++d.txq) got
  down : d.disconnected=true → d.linkUp=false ∧ d.linkFd=none

namespace Speaks

variable {id : UInt8} {us us' : List Utterance} {wire : List Frame} {got : Option (List UInt8)}
  {d : Daemon (List Frame)}

/-- A call of another channel. -/
theorem other {j : UInt8} (hj : j≠id) (c : Call) (h : Speaks id us wire got d) :
    Speaks id us wire got (Daemon.callChannel fifoLink d j c) := by
  obtain ⟨⟨m,hm,hl,hf⟩,hdown⟩ := h
  refine ⟨⟨m,(ChannelMap.set_get_other _ _ hj.symm).trans hm,hl,?_⟩,hdown⟩
  rw [Daemon.callChannel_txq,← List.append_assoc]
  exact hf.append_ignored (Spoken.none us) (fun _ => Ends.spoken) (fun _ => Ends.lost)
    (fun f hf => reception_other (d.channels.frames_channelFrame j c f hf) hj)

/-- A call of the channel itself: what its frames make of the PTY is as much as it has said. -/
theorem own {c : Call} {m : McuChannel} (hm : d.channels.get id=some (.mcu m))
    (hl : (m.apply c).1.linkUp=m.linkUp) (hu : Grows us us')
    (hsent : ∀r,Ends us m.linkUp (m.state=.active) (d.linkFd=none) r →
      Foretells (reception id) none (Spoken us')
        (Ends us' m.linkUp ((m.apply c).1.state=.active) (d.linkFd=none)) (m.apply c).2.frames r)
    (h : Speaks id us wire got d) :
    Speaks id us' wire got (Daemon.callChannel fifoLink d id c) := by
  obtain ⟨⟨m',hm',hl',hf⟩,hdown⟩ := h
  obtain rfl : m=m' := by simpa [hm] using hm'
  have hframes : d.channels.frames id c=(m.apply c).2.frames := by
    simp [ChannelMap.frames,hm,DynChannel.apply]
  refine ⟨⟨(m.apply c).1,by simp [Daemon.callChannel,hm,DynChannel.apply],hl.trans hl',?_⟩,hdown⟩
  rw [Daemon.callChannel_txq,← List.append_assoc,hframes]
  refine (hf.mono (fun _ => Spoken.mono hu) (fun _ h => h)).append (Spoken.none us') ?_
  intro r hr
  rw [← hl'] at hr
  have := hsent r hr
  rw [hl'] at this
  exact this

/-- A call that is neither a connect nor a disconnect: what it reads, the UART has said. -/
theorem call {c : Call} {m : McuChannel} (hc : c.op≠.onLinkConnect ∧ c.op≠.onLinkDisconnect)
    (hm : d.channels.get id=some (.mcu m)) (h : Speaks id us wire got d) :
    Speaks id (if m.linkUp then Utterance.speak (m.state=.active) (m.apply c).2.read us else us)
      wire got (Daemon.callChannel fifoLink d id c) := by
  have hid : m.chId=id := d.channels.ids id _ hm
  obtain ⟨hmoves,-⟩ := m.apply_moves c
  -- A turn after which the UART has said nothing new.
  have hsilent : ∀{fs : List Frame},(m.apply c).1.linkUp=m.linkUp → (m.apply c).2.frames=fs →
      (m.linkUp=true → Utterance.speak (m.state=.active) (m.apply c).2.read us=us) →
      (∀r,Ends us m.linkUp (m.state=.active) (d.linkFd=none) r →
        Foretells (reception id) none (Spoken us)
          (Ends us m.linkUp ((m.apply c).1.state=.active) (d.linkFd=none)) fs r) →
      Speaks id (if m.linkUp then Utterance.speak (m.state=.active) (m.apply c).2.read us else us)
        wire got (Daemon.callChannel fifoLink d id c) := by
    intro fs hl hf hsay hsent
    have hus : (if m.linkUp then Utterance.speak (m.state=.active) (m.apply c).2.read us else us)=
        us := by
      split_ifs with hup
      · exact hsay hup
      · rfl
    rw [hus]
    exact h.own hm hl (Grows.refl us) (hf ▸ hsent)
  by_cases hup : m.linkUp=true
  · rw [if_pos hup]
    simp only [hup,if_true,true_implies] at hsilent
    cases hmoves with
    | connect ho => exact absurd ho hc.1
    | disconnect ho => exact absurd ho hc.2
    | stay _ hs hl hf hr =>
      refine hsilent (hl.trans hup) hf ?_ ?_
      · by_cases ha : m.state=.active
        · rw [hr ha,Utterance.speak_nil]
        · have hnone : klipperSync∉(m.apply c).2.read := by
            rw [← McuChannel.apply_wakes ha,hs]
            exact ha
          simp [Utterance.speak,ha,hnone]
      · intro r hr
        rw [hs]
        exact ⟨hr,hr.lost⟩
    | forward _ hs hs' hl _ hf =>
      refine h.own hm hl (Grows.speak _ _ us) ?_
      intro r hr
      simp only [hup,hs,hs',decide_true] at hr ⊢
      rw [hf,McuChannel.whenUp,if_pos hup,McuChannel.frame,hid]
      have hcur : ∀r,Ends us true true (d.linkFd=none) r →
          Ends (Utterance.speak true (m.apply c).2.read us) true true (d.linkFd=none)
            (reception id r ⟨fData,id,(m.apply c).2.read⟩) := fun _ h => Current.speak h
      exact ⟨hr.spoken.mono (Grows.speak _ _ us),⟨hcur r hr,(hcur r hr).lost⟩,
        ⟨hcur none hr.lost,(hcur r hr).lost⟩⟩
    | wake _ hs hs' hl _ hf =>
      have hsync := (McuChannel.apply_wakes hs c).mp hs'
      refine h.own hm hl (Grows.speak _ _ us) ?_
      intro r hr
      simp only [hup,hs,hs',decide_true,decide_false] at hr ⊢
      obtain rfl : r=none := hr
      rw [hf,McuChannel.whenUp,if_pos hup,McuChannel.frame,McuChannel.frame,hid]
      have hsaid : Utterance.speak false (m.apply c).2.read us=
          ⟨(m.apply c).2.read.dropWhile (·!=klipperSync),[0]⟩::us := by
        simp [Utterance.speak,hsync]
      rw [hsaid]
      obtain ⟨hnone,hsome,hempty⟩ :=
        Current.start ((m.apply c).2.read.dropWhile (·!=klipperSync)) us
      simp only [Foretells,reception_ready,reception_data,Option.getD_none,Option.map_some,
        Option.map_none,List.nil_append]
      exact ⟨Spoken.none _,⟨hempty,⟨hsome,hnone⟩,hnone,hnone⟩,
        hempty,⟨hsome,hnone⟩,hnone,hnone⟩
    | reset _ hs hs' hl hr hf =>
      refine hsilent (hl.trans hup) hf ?_ ?_
      · rw [hr,Utterance.speak_nil]
      · intro r h
        rw [McuChannel.whenUp,if_pos hup,McuChannel.frame,hid,hs']
        simp only [Foretells,reception_flush]
        exact ⟨h.spoken,⟨rfl,rfl⟩,rfl,rfl⟩
  · have hdown : m.linkUp=false := by simpa using hup
    have hframes : (m.apply c).1.linkUp=m.linkUp ∧ (m.apply c).2.frames=[] := by
      cases hmoves with
      | connect ho => exact absurd ho hc.1
      | disconnect ho => exact absurd ho hc.2
      | stay _ _ hl hf => exact ⟨hl,hf⟩
      | forward _ _ _ hl _ hf => exact ⟨hl,by simp [hf,McuChannel.whenUp,hdown]⟩
      | wake _ _ _ hl _ hf => exact ⟨hl,by simp [hf,McuChannel.whenUp,hdown]⟩
      | reset _ _ _ hl _ hf => exact ⟨hl,by simp [hf,McuChannel.whenUp,hdown]⟩
    refine hsilent hframes.1 hframes.2 (fun h => absurd h hup) ?_
    intro r hr
    rw [hdown] at hr ⊢
    exact ⟨hr,Ends.lost hr⟩

/-- The calls that neither tell of the link nor read. -/
def Calm (c : Call) : Prop :=
  c.op≠.onLinkConnect ∧ c.op≠.onLinkDisconnect ∧
    ∀token readable writable,c.op≠.handleEvent token readable writable

theorem calm {j : UInt8} {c : Call} (hc : Calm c) (h : Speaks id us wire got d) :
    Speaks id us wire got (Daemon.callChannel fifoLink d j c) := by
  by_cases hj : j=id
  · subst hj
    obtain ⟨m,hm,-⟩ := h.mcu
    have hnext := h.call ⟨hc.1,hc.2.1⟩ hm
    rw [(m.apply_rests hc.2.2).1,Utterance.speak_nil,ite_self] at hnext
    exact hnext
  · exact h.other hj c

/-- A frame of the daemon that is no HELLO. -/
theorem control {now : Instant} {ftype : UInt8} (hf : ftype=fPing ∨ ftype=fPong ∨ ftype=fAck)
    (h : Speaks id us wire got d) :
    Speaks id us wire got (Daemon.enqueueFrame fifoLink d now (Daemon.controlFrame ftype)) := by
  rcases Daemon.enqueueFrame_fifo d now ftype with ⟨he,-⟩|⟨b,he⟩
  · rw [he]
    exact h
  · rw [he]
    obtain ⟨⟨m,hm,hl,hforetells⟩,hdown⟩ := h
    refine ⟨⟨m,hm,hl,?_⟩,hdown⟩
    rw [← List.append_assoc]
    refine hforetells.append_ignored (Spoken.none us) (fun _ => Ends.spoken) (fun _ => Ends.lost) ?_
    intro f hmem r
    rw [List.mem_singleton.mp hmem]
    exact reception_control id hf r

/-- What becomes of the frames on the way when those that wait behind are lost. -/
theorem cut (h : Speaks id us wire got d) :
    Foretells (reception id) none (Spoken us) (Spoken us) wire got := by
  obtain ⟨m,-,-,hf⟩ := h.mcu
  exact hf.cut (Spoken.none us) (fun _ => Ends.spoken)

theorem closed {now : Instant} (h : Speaks id us wire got d) :
    Speaks id us wire got (Daemon.closeLink fifoLink d now) := by
  by_cases hd : d.disconnected=true
  · rw [Daemon.closeLink,if_pos hd]
    exact h
  · obtain ⟨m,hm,-,-⟩ := h.mcu
    have hdis : d.disconnected=false := by simpa using hd
    obtain ⟨hup,-,hfd,hget⟩ := Daemon.closeLink_get fifoLink hdis now
    obtain ⟨c,hc,hres⟩ := hget id _ hm
    have hmcu : ∃m' : McuChannel,c=.mcu m' := by
      rcases hres with rfl|rfl
      · exact ⟨m,rfl⟩
      · exact ⟨_,rfl⟩
    obtain ⟨m',rfl⟩ := hmcu
    refine ⟨⟨_,hc,?_,?_⟩,fun _ => ⟨hup,hfd⟩⟩
    · rw [hup]
      simp [McuChannel.apply,McuChannel.onLinkDisconnect]
    · rw [hup,hfd,Daemon.closeLink_txq fifoLink hdis now]
      simpa [fifoLink] using h.cut

theorem opened {now : Instant} {dev : Option RawFd} (h : Speaks id us wire got d)
    (hdis : d.disconnected=true) : Speaks id us wire got (Daemon.openLink fifoLink d now dev) := by
  cases dev with
  | none => exact ⟨h.mcu,h.down⟩
  | some fd =>
    obtain ⟨m,hm,hl,-⟩ := h.mcu
    have hup : d.linkUp=false := (h.down hdis).1
    refine ⟨⟨m,hm,hl,?_⟩,fun hd => absurd hd (by simp [Daemon.openLink])⟩
    have hhello : (Daemon.openLink fifoLink d now (some fd)).txq=[Daemon.controlFrame fHello] := by
      simp [Daemon.openLink,fifoLink,Daemon.controlFrame]
    rw [hhello]
    refine h.cut.append (Spoken.none us) ?_
    intro r hr
    have hends : Ends us (Daemon.openLink fifoLink d now (some fd)).linkUp (m.state=.active)
        ((Daemon.openLink fifoLink d now (some fd)).linkFd=none) none := by
      simp [Daemon.openLink,hup,Ends]
    simp only [Foretells,reception_hello]
    exact ⟨hr,⟨hends,hends⟩,hends,hends⟩

theorem turns : Daemon.Turns (fun _ c => Calm c) (Speaks id us wire got) where
  core := by
    intro d d' h hc hq hup hdis hfd _
    obtain ⟨h₁,h₂⟩ := h
    refine ⟨?_,?_⟩
    · rw [hc,hq,hup,hfd]
      exact h₁
    · rw [hdis,hup,hfd]
      exact h₂
  call := calm
  pause _ := ⟨by simp,by simp,by simp⟩
  resume _ := ⟨by simp,by simp,by simp⟩
  opened := opened
  closed := closed
  ping := control (.inl rfl)

/-- Among the greetings of the channels is one of channel `id`. -/
theorem greetings_split {m : ChannelMap} {c : DynChannel} (hc : m.get id=some c) :
    ∃gs gs',Daemon.greetings m=gs++(c.apply ⟨.onLinkConnect,Io.idle⟩).2.frames++gs' ∧
      ∀f∈gs++gs',∃j,j≠id ∧ ChannelFrame j f := by
  have hkey : id∈m.keys := by
    rw [m.covers,hc]
    rfl
  obtain ⟨ids,ids',hk⟩ := List.append_of_mem hkey
  have hnodup := m.nodup
  rw [hk,List.nodup_append] at hnodup
  obtain ⟨-,hids',hne⟩ := hnodup
  have hown : m.frames id ⟨.onLinkConnect,Io.idle⟩=(c.apply ⟨.onLinkConnect,Io.idle⟩).2.frames := by
    simp [ChannelMap.frames,hc]
  refine ⟨ids.flatMap (fun j => m.frames j ⟨.onLinkConnect,Io.idle⟩),
    ids'.flatMap (fun j => m.frames j ⟨.onLinkConnect,Io.idle⟩),?_,?_⟩
  · simp only [Daemon.greetings,hk,List.flatMap_append,List.flatMap_cons,hown,List.append_assoc]
  · intro f hf
    rw [← List.flatMap_append] at hf
    obtain ⟨j,hj,hf⟩ := List.mem_flatMap.mp hf
    refine ⟨j,?_,m.frames_channelFrame j _ f hf⟩
    rcases List.mem_append.mp hj with hj|hj
    · exact hne j hj id List.mem_cons_self
    · rintro rfl
      exact (List.nodup_cons.mp hids').1 hj

/-- Once the link is up every channel has said its state, whatever was queued before. -/
theorem connected {now : Instant} {m : McuChannel} (hm : d.channels.get id=some (.mcu m))
    (hfd : d.linkFd≠none) (hdis : d.disconnected=false) (h : Speaks id us wire got d) :
    Speaks id (if m.state=.active then Utterance.announce d.linkUp us else us) wire got
      (Daemon.connectChannels fifoLink {d with linkUp := true} now) := by
  obtain ⟨⟨m',hm',-,hf⟩,-⟩ := h
  obtain rfl : m=m' := by simpa [hm] using hm'
  have hid : m.chId=id := d.channels.ids id _ hm
  obtain ⟨channels,b,hc,-,hget⟩ := Daemon.connectChannels_fifo {d with linkUp := true} now
  obtain ⟨gs,gs',hgreet,hothers⟩ := greetings_split hm
  have hignored : ∀f∈gs++gs',∀r,reception id r f=r := by
    intro f hf r
    obtain ⟨j,hj,hf⟩ := hothers f hf
    exact reception_other hf hj r
  rw [hc]
  refine ⟨⟨{m with linkUp := true},?_,rfl,?_⟩,fun h => absurd h (by simp [hdis])⟩
  · simp [hget,hm,DynChannel.apply,McuChannel.apply,McuChannel.onLinkConnect]
  have hgrows : Grows us (if m.state=.active then Utterance.announce d.linkUp us else us) := by
    split_ifs
    · exact Grows.announce _ us
    · exact Grows.refl us
  have hstatus : ∀r,Ends us d.linkUp (m.state=.active) (d.linkFd=none) r →
      Foretells (reception id) none
        (Spoken (if m.state=.active then Utterance.announce d.linkUp us else us))
        (Ends (if m.state=.active then Utterance.announce d.linkUp us else us) true
          (m.state=.active) (d.linkFd=none))
        [m.frame (if m.state=.active then fReady else fFlush) []] r := by
    intro r hr
    have hspoken := hr.spoken.mono hgrows
    rw [McuChannel.frame,hid]
    by_cases ha : m.state=.active
    · simp only [ha,if_true,decide_true] at hr hspoken ⊢
      have hcur : ∀r,Ends us d.linkUp true (d.linkFd=none) r →
          Ends (Utterance.announce d.linkUp us) true true (d.linkFd=none)
            (reception id r ⟨fReady,id,[]⟩) := by
        intro r hr
        cases hup : d.linkUp with
        | true =>
          rw [hup] at hr
          exact Current.announce hr
        | false =>
          simp only [Ends,hup,hfd,decide_false,Bool.false_eq_true,if_false] at hr
          rw [hr,reception_ready]
          exact (Current.start [] us).2.1
      exact ⟨hspoken,⟨hcur r hr,(hcur r hr).lost⟩,hcur none hr.lost,(hcur r hr).lost⟩
    · simp only [ha,if_false,decide_false,Foretells,reception_flush] at hr hspoken ⊢
      exact ⟨hspoken,⟨rfl,rfl⟩,rfl,rfl⟩
  have hall : d.txq++Daemon.greetings d.channels=
      (d.txq++gs)++[m.frame (if m.state=.active then fReady else fFlush) []]++gs' := by
    simp [hgreet,DynChannel.apply,McuChannel.apply,McuChannel.onLinkConnect]
  simp only [hall]
  rw [← List.append_assoc,← List.append_assoc,← List.append_assoc]
  refine Foretells.append_ignored (Spoken.none _) (fun _ => Ends.spoken) (fun _ => Ends.lost)
    (fun f hf => hignored f (List.mem_append_right _ hf)) ?_
  refine Foretells.append (Spoken.none _) ?_ hstatus
  refine Foretells.append_ignored (Spoken.none _) ?_ (fun _ h => Ends.lost h)
    (fun f hf => hignored f (List.mem_append_left _ hf)) ?_
  · exact fun _ h => h.spoken.mono hgrows
  · exact hf.mono (fun _ => Spoken.mono hgrows) (fun _ h => h)

/-- The arrival of a frame, whatever it is; an answer to a HELLO comes before the greetings. -/
theorem dispatch {m : McuChannel} (now : Instant) (io : Io) (f : Frame)
    (hm : d.channels.get id=some (.mcu m)) (hfd : d.linkFd≠none) (h : Speaks id us wire got d) :
    Speaks id (if f.ftype=fHello ∨ f.ftype=fAck ∧ d.linkUp=false then
        if m.state=.active then Utterance.announce d.linkUp us else us
      else us) wire got (Daemon.dispatchFrame fifoLink d now io f) := by
  have hdis : d.disconnected=false := by
    by_contra hd
    exact hfd (h.down (by simpa using hd)).2
  have hne : fPing≠fHello ∧ fPing≠fAck ∧ fPong≠fHello ∧ fPong≠fAck ∧ fAck≠fHello := by decide
  apply Daemon.dispatchFrame_induct
  · intro hp
    simp only [hp,hne,false_and,or_self,if_false]
    exact h.control (.inr (.inl rfl))
  · intro hp
    simpa only [hp,hne,false_and,or_self,if_false] using h
  · intro hh
    have hack : Speaks id us wire got
      (Daemon.enqueueFrame fifoLink d now (Daemon.controlFrame fAck)) := h.control (.inr (.inr rfl))
    simp only [hh,true_or,if_true]
    rcases Daemon.enqueueFrame_fifo d now fAck with ⟨he,-⟩|⟨b,he⟩
    · rw [he] at hack ⊢
      exact hack.connected hm hfd hdis
    · rw [he] at hack ⊢
      exact Speaks.connected (d := {d with
        txq := d.txq++[Daemon.controlFrame fAck], lastTx := some now, wantWrite := b})
        hm hfd hdis hack
  · intro ha hup
    simpa only [ha,hup,hne,and_false,or_self,if_false,Bool.true_eq_false] using h
  · intro ha hup
    simp only [ha,hup,and_self,or_true,if_true]
    rw [← hup]
    exact h.connected hm hfd hdis
  · intro hr
    simp only [isControl,Bool.or_eq_false_iff,beq_eq_false_iff_ne] at hr
    simp only [hr,false_and,or_self,if_false]
    exact turns.toKept.routeFrame now ⟨by simp,by simp,by simp⟩ h

/-- An event of some fd: what the UART reads is said. -/
theorem event {now : Instant} {token : Token} {readable writable : Bool} {io : Io} {m : McuChannel}
    (hm : d.channels.get id=some (.mcu m)) (h : Speaks id us wire got d) :
    Speaks id (if m.linkUp then
        Utterance.speak (m.state=.active)
          (occurrence id d.channels token readable writable io).read us
      else us) wire got (Daemon.channelEvent fifoLink d now token readable writable io) := by
  unfold Daemon.channelEvent occurrence
  cases hid : channelIdForToken token with
  | none => simpa using h
  | some j =>
    apply turns.toKept.touch
    apply turns.toKept.checkBpHigh
    by_cases hj : j=id
    · subst hj
      rw [if_pos rfl]
      have heffect : effect j d.channels ⟨.handleEvent token readable writable,io⟩=
          (m.apply ⟨.handleEvent token readable writable,io⟩).2 := by
        simp [effect,hm,DynChannel.apply]
      rw [heffect]
      exact h.call ⟨by simp,by simp⟩ hm
    · simpa [hj] using h.other hj _

/-- The exporter's side of a turn, with the frames it puts on the link. -/
theorem step {e : Endpoint} {m : McuChannel} (op : EndpointOp)
    (hm : e.daemon.channels.get id=some (.mcu m)) (h : Speaks id us wire got e.daemon) :
    Speaks id (Uplink.nextSpeech id e op m us) (wire++(e.step op).2) got (e.step op).1.daemon := by
  have hquiet : ∀op,e.greets op=false → (e.effectOn id op).read=[] →
      Uplink.nextSpeech id e op m us=us := by
    intro op hg hr
    simp [Uplink.nextSpeech,hg,hr]
  cases op with
  | own op =>
    by_cases hev : ∃now token readable writable io,op=.event now token readable writable io
    · obtain ⟨now,token,readable,writable,io,rfl⟩ := hev
      have hsame : (e.step (.own (.event now token readable writable io))).2=[] := rfl
      rw [hsame,List.append_nil]
      exact h.event hm
    · push Not at hev
      have hok : Daemon.Calls (fun _ c => Calm c) op := by
        cases op with
        | head now later dev ios => exact fun _ => ⟨by simp,by simp,by simp⟩
        | event now token readable writable io => exact absurd rfl (hev _ _ _ _ _)
        | start | send | readError | restart => trivial
      have hnone : e.effectOn id (.own op)=.quiet := by
        cases op with
        | event now token readable writable io => exact absurd rfl (hev _ _ _ _ _)
        | start | head | send | readError | restart => rfl
      rw [hquiet (.own op) rfl (by rw [hnone]; rfl)]
      apply turns.step hok
      · intro now w hop hfd
        subst hop
        obtain ⟨⟨m',hm',hl,hf⟩,hdown⟩ := h
        have hsent : (e.step (.own (.send now w))).2=e.daemon.txq.take (w.getD 0) := if_neg hfd
        refine ⟨⟨m',hm',hl,?_⟩,hdown⟩
        rw [hsent,List.append_assoc,Daemon.drain_append]
        exact hf
      · intro now ios hop
        subst hop
        have hsent : (e.step (.own (.restart now ios))).2=[] := rfl
        refine ⟨⟨.new m.chId (ios id),?_,?_,?_⟩,fun _ => ⟨rfl,rfl⟩⟩
        · simp [Daemon.new,ChannelMap.fresh,hm,DynChannel.fresh]
        · exact (McuChannel.openUart_same _ (ios id)).2.2
        · rw [hsent]
          simpa [Daemon.new,fifoLink] using h.cut
      · intro hnil
        have hout : (e.step (.own op)).2=[] := hnil
        rw [hout,List.append_nil]
        exact h
  | deliver now io =>
    have hout : (e.step (.deliver now io)).2=[] := by
      simp only [Endpoint.step]
      split
      · rfl
      · split_ifs <;> rfl
    rw [hout,List.append_nil]
    cases hin : e.incoming with
    | nil =>
      rw [hquiet _ (by simp [Endpoint.greets,hin]) (by simp [Endpoint.effectOn,hin])]
      simpa [Endpoint.step,hin] using h
    | cons f fs =>
      by_cases hfd : e.daemon.linkFd=none
      · rw [hquiet _ (by simp [Endpoint.greets,hin,hfd]) (by simp [Endpoint.effectOn,hin,hfd])]
        simpa [Endpoint.step,hin,hfd] using h
      · have hd : Speaks id us wire got {e.daemon with lastRx := some now} := ⟨h.mcu,h.down⟩
        have hnext := Speaks.dispatch (d := {e.daemon with lastRx := some now}) now io f hm hfd hd
        have hread : (e.effectOn id (.deliver now io)).read=[] := by
          simp only [Endpoint.effectOn,hin,if_neg hfd]
          exact arrival_read (d := {e.daemon with lastRx := some now}) id hm f io
        have hspeech : Uplink.nextSpeech id e (.deliver now io) m us=
            if f.ftype=fHello ∨ f.ftype=fAck ∧ e.daemon.linkUp=false then
              if m.state=.active then Utterance.announce e.daemon.linkUp us else us
            else us := by
          simp [Uplink.nextSpeech,hread,Endpoint.greets,hin,hfd]
        have hsame : (e.step (.deliver now io)).1.daemon=
            Daemon.dispatchFrame fifoLink {e.daemon with lastRx := some now} now io f := by
          simp [Endpoint.step,hin,hfd,Daemon.receive]
        rw [hspeech,hsame]
        exact hnext
  | lose n =>
    have hsame : (e.step (.lose n)).2=[] ∧ (e.step (.lose n)).1.daemon=e.daemon := by
      simp only [Endpoint.step]
      split_ifs <;> exact ⟨rfl,rfl⟩
    rw [hsame.1,hsame.2,List.append_nil,hquiet (.lose n) rfl rfl]
    exact h

end Speaks

end Serialmux.System

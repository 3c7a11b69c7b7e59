import Serialmux.Reference.Run

namespace Serialmux.Reference

open Framework Protocol Channel

section Settled

/-- A channel without what a pause changes. -/
def McuCh.settled (m : McuCh) : McuCh := {m with watch := .fresh, bpPaused := false}

def PtyCh.settled (p : PtyCh) : PtyCh := {p with watch := .fresh, bpPaused := false}

def TcpConn.settled (c : TcpConn) : TcpConn := {c with watch := .fresh}

def ChannelT.settled : ChannelT → ChannelT
  | mcu m => mcu m.settled
  | pty p => pty p.settled
  | src s => src {s with bpPaused := false, conns := fun cid => (s.conns cid).settled}
  | dst t => dst {t with bpPaused := false, conns := fun cid => (t.conns cid).settled}

@[simp] theorem mcuUpdateInterest_settled (m : McuCh) : (mcuUpdateInterest m).settled=m.settled := by
  unfold mcuUpdateInterest
  split_ifs <;> rfl

@[simp] theorem ptyUpdateInterest_settled (p : PtyCh) : (ptyUpdateInterest p).settled=p.settled := by
  unfold ptyUpdateInterest
  split_ifs <;> rfl

@[simp] theorem tcpConnUpdate_settled (c : TcpConn) (b : Bool) :
    (tcpConnUpdate c b).settled=c.settled := by
  unfold tcpConnUpdate
  split_ifs <;> rfl

theorem ChannelT.setPaused_settled (b : Bool) (ch : ChannelT) :
    (chSetPaused b ch).settled=ch.settled := by
  unfold chSetPaused
  split_ifs
  · rfl
  · cases ch with
    | mcu m => exact congrArg mcu (mcuUpdateInterest_settled _)
    | pty p => exact congrArg pty (ptyUpdateInterest_settled _)
    | src s => simp [settled]
    | dst t => simp [settled]

theorem ChannelT.mcu_of_settled {ch : ChannelT} {m : McuCh} (h : ch.settled=(mcu m).settled) :
    ∃m',ch=mcu m' ∧ m'.settled=m.settled := by
  cases ch with
  | mcu m' => exact ⟨m',rfl,mcu.inj h⟩
  | pty p => exact nomatch h
  | src s => exact nomatch h
  | dst t => exact nomatch h

end Settled

section Ring

variable (crc : List UInt8 → UInt32) (f : Frame)

/-- The six bytes before the payload. -/
def header : List UInt8 :=
  [0xAA,0x55,f.ftype,f.channel,UInt8.ofNat (f.payload.length&&&0xFF),
    UInt8.ofNat (f.payload.length>>>8)]

/-- The four bytes after it. -/
def trailer : List UInt8 := u32ToLe (if f.payload.length=0 then 0 else crc f.payload)

/-- What `enqueue_frame` does to the queue. -/
def pushFrame (t : TxQueue) (f : Frame) : TxQueue :=
  ((t.enqueue (header f)).enqueue f.payload).enqueue (trailer crc f)

def pushFrames (t : TxQueue) (fs : List Frame) : TxQueue := fs.foldl (pushFrame crc) t

theorem pushFrames_cons (t : TxQueue) (fs : List Frame) :
    pushFrames crc t (f::fs)=pushFrames crc (pushFrame crc t f) fs := List.foldl_cons ..

theorem pushFrames_one (t : TxQueue) : pushFrames crc t [f]=pushFrame crc t f := by
  rw [pushFrames_cons,pushFrames,List.foldl_nil]

theorem pushFrames_append (t : TxQueue) (fs gs : List Frame) :
    pushFrames crc t (fs++gs)=pushFrames crc (pushFrames crc t fs) gs := List.foldl_append

end Ring

namespace Daemon

/-- What the handlers of the channels leave alone. -/
def link (d : Daemon) : Option RawFd × Bool × Bool × Millis × Millis × Millis :=
  (d.linkFd,d.linkUp,d.disconnected,d.lastRxMs,d.reopenAtMs,d.reopenDelayMs)

/-- What `daemon_send` enqueues of the frames it is given. -/
def offered (d : Daemon) (fs : List Frame) : List Frame := if d.disconnected then [] else fs

theorem disconnected_of_link {d d' : Daemon} (h : d'.link=d.link) :
    d'.disconnected=d.disconnected := congrArg (·.2.2.1) h

theorem offered_of_link {d d' : Daemon} (h : d'.link=d.link) (fs : List Frame) :
    d'.offered fs=d.offered fs := by rw [offered,disconnected_of_link h,offered]

theorem offered_append (d : Daemon) (fs gs : List Frame) :
    d.offered (fs++gs)=d.offered fs++d.offered gs := by
  unfold offered
  split_ifs <;> rfl

@[simp] theorem offered_nil (d : Daemon) : d.offered []=[] := by
  unfold offered
  split_ifs <;> rfl

end Daemon

variable {crc : List UInt8 → UInt32} {d d' : Daemon} {id : UInt8}

/-- The frames have been enqueued one after the other: each has a length that its header can hold,
and ends up in the ring as far as there is space. -/
structure Pushed (crc : List UInt8 → UInt32) (fs : List Frame) (d d' : Daemon) : Prop where
  sized : ∀f∈fs,f.payload.length<2^16
  ring : ∀t,d.txq.Rep t → d'.txq.Rep (pushFrames crc t fs)

namespace Pushed

variable {fs gs : List Frame} {d₁ : Daemon}

theorem nil (hq : d'.txq=d.txq) : Pushed crc [] d d' :=
  ⟨fun _ hf => absurd hf List.not_mem_nil,fun _ ht => hq ▸ ht⟩

theorem trans (h₁ : Pushed crc fs d d₁) (h₂ : Pushed crc gs d₁ d') : Pushed crc (fs++gs) d d' where
  sized f hf := (List.mem_append.mp hf).elim (h₁.sized f) (h₂.sized f)
  ring t ht := by
    rw [pushFrames_append]
    exact h₂.ring _ (h₁.ring t ht)

end Pushed

/-- A frame that is enqueued ends up in the ring as far as there is space. -/
theorem enqueueFrame_allows (clock : Millis) (ftype channel : UInt8) (payload : List UInt8) :
    Allows (fun d' => d'.channels=d.channels ∧ d'.link=d.link ∧ d'.lastTxMs=clock ∧
        Pushed crc [⟨ftype,channel,payload⟩] d d')
      (enqueueFrame crc d clock ftype channel payload) := by
  refine (narrow8_allows _).bind (fun lo ⟨_,hlo⟩ => (narrow8_allows _).bind (fun hi ⟨hlen,hhi⟩ => ?_))
  subst hlo hhi
  intro d' hd'
  obtain ⟨q₁,h₁,hd'⟩ := Option.bind_eq_some_iff.mp hd'
  obtain ⟨q₂,h₂,hd'⟩ := Option.bind_eq_some_iff.mp hd'
  obtain ⟨q₃,h₃,hd'⟩ := Option.bind_eq_some_iff.mp hd'
  obtain rfl := Option.some.inj hd'
  have hsized : payload.length<2^16 := by
    rw [Nat.shiftRight_eq_div_pow] at hlen
    omega
  refine ⟨rfl,rfl,rfl,fun f hf => List.mem_singleton.mp hf ▸ hsized,fun t ht => ?_⟩
  rw [pushFrames_one]
  have ht₁ := (ht.push _).get h₁
  have ht₂ : q₂.Rep ((t.enqueue (header ⟨ftype,channel,payload⟩)).enqueue payload) := by
    split_ifs at h₂ with h0
    · obtain rfl := Option.some.inj h₂
      rw [TxQueue.enqueue,if_pos h0]
      exact ht₁
    · exact (ht₁.push _).get h₂
  exact (ht₂.push _).get h₃

/-- What a handler of channel `id` does: the frames that it hands to `daemon_send`, what it leaves of
its own channel, and that it pauses the others at most. -/
structure Hands (crc : List UInt8 → UInt32) (id : UInt8) (fs : List Frame) (P : ChannelT → Prop)
    (d d' : Daemon) : Prop where
  pushed : Pushed crc (d.offered fs) d d'
  link : d'.link=d.link
  own : ∃ch,d'.channels id=some ch ∧ P ch
  others : ∀j,j≠id → (d'.channels j).map ChannelT.settled=(d.channels j).map ChannelT.settled

namespace Hands

variable {fs gs : List Frame} {P Q : ChannelT → Prop} {d₁ : Daemon}

theorem mono (h : Hands crc id fs P d d') (hPQ : ∀ch,P ch → Q ch) : Hands crc id fs Q d d' := by
  obtain ⟨ch,hget,hch⟩ := h.own
  exact ⟨h.pushed,h.link,⟨ch,hget,hPQ ch hch⟩,h.others⟩

/-- What becomes of the channel itself does not matter. -/
theorem forget {x : Option Daemon} (h : Allows (Hands crc id fs P d) x) :
    Allows (Hands crc id fs (fun _ => True) d) x :=
  Allows.mono h (fun _ h => h.mono (fun _ _ => trivial))

/-- A handler that does nothing. -/
theorem rest {ch : ChannelT} (hget : d.channels id=some ch) (hch : P ch) : Hands crc id [] P d d where
  pushed := by
    rw [Daemon.offered_nil]
    exact .nil rfl
  link := rfl
  own := ⟨ch,hget,hch⟩
  others _ _ := rfl

theorem put {ch : ChannelT} (hch : P ch) : Hands crc id [] P d (d.put id ch) where
  pushed := by
    rw [Daemon.offered_nil]
    exact .nil rfl
  link := rfl
  own := ⟨ch,d.put_self id ch,hch⟩
  others _ hj := congrArg _ (d.put_other id ch hj)

theorem trans (h₁ : Hands crc id fs P d d₁) (h₂ : Hands crc id gs Q d₁ d') :
    Hands crc id (fs++gs) Q d d' where
  pushed := by
    rw [Daemon.offered_append,← Daemon.offered_of_link h₁.link gs]
    exact h₁.pushed.trans h₂.pushed
  link := h₂.link.trans h₁.link
  own := h₂.own
  others j hj := (h₂.others j hj).trans (h₁.others j hj)

/-- A part of a handler after which it goes on. -/
theorem andThen (h : Hands crc id fs P d d₁) {x : Option Daemon}
    (hx : Allows (Hands crc id gs Q d₁) x) : Allows (Hands crc id (fs++gs) Q d) x :=
  hx.mono (fun _ h₂ => h.trans h₂)

theorem bind {x : Option Daemon} {f : Daemon → Option Daemon}
    (h : Allows (Hands crc id fs P d) x)
    (hf : ∀d₁ ch,d₁.channels id=some ch → P ch → Allows (Hands crc id gs Q d₁) (f d₁)) :
    Allows (Hands crc id (fs++gs) Q d) (x>>=f) := by
  refine h.bind (fun d₁ h₁ => ?_)
  obtain ⟨ch,hget,hch⟩ := h₁.own
  exact h₁.andThen (hf d₁ ch hget hch)

/-- A handler whose last part sends nothing. -/
theorem close {x : Option Daemon} {f : Daemon → Option Daemon}
    (h : Allows (Hands crc id fs P d) x)
    (hf : ∀d₁ ch,d₁.channels id=some ch → P ch → Allows (Hands crc id [] Q d₁) (f d₁)) :
    Allows (Hands crc id fs Q d) (x>>=f) := by
  have hbind := bind h hf
  rwa [List.append_nil] at hbind

/-- A handler whose first part sends nothing. -/
theorem after (h : Hands crc id [] P d d₁) {x : Option Daemon} (hx : Allows (Hands crc id gs Q d₁) x) :
    Allows (Hands crc id gs Q d) x := h.andThen hx

theorem from_put (ch : ChannelT) {x : Option Daemon}
    (h : Allows (Hands crc id fs P (d.put id ch)) x) : Allows (Hands crc id fs P d) x :=
  (put (P := fun _ => True) trivial).after h

end Hands

theorem daemonSend_hands {ch : ChannelT} (hget : d.channels id=some ch) (clock : Millis)
    (ftype channel : UInt8) (payload : List UInt8) :
    Allows (Hands crc id [⟨ftype,channel,payload⟩] (·.settled=ch.settled) d)
      (daemonSend crc d clock ftype channel payload) := by
  unfold daemonSend
  split_ifs with hdis
  · refine .some ⟨?_,rfl,⟨ch,hget,rfl⟩,fun _ _ => rfl⟩
    rw [Daemon.offered,if_pos hdis]
    exact .nil rfl
  · intro d' hd'
    obtain ⟨used,-,hd'⟩ := Option.bind_eq_some_iff.mp hd'
    have hsame (d₁ : Daemon) (hq : d₁.txq=d.txq) (hl : d₁.link=d.link)
        (hch : ∀j,(d₁.channels j).map ChannelT.settled=(d.channels j).map ChannelT.settled)
        (hd' : enqueueFrame crc d₁ clock ftype channel payload=some d') :
        Hands crc id [⟨ftype,channel,payload⟩] (·.settled=ch.settled) d d' := by
      obtain ⟨hc,hl',-,hpushed⟩ := enqueueFrame_allows clock ftype channel payload d' hd'
      refine ⟨?_,hl'.trans hl,?_,fun j _ => by rw [hc,hch]⟩
      · rw [Daemon.offered,if_neg hdis]
        exact ⟨hpushed.sized,fun t ht => hpushed.ring t (hq ▸ ht)⟩
      · have hown := hch id
        rw [hget,← hc] at hown
        exact Option.map_eq_some_iff.mp hown
    dsimp only at hd'
    split_ifs at hd' with hhigh
    · refine hsame {d.mapChannels chPause with linkBpPaused := true} rfl rfl (fun j => ?_) hd'
      change ((d.channels j).map chPause).map ChannelT.settled=_
      cases d.channels j with
      | none => rfl
      | some ch => exact congrArg some (ChannelT.setPaused_settled true ch)
    · exact hsame d rfl rfl (fun _ => rfl) hd'

theorem daemonSend16_hands {ch : ChannelT} (hget : d.channels id=some ch) (clock : Millis)
    (ftype channel : UInt8) (payload : List UInt8) :
    Allows (Hands crc id [⟨ftype,channel,payload⟩] (·.settled=ch.settled) d)
      (daemonSend16 crc d clock ftype channel payload) :=
  .check (fun _ => daemonSend_hands hget clock ftype channel payload)

namespace McuCh

variable (m : McuCh) (id : UInt8)

/-- What `mcu_transition` leaves of an MCU. -/
def moved (s : McuState) : McuCh :=
  if s=m.state then m
  else
    match s with
    | .resetting => {m with state := .resetting, lastRxMs := 0, txbuf := []}
    | .active => {m with state := .active}
    | .init => {m with state := .init}

/-- What an MCU sends only while its link is up. -/
def whenUp (fs : List Frame) : List Frame := if m.linkUp then fs else []

theorem whenUp_of_settled {m m' : McuCh} (h : m'.settled=m.settled) (fs : List Frame) :
    m'.whenUp fs=m.whenUp fs := by
  have hup : m'.settled.linkUp=m.settled.linkUp := congrArg linkUp h
  exact congrArg (fun b : Bool => if b then fs else []) hup

/-- The frame by which it tells the peer. -/
def announces (s : McuState) : List Frame :=
  if s=m.state then []
  else
    match s with
    | .resetting => m.whenUp [⟨fFlush,id,[]⟩]
    | .active => m.whenUp [⟨fReady,id,[]⟩]
    | .init => []

theorem announces_close (s : McuState) : (mcuCloseUart m).announces id s=m.announces id s := by
  unfold mcuCloseUart
  split_ifs <;> rfl

/-- What a read leaves of an MCU that is not seen to run. -/
def awaited (bs : List UInt8) : McuCh :=
  match bs.findIdx? (·==klipperSync) with
  | none => m
  | some _ => m.moved .active

def awaitFrames (bs : List UInt8) : List Frame :=
  match bs.findIdx? (·==klipperSync) with
  | none => []
  | some i => m.announces id .active++m.whenUp [⟨fData,id,bs.drop i⟩]

/-- What `mcu_uart_read` leaves of an MCU. -/
def afterRead (io : Io) : McuCh :=
  match readFd m.fd io.read with
  | .wouldBlock => m
  | .error _ => {(mcuCloseUart m).moved .resetting with reopenAtMs := io.clock+1000}
  | .data [] _ => m
  | .data (b::bs) _ =>
    if m.state=.active then {m with lastRxMs := io.clock}
    else awaited {m with lastRxMs := io.clock} (b::bs)

def readFrames (io : Io) : List Frame :=
  match readFd m.fd io.read with
  | .wouldBlock => []
  | .error _ => m.announces id .resetting
  | .data [] _ => []
  | .data (b::bs) _ =>
    if m.state=.active then m.whenUp [⟨fData,id,b::bs⟩] else m.awaitFrames id (b::bs)

/-- What `mcu_uart_drain` leaves of an MCU. -/
def drained (io : Io) : McuCh :=
  if m.txbuf=[] ∨ m.fd=none then m
  else
    match io.write with
    | .again => m
    | .error => {m with txbuf := []}
    | .wrote n => {m with txbuf := m.txbuf.drop (min n m.txbuf.length)}

/-- An event of the UART: it is read, then written. -/
def afterEvent (readable writable : Bool) (io : Io) : McuCh :=
  let m := if readable then m.afterRead io else m
  if writable then m.drained io else m

def eventFrames (readable : Bool) (io : Io) : List Frame := if readable then m.readFrames id io else []

/-- The silence that `ch_tick` takes for a reset. -/
def silent (nowMs : Millis) : Bool :=
  m.linkUp && m.state==.active && 0 < m.lastRxMs && resetSilenceMs<nowMs-m.lastRxMs

theorem silent_iff (nowMs : Millis) : m.silent nowMs=true ↔
    m.linkUp=true ∧ m.state=.active ∧ 0 < m.lastRxMs ∧ resetSilenceMs<nowMs-m.lastRxMs := by
  simp [silent,and_assoc]

def ticked (nowMs : Millis) (io : Io) : McuCh :=
  if m.fd=none ∧ m.reopenAtMs≤nowMs then mcuOpenUart m io
  else if m.silent nowMs then m.moved .resetting
  else m

def tickFrames (nowMs : Millis) : List Frame :=
  if m.fd=none ∧ m.reopenAtMs≤nowMs then []
  else if m.silent nowMs then m.announces id .resetting
  else []

end McuCh

section Mcu

variable {m : McuCh}

theorem Daemon.mcu_of_get (hget : d.channels id=some (.mcu m)) : d.mcu id=some m := by
  rw [Daemon.mcu,hget]

theorem mcuTell_hands {m' : McuCh} (hm : m'.settled=m.settled) (clock : Millis) (ftype : UInt8) :
    Allows (Hands crc id (m.whenUp [⟨ftype,id,[]⟩]) (·.settled=(ChannelT.mcu m).settled) d)
      (if m'.linkUp then daemonSend crc (d.put id (.mcu m')) clock ftype id []
        else some (d.put id (.mcu m'))) := by
  have hch : (ChannelT.mcu m').settled=(ChannelT.mcu m).settled := congrArg ChannelT.mcu hm
  rw [← McuCh.whenUp_of_settled hm,McuCh.whenUp]
  split_ifs
  · refine Hands.from_put (.mcu m') ((daemonSend_hands (d.put_self id _) clock ftype id []).mono ?_)
    exact fun d' h => h.mono (fun ch' hch' => hch'.trans hch)
  · exact .some (.put hch)

theorem mcuTransition_hands (hget : d.channels id=some (.mcu m)) (clock : Millis) (s : McuState) :
    Allows (Hands crc id (m.announces id s) (·.settled=(ChannelT.mcu (m.moved s)).settled) d)
      (mcuTransition crc d id clock s) := by
  refine .next (Daemon.mcu_of_get hget) ?_
  unfold McuCh.announces McuCh.moved
  by_cases hs : s=m.state
  · simp only [hs,if_pos]
    exact .some (.rest hget rfl)
  simp only [hs,if_false]
  cases s with
  | init => exact .some (.put rfl)
  | active => exact mcuTell_hands (m := {m with state := .active}) rfl clock fReady
  | resetting =>
    exact mcuTell_hands (m := {m with state := .resetting, lastRxMs := 0, txbuf := []})
      (mcuUpdateInterest_settled _) clock fFlush

/-- Bytes for the link, if it is up. -/
theorem mcuForward_hands {ch : ChannelT} (m' : McuCh) (hget : d.channels id=some (.mcu m'))
    (hch : (ChannelT.mcu m').settled=ch.settled) (clock : Millis) (bs : List UInt8) :
    Allows (Hands crc id (m'.whenUp [⟨fData,id,bs⟩]) (·.settled=ch.settled) d)
      (if m'.linkUp then daemonSend16 crc d clock fData id bs else some d) := by
  unfold McuCh.whenUp
  split_ifs
  · refine (daemonSend16_hands hget clock fData id bs).mono (fun d' h => h.mono ?_)
    exact fun ch' hch' => hch'.trans hch
  · exact .some (.rest hget hch)

theorem mcuAwaitSync_hands (hget : d.channels id=some (.mcu m)) (clock : Millis) (bs : List UInt8) :
    Allows (Hands crc id (m.awaitFrames id bs) (·.settled=(ChannelT.mcu (m.awaited bs)).settled) d)
      (mcuAwaitSync crc d id clock bs) := by
  unfold mcuAwaitSync McuCh.awaitFrames McuCh.awaited
  cases bs.findIdx? (·==klipperSync) with
  | none => exact .some (.rest hget rfl)
  | some i =>
    refine Hands.bind (mcuTransition_hands hget clock .active) ?_
    intro d₁ ch hget₁ hch
    obtain ⟨m₁,rfl,hm₁⟩ := ChannelT.mcu_of_settled hch
    refine .next (Daemon.mcu_of_get hget₁) ?_
    have hup : (m.moved .active).whenUp [⟨fData,id,bs.drop i⟩]=m.whenUp [⟨fData,id,bs.drop i⟩] := by
      unfold McuCh.moved
      split_ifs <;> rfl
    dsimp only
    rw [← hup,← McuCh.whenUp_of_settled hm₁]
    exact mcuForward_hands m₁ hget₁ hch clock _

theorem mcuUartRead_hands (hget : d.channels id=some (.mcu m)) (io : Io) :
    Allows (Hands crc id (m.readFrames id io) (·.settled=(ChannelT.mcu (m.afterRead io)).settled) d)
      (mcuUartRead crc d id io) := by
  refine .next (Daemon.mcu_of_get hget) ?_
  unfold McuCh.readFrames McuCh.afterRead
  cases readFd m.fd io.read with
  | wouldBlock => exact .some (.rest hget rfl)
  | error e =>
    rw [← McuCh.announces_close]
    refine Hands.from_put (.mcu (mcuCloseUart m))
      (Hands.close (mcuTransition_hands (d.put_self id _) io.clock .resetting) ?_)
    intro d₁ ch hget₁ hch
    obtain ⟨m₁,rfl,hm₁⟩ := ChannelT.mcu_of_settled hch
    refine .next (Daemon.mcu_of_get hget₁) (.some (.put ?_))
    exact congrArg (fun m => ChannelT.mcu {m with reopenAtMs := io.clock+1000}) hm₁
  | data bs hbs =>
    cases bs with
    | nil => exact .some (.rest hget rfl)
    | cons b bs =>
      refine Hands.from_put (.mcu {m with lastRxMs := io.clock}) ?_
      dsimp only
      by_cases hs : m.state=.active
      · rw [if_pos hs,if_pos hs,if_pos hs]
        exact mcuForward_hands {m with lastRxMs := io.clock} (d.put_self id _) rfl io.clock (b::bs)
      · rw [if_neg hs,if_neg hs,if_neg hs]
        exact mcuAwaitSync_hands (d.put_self id _) io.clock (b::bs)

theorem chTick_hands (hget : d.channels id=some (.mcu m)) (nowMs : Millis) (io : Io) :
    Allows (Hands crc id (m.tickFrames id nowMs) (·.settled=(ChannelT.mcu (m.ticked nowMs io)).settled)
      d) (chTick crc d id nowMs io) := by
  unfold chTick McuCh.tickFrames McuCh.ticked
  rw [hget]
  dsimp only
  by_cases hdue : m.fd=none ∧ m.reopenAtMs≤nowMs
  · rw [if_pos hdue,if_pos hdue,if_pos hdue]
    exact .some (.put rfl)
  rw [if_neg hdue,if_neg hdue,if_neg hdue]
  by_cases hs : m.silent nowMs=true
  · rw [if_pos hs,if_pos hs,if_pos ((m.silent_iff nowMs).mp hs)]
    exact mcuTransition_hands hget io.clock .resetting
  · rw [if_neg hs,if_neg hs,if_neg (hs∘(m.silent_iff nowMs).mpr)]
    exact .some (.rest hget rfl)

theorem mcuUartDrain_settled (m : McuCh) (io : Io) :
    Allows (fun m' => m'.settled=(m.drained io).settled) (mcuUartDrain m io) := by
  unfold mcuUartDrain McuCh.drained
  by_cases hidle : m.txbuf=[] ∨ m.fd=none
  · rw [if_pos hidle,if_pos hidle]
    exact .some rfl
  rw [if_neg hidle,if_neg hidle]
  cases io.write with
  | again => exact .some rfl
  | error => exact .some (mcuUpdateInterest_settled _)
  | wrote n => exact .next (slide_eq (Nat.min_le_right _ _)) (.some (mcuUpdateInterest_settled _))

theorem McuCh.drained_settled (m : McuCh) (io : Io) : (m.drained io).settled=m.settled.drained io := by
  have hsame : m.settled.txbuf=m.txbuf ∧ m.settled.fd=m.fd := ⟨rfl,rfl⟩
  unfold drained
  rw [hsame.1,hsame.2]
  split_ifs
  · rfl
  · cases io.write <;> rfl

theorem mcuEvent_hands (hget : d.channels id=some (.mcu m)) (readable writable : Bool) (io : Io) :
    Allows (Hands crc id (m.eventFrames id readable io)
        (·.settled=(ChannelT.mcu (m.afterEvent readable writable io)).settled) d)
      (serialEvent crc d id readable writable io) := by
  unfold serialEvent McuCh.eventFrames McuCh.afterEvent
  rw [hget]
  dsimp only
  have hread : Allows (Hands crc id (if readable then m.readFrames id io else [])
      (·.settled=(ChannelT.mcu (if readable then m.afterRead io else m)).settled) d)
      (if readable then mcuUartRead crc d id io else some d) := by
    split_ifs
    · exact mcuUartRead_hands hget io
    · exact .some (.rest hget rfl)
  refine Hands.close hread ?_
  generalize (if readable then m.afterRead io else m)=m₀
  intro d₁ ch hget₁ hch
  obtain ⟨m₁,rfl,hm₁⟩ := ChannelT.mcu_of_settled hch
  split_ifs
  · refine .next (Daemon.mcu_of_get hget₁) ?_
    refine (mcuUartDrain_settled m₁ io).bind (fun m' hm' => .some (.put (congrArg ChannelT.mcu ?_)))
    rw [hm',McuCh.drained_settled,hm₁,McuCh.drained_settled]
  · exact .some (.rest hget₁ hch)

end Mcu

end Serialmux.Reference

import Serialmux.Reference.ChannelSound

namespace Serialmux.Reference

open Framework Protocol Channel

variable {w : Prop} {crc : List UInt8 → UInt32} {specs : UInt8 → Option Spec}

/-- The invariant of the daemon: the parser waits for more, the ring is in order, the channels are of
the kinds they were built as, and each is sound. -/
structure Daemon.Sound (w : Prop) (crc : List UInt8 → UInt32) (specs : UInt8 → Option Spec)
    (d : Daemon) : Prop where
  parser : frameMove crc d.parser=none
  ring : ∃t,d.txq.Rep t
  kinds : ∀id,(d.channels id).map ChannelT.spec=specs id
  channels : ∀id ch,d.channels id=some ch → ch.Sound w

/-- No frame the daemon enqueues loses a bit of its length, and the ring stays in order. -/
theorem enqueueFrame_yields (crc : List UInt8 → UInt32) {d : Daemon} {t : TxQueue} (ht : d.txq.Rep t)
    (clock : Millis) (ftype channel : UInt8) {payload : List UInt8} (hp : payload.length<2^16) :
    Yields (fun d' => (∃t',d'.txq.Rep t') ∧ d'.parser=d.parser ∧ d'.channels=d.channels)
      (enqueueFrame crc d clock ftype channel payload) := by
  have hlo : payload.length&&&0xFF<2^8 := Nat.and_lt_two_pow _ (by decide)
  have hhi : payload.length>>>8<2^8 := by
    rw [Nat.shiftRight_eq_div_pow]
    omega
  refine .next (narrow8_eq hlo) (.next (narrow8_eq hhi) ?_)
  refine (ht.push _).bind ?_
  intro q₁ h₁
  have hbody : Yields (fun q => ∃t,q.Rep t)
      (if payload.length=0 then some q₁ else txqPush q₁ payload) :=
    .early ⟨_,h₁⟩ (fun _ => (h₁.push _).mono (fun _ hq => ⟨_,hq⟩))
  refine hbody.bind ?_
  intro q₂ ⟨t₂,h₂⟩
  refine (h₂.push _).bind ?_
  intro q₃ h₃
  exact .some ⟨⟨_,h₃⟩,rfl,rfl⟩

namespace Daemon.Sound

variable {d : Daemon} {id : UInt8}

theorem put (h : Sound w crc specs d) {ch : ChannelT} (hk : specs id=some ch.spec)
    (hc : ch.Sound w) : Sound w crc specs (d.put id ch) := by
  refine ⟨h.parser,h.ring,?_,?_⟩
  · intro j
    by_cases hj : j=id
    · rw [hj,hk,put_self]
      rfl
    · rw [put_other d id ch hj]
      exact h.kinds j
  · intro j ch' hget
    by_cases hj : j=id
    · rw [hj,put_self] at hget
      exact Option.some.inj hget ▸ hc
    · rw [put_other d id ch hj] at hget
      exact h.channels j ch' hget

theorem kind (h : Sound w crc specs d) {ch : ChannelT} (hget : d.channels id=some ch) :
    specs id=some ch.spec := by
  rw [← h.kinds id,hget]
  rfl

/-- A channel gives way to one of its kind. -/
theorem replace (h : Sound w crc specs d) {ch ch' : ChannelT} (hget : d.channels id=some ch)
    (hk : ch'.spec=ch.spec) (hc : ch'.Sound w) : Sound w crc specs (d.put id ch') :=
  h.put ((h.kind hget).trans (congrArg some hk.symm)) hc

/-- What every channel withstands. -/
theorem mapChannels (h : Sound w crc specs d) {f : ChannelT → ChannelT}
    (hk : ∀ch,(f ch).spec=ch.spec) (hf : ∀ch,ch.Sound w → (f ch).Sound w) :
    Sound w crc specs (d.mapChannels f) := by
  refine ⟨h.parser,h.ring,?_,?_⟩
  · intro id
    rw [← h.kinds id]
    cases hget : d.channels id with
    | none => simp [Daemon.mapChannels,hget]
    | some ch => simp [Daemon.mapChannels,hget,hk]
  · intro id ch hget
    obtain ⟨ch₀,hget₀,rfl⟩ := Option.map_eq_some_iff.mp hget
    exact hf ch₀ (h.channels id ch₀ hget₀)

theorem setPaused (h : Sound w crc specs d) (b : Bool) :
    Sound w crc specs (d.mapChannels (chSetPaused b)) :=
  h.mapChannels (ChannelT.setPaused_spec b) (fun _ hch => hch.setPaused b)

theorem paused (h : Sound w crc specs d) :
    Sound w crc specs {d.mapChannels chPause with linkBpPaused := true} :=
  have hset := h.setPaused true
  ⟨hset.parser,hset.ring,hset.kinds,hset.channels⟩

theorem resumed (h : Sound w crc specs d) :
    Sound w crc specs {d.mapChannels chResume with linkBpPaused := false} :=
  have hset := h.setPaused false
  ⟨hset.parser,hset.ring,hset.kinds,hset.channels⟩

theorem get (h : Sound w crc specs d) {spec : Spec} (hk : specs id=some spec) :
    ∃ch,d.channels id=some ch ∧ ch.spec=spec ∧ ch.Sound w := by
  obtain ⟨ch,hget,hspec⟩ := Option.map_eq_some_iff.mp ((h.kinds id).trans hk)
  exact ⟨ch,hget,hspec,h.channels id ch hget⟩

theorem mcu (h : Sound w crc specs d) (hk : specs id=some .mcu) :
    ∃m,d.channels id=some (.mcu m) ∧ d.mcu id=some m ∧ m.Sound w := by
  obtain ⟨ch,hget,hspec,hsound⟩ := h.get hk
  cases ch with
  | mcu m => exact ⟨m,hget,by rw [Daemon.mcu,hget],hsound⟩
  | pty p => exact nomatch hspec
  | src s => exact nomatch hspec
  | dst t => exact nomatch hspec

theorem pty (h : Sound w crc specs d) (hk : specs id=some .pty) :
    ∃p,d.channels id=some (.pty p) ∧ d.pty id=some p ∧ p.Sound w := by
  obtain ⟨ch,hget,hspec,hsound⟩ := h.get hk
  cases ch with
  | mcu m => exact nomatch hspec
  | pty p => exact ⟨p,hget,by rw [Daemon.pty,hget],hsound⟩
  | src s => exact nomatch hspec
  | dst t => exact nomatch hspec

theorem src (h : Sound w crc specs d) (hk : specs id=some .tcpSrc) :
    ∃s,d.channels id=some (.src s) ∧ d.src id=some s ∧ ∀cid,(s.conns cid).Sound w := by
  obtain ⟨ch,hget,hspec,hsound⟩ := h.get hk
  cases ch with
  | mcu m => exact nomatch hspec
  | pty p => exact nomatch hspec
  | src s => exact ⟨s,hget,by rw [Daemon.src,hget],hsound⟩
  | dst t => exact nomatch hspec

theorem conn (h : Sound w crc specs d) {spec : Spec} (hk : specs id=some spec)
    (ht : spec.isTcp=true) (cid : Slot) :
    ∃ch c,d.channels id=some ch ∧ ch.conn cid=some c ∧ d.conn id cid=some c ∧ c.Sound w := by
  obtain ⟨ch,hget,rfl,hsound⟩ := h.get hk
  have hconn : ∃c,ch.conn cid=some c := by
    cases ch with
    | mcu m => exact nomatch ht
    | pty p => exact nomatch ht
    | src s => exact ⟨_,rfl⟩
    | dst t => exact ⟨_,rfl⟩
  obtain ⟨c,hc⟩ := hconn
  refine ⟨ch,c,hget,hc,?_,hsound.conn hc⟩
  rw [Daemon.conn,hget]
  exact hc

theorem setConn (h : Sound w crc specs d) (cid : Slot) {c : TcpConn} (hc : c.Sound w) :
    Sound w crc specs (d.setConn id cid c) := by
  unfold Daemon.setConn
  split
  · exact h
  · next ch hget =>
    refine h.put ?_ ((h.channels id ch hget).setConn cid hc)
    rw [ChannelT.setConn_spec]
    exact h.kind hget

theorem updateConn (h : Sound w crc specs d) {spec : Spec} (hk : specs id=some spec)
    (ht : spec.isTcp=true) (cid : Slot) : Yields (Sound w crc specs) (d.updateConn id cid) := by
  obtain ⟨ch,c,hget,hc,-,hsound⟩ := h.conn hk ht cid
  refine .next hget (.next hc (.some ?_))
  exact h.setConn cid (hsound.again _)

/-- A change of a connection that is followed by an update of its interest. -/
theorem changeConn (h : Sound w crc specs d) {cid : Slot} {c : TcpConn} (hc : d.conn id cid=some c)
    {c' : TcpConn} (hb : c'.fd≠none → ∃b,c'.txbuf=some b ∧ b.length≤connTxbufSize)
    (hs : w → c'.fd≠none → c'.watch.Synced) :
    Yields (Sound w crc specs) ((d.setConn id cid c').updateConn id cid) := by
  obtain ⟨ch,hget,hconn⟩ := Option.bind_eq_some_iff.mp hc
  have hset : d.setConn id cid c'=d.put id (ch.setConn cid c') := by rw [Daemon.setConn,hget]
  have hupdate : (d.setConn id cid c').updateConn id cid=
      some ((d.setConn id cid c').setConn id cid
        (tcpConnUpdate c' (ch.setConn cid c').bpPaused)) := by
    rw [Daemon.updateConn,hset,put_self]
    simp only [Option.bind_eq_bind,Option.bind_some,ChannelT.conn_setConn hconn]
    rfl
  rw [hupdate,setConn_setConn]
  exact .some (h.setConn cid (.update hb hs _))

theorem enqueueFrame (h : Sound w crc specs d) (clock : Millis) (ftype channel : UInt8)
    {payload : List UInt8} (hp : payload.length<2^16) :
    Yields (Sound w crc specs) (enqueueFrame crc d clock ftype channel payload) := by
  obtain ⟨t,ht⟩ := h.ring
  refine (enqueueFrame_yields crc ht clock ftype channel hp).mono ?_
  intro d' ⟨hring,hparser,hchannels⟩
  exact ⟨hparser ▸ h.parser,hring,hchannels ▸ h.kinds,hchannels ▸ h.channels⟩

theorem daemonSend (h : Sound w crc specs d) (clock : Millis) (ftype channel : UInt8)
    {payload : List UInt8} (hp : payload.length<2^16) :
    Yields (Sound w crc specs) (daemonSend crc d clock ftype channel payload) := by
  refine .early h (fun _ => ?_)
  obtain ⟨t,ht⟩ := h.ring
  refine .next ht.used (enqueueFrame ?_ clock ftype channel hp)
  split_ifs
  · exact h.paused
  · exact h

theorem daemonSend16 (h : Sound w crc specs d) (clock : Millis) (ftype channel : UInt8)
    {payload : List UInt8} (hp : payload.length<2^16) :
    Yields (Sound w crc specs) (daemonSend16 crc d clock ftype channel payload) :=
  .check hp (h.daemonSend clock ftype channel hp)

/-- A word about a connection. -/
theorem sendCid (h : Sound w crc specs d) (clock : Millis) (ftype : UInt8) (cid : Slot) :
    Yields (Sound w crc specs) (do
      Reference.daemonSend crc d clock ftype id (← cidBytes cid)) := by
  refine (cidBytes_yields cid).bind ?_
  intro bs hbs
  exact h.daemonSend clock ftype id (by omega)

theorem mcuTransition (h : Sound w crc specs d) (hk : specs id=some .mcu) (clock : Millis)
    (newState : McuState) : Yields (Sound w crc specs) (mcuTransition crc d id clock newState) := by
  obtain ⟨m,-,hm,hsound⟩ := h.mcu hk
  refine .next hm (.early h (fun _ => ?_))
  cases newState with
  | init => exact .some (h.put hk ⟨hsound.fits,hsound.wired⟩)
  | active =>
    have hput : Sound w crc specs (d.put id (.mcu {m with state := .active})) :=
      h.put hk ⟨hsound.fits,hsound.wired⟩
    exact .when (fun _ => hput.daemonSend clock _ _ (by decide)) hput
  | resetting =>
    have hput : Sound w crc specs (d.put id (.mcu (mcuUpdateInterest
        {m with state := .resetting, lastRxMs := 0, txbuf := []}))) :=
      h.put hk (McuCh.Sound.interest (Nat.zero_le _) hsound.synced)
    exact .when (fun _ => hput.daemonSend clock _ _ (by decide)) hput

theorem mcuAwaitSync (h : Sound w crc specs d) (hk : specs id=some .mcu) (clock : Millis)
    {bs : List UInt8} (hbs : bs.length≤4096) :
    Yields (Sound w crc specs) (mcuAwaitSync crc d id clock bs) := by
  unfold Reference.mcuAwaitSync
  split
  · exact .some h
  · refine (h.mcuTransition hk clock .active).bind ?_
    intro d' h'
    obtain ⟨m,-,hm,-⟩ := h'.mcu hk
    refine .next hm (.when (fun _ => h'.daemonSend16 clock _ _ ?_) h')
    rw [List.length_drop]
    omega

theorem mcuUartRead (h : Sound w crc specs d) (hk : specs id=some .mcu) (io : Io) :
    Yields (Sound w crc specs) (mcuUartRead crc d id io) := by
  obtain ⟨m,-,hm,hsound⟩ := h.mcu hk
  refine .next hm ?_
  cases readFd m.fd io.read with
  | wouldBlock => exact .some h
  | error e =>
    have hclosed : Sound w crc specs (d.put id (.mcu (mcuCloseUart m))) := h.put hk hsound.closeUart
    refine (hclosed.mcuTransition hk io.clock .resetting).bind ?_
    intro d' h'
    obtain ⟨m',-,hm',hsound'⟩ := h'.mcu hk
    exact .next hm' (.some (h'.put hk ⟨hsound'.fits,hsound'.wired⟩))
  | data bs hbs =>
    cases bs with
    | nil => exact .some h
    | cons b bs =>
      have hput : Sound w crc specs (d.put id (.mcu {m with lastRxMs := io.clock})) :=
        h.put hk ⟨hsound.fits,hsound.wired⟩
      dsimp only
      split_ifs
      · exact hput.daemonSend16 io.clock _ _ (by omega)
      · exact .some hput
      · exact hput.mcuAwaitSync hk io.clock hbs

theorem ptyMasterRead (h : Sound w crc specs d) (hk : specs id=some .pty) (io : Io) :
    Yields (Sound w crc specs) (ptyMasterRead crc d id io) := by
  obtain ⟨p,-,hp,hsound⟩ := h.pty hk
  refine .next hp ?_
  cases readFd p.masterFd io.read with
  | wouldBlock => exact .some h
  | error e =>
    cases e with
    | eio => exact .some (h.put hk hsound.ptyClose)
    | other => exact .some h
  | data bs hbs =>
    cases bs with
    | nil => exact .some h
    | cons b bs => exact h.daemonSend16 io.clock _ _ (by omega)

/-- A connection that is closed leaves nothing behind that could be out of order. -/
theorem closeOpen {cid : Slot} {c : TcpConn} (hc : d.conn id cid=some c) (hfd : c.fd≠none)
    (h : Sound w crc specs (d.setConn id cid (tcpConnCloseFd c))) (clock : Millis) (notify : Bool) :
    Yields (Sound w crc specs) (closeCid crc d id clock cid notify) := by
  refine .next hc ?_
  rw [if_neg hfd]
  exact .when (fun _ => h.sendCid clock _ cid) h

theorem closeCid (h : Sound w crc specs d) {spec : Spec} (hk : specs id=some spec)
    (ht : spec.isTcp=true) (clock : Millis) (cid : Slot) (notify : Bool) :
    Yields (Sound w crc specs) (closeCid crc d id clock cid notify) := by
  obtain ⟨ch,c,-,-,hc,-⟩ := h.conn hk ht cid
  by_cases hfd : c.fd=none
  · refine .next hc ?_
    rw [if_pos hfd]
    exact .some h
  · exact closeOpen hc hfd (h.setConn cid (.closeFd c)) clock notify

theorem srcCloseCid (h : Sound w crc specs d) (hk : specs id=some .tcpSrc) (clock : Millis)
    (cid : Slot) (notify : Bool) :
    Yields (Sound w crc specs) (srcCloseCid crc d id clock cid notify) := by
  obtain ⟨s,-,hs,-⟩ := h.src hk
  exact .next hs (h.closeCid hk rfl clock cid _)

theorem dstCloseCid (h : Sound w crc specs d) (hk : specs id=some .tcpDst) (clock : Millis)
    (cid : Slot) (notify : Bool) :
    Yields (Sound w crc specs) (dstCloseCid crc d id clock cid notify) :=
  h.closeCid hk rfl clock cid notify

/-- The chunk loop comes to an end, and no chunk is too large for its frame. -/
theorem sendTdata (h : Sound w crc specs d) (clock : Millis) (cid : Slot) {fuel : Nat}
    {rest : List UInt8} (hfuel : rest.length≤fuel) :
    Yields (Sound w crc specs) (sendTdata crc id clock cid fuel d rest) := by
  induction fuel generalizing d rest with
  | zero =>
    rw [Reference.sendTdata,if_pos (by omega)]
    exact .some h
  | succ fuel ih =>
    rw [Reference.sendTdata]
    split_ifs with hrest
    · exact .some h
    · refine (cidBytes_yields cid).bind ?_
      intro bs hbs
      have hmax : maxPayload=16384 := rfl
      refine .next (copyTo_eq (Nat.min_le_left _ _) (by omega)) ?_
      refine (h.daemonSend16 clock _ _ ?_).bind ?_
      · rw [List.length_append,List.length_take]
        omega
      · intro d' h'
        exact ih h' (by rw [List.length_drop]; omega)

theorem srcOnAccept (h : Sound w crc specs d) (hk : specs id=some .tcpSrc) (io : Io) :
    Yields (Sound w crc specs) (srcOnAccept crc d id io) := by
  obtain ⟨s,hget,hs,hsound⟩ := h.src hk
  refine .next hs ?_
  split
  · exact .some h
  · next fd _ =>
    refine .early h (fun _ => ?_)
    refine (srcAllocCid_yields s).bind ?_
    intro r hr
    split
    · exact .some h
    · next s' cid =>
      have hall : (ChannelT.src s').Sound w := by
        intro j
        rw [hr s' cid rfl]
        exact hsound j
      dsimp only
      split_ifs
      · exact .some (h.put hk (hall.setConn cid (.closed rfl)))
      · have hput : Sound w crc specs (d.put id (ChannelT.setConn cid
            {s'.conns cid with fd := some fd, watch := .fresh, connecting := false, txbuf := some []}
            (.src s'))) := by
          refine h.put hk (hall.setConn cid ⟨fun _ => ⟨[],rfl,Nat.zero_le _⟩,fun _ _ => ?_⟩)
          exact ⟨Watch.fresh_synced,fun hlen => absurd rfl hlen⟩
        refine (cidBytes_yields cid).bind ?_
        intro bs hbs
        refine (hput.daemonSend io.clock _ _ (by omega)).bind ?_
        intro d' h'
        exact h'.updateConn hk rfl cid

theorem srcConnWrite (h : Sound w crc specs d) (hk : specs id=some .tcpSrc) (cid : Slot) (io : Io) :
    Yields (Sound w crc specs) (srcConnWrite crc d id cid io) := by
  obtain ⟨ch,c,-,-,hc,hsound⟩ := h.conn hk rfl cid
  refine .next hc ?_
  by_cases hlen : c.txbufLen=0
  · rw [if_pos hlen]
    exact h.updateConn hk rfl cid
  rw [if_neg hlen]
  cases io.write with
  | again => exact .some h
  | error => exact h.srcCloseCid hk io.clock cid true
  | wrote n =>
    refine (hsound.sentTxbuf hlen n).bind ?_
    intro c' hc'
    have hset : Sound w crc specs (d.setConn id cid c') := h.setConn cid hc'
    dsimp only
    split_ifs
    · exact hset.srcCloseCid hk io.clock cid false
    · exact hset.updateConn hk rfl cid

theorem srcOnConnEvent (h : Sound w crc specs d) (hk : specs id=some .tcpSrc) (cid : Slot)
    (readable writable : Bool) (io : Io) :
    Yields (Sound w crc specs) (srcOnConnEvent crc d id cid readable writable io) := by
  obtain ⟨ch,c,-,-,hc,-⟩ := h.conn hk rfl cid
  have hgoOn (d : Daemon) (h : Sound w crc specs d) : Yields (Sound w crc specs)
      (if writable then Reference.srcConnWrite crc d id cid io else some d) :=
    .when (fun _ => h.srcConnWrite hk cid io) h
  refine .next hc (.early h (fun _ => ?_))
  by_cases hread : readable=true ∧ c.closePending=false
  · rw [if_pos hread]
    cases io.recv with
    | wouldBlock => exact .some h
    | error e => exact h.srcCloseCid hk io.clock cid true
    | data bs hbs =>
      cases bs with
      | nil => exact h.srcCloseCid hk io.clock cid true
      | cons b bs => exact (h.sendTdata io.clock cid le_rfl).bind hgoOn
  · rw [if_neg hread]
    exact hgoOn d h

theorem dstOpenConn (h : Sound w crc specs d) (hk : specs id=some .tcpDst) (cid : Slot) (io : Io) :
    Yields (Sound w crc specs) (dstOpenConn crc d id cid io) := by
  obtain ⟨ch,c,-,-,hc,-⟩ := h.conn hk rfl cid
  refine .next hc ?_
  split
  · exact h.sendCid io.clock _ cid
  · exact h.sendCid io.clock _ cid
  · dsimp only
    split_ifs
    · -- Without a buffer the connection is closed before anyone looks at it.
      refine closeOpen (conn_setConn hc _) (Option.some_ne_none _) ?_ io.clock true
      rw [setConn_setConn]
      exact h.setConn cid (.closeFd _)
    · exact h.changeConn hc (fun _ => ⟨[],rfl,Nat.zero_le _⟩) (fun _ _ => Watch.fresh_synced)

theorem dstConnWrite (h : Sound w crc specs d) (hk : specs id=some .tcpDst) (cid : Slot) (io : Io) :
    Yields (fun r => Sound w crc specs r.1) (dstConnWrite crc d id cid io) := by
  obtain ⟨ch,c,-,-,hc,hsound⟩ := h.conn hk rfl cid
  have hupdate (d : Daemon) (h : Sound w crc specs d) : Yields (fun r => Sound w crc specs r.1)
      (do return (← d.updateConn id cid,true)) :=
    (h.updateConn hk rfl cid).bind (fun _ h' => .some h')
  refine .next hc (.early h (fun _ => ?_))
  by_cases hlen : c.txbufLen=0
  · rw [if_pos hlen]
    exact hupdate d h
  rw [if_neg hlen]
  cases io.write with
  | again => exact hupdate d h
  | error => exact (h.dstCloseCid hk io.clock cid _).bind (fun _ h' => .some h')
  | wrote n =>
    refine (hsound.sentTxbuf hlen n).bind ?_
    intro c' hc'
    have hset : Sound w crc specs (d.setConn id cid c') := h.setConn cid hc'
    dsimp only
    split_ifs
    · exact (hset.dstCloseCid hk io.clock cid false).bind (fun _ h' => .some h')
    · exact hupdate _ hset

theorem dstConnRead (h : Sound w crc specs d) (hk : specs id=some .tcpDst) (cid : Slot) (io : Io) :
    Yields (Sound w crc specs) (dstConnRead crc d id cid io) := by
  unfold Reference.dstConnRead
  cases io.recv with
  | wouldBlock => exact .some h
  | error e => exact h.dstCloseCid hk io.clock cid true
  | data bs hbs =>
    cases bs with
    | nil => exact h.dstCloseCid hk io.clock cid true
    | cons b bs => exact h.sendTdata io.clock cid le_rfl

theorem dstOnConnEvent (h : Sound w crc specs d) (hk : specs id=some .tcpDst) (cid : Slot)
    (readable writable : Bool) (io : Io) :
    Yields (Sound w crc specs) (dstOnConnEvent crc d id cid readable writable io) := by
  obtain ⟨ch,c,-,-,hc,hsound⟩ := h.conn hk rfl cid
  refine .next hc (.early h (fun _ => ?_))
  by_cases herr : c.connecting=true ∧ writable=true ∧ io.soError=true
  · rw [if_pos herr]
    exact h.dstCloseCid hk io.clock cid true
  rw [if_neg herr]
  have hdone : Sound w crc specs (if c.connecting=true ∧ writable=true then
      d.setConn id cid {c with connecting := false} else d) := by
    split_ifs
    · exact h.setConn cid ⟨hsound.buffer,hsound.wired⟩
    · exact h
  generalize (if c.connecting=true ∧ writable=true then
    d.setConn id cid {c with connecting := false} else d)=d₁ at hdone ⊢
  have hwrite : Yields (fun r => Sound w crc specs r.1)
      (if writable then Reference.dstConnWrite crc d₁ id cid io else some (d₁,true)) :=
    .when (fun _ => hdone.dstConnWrite hk cid io) hdone
  refine hwrite.bind ?_
  intro (d₂,alive) h₂
  exact .when (fun _ => Sound.dstConnRead h₂ hk cid io) h₂

/-- Data for a slot never overruns its buffer, whatever the peer sends. -/
theorem tcpOnTdata (h : Sound w crc specs d) {spec : Spec} (hk : specs id=some spec)
    (ht : spec.isTcp=true) {close : Daemon → Bool → Option Daemon}
    (hclose : ∀notify,Yields (Sound w crc specs) (close d notify)) (cid : Slot) (data : List UInt8) :
    Yields (Sound w crc specs) (tcpOnTdata close d id cid data) := by
  obtain ⟨ch,c,-,-,hc,hsound⟩ := h.conn hk ht cid
  refine .next hc (.early h (fun hskip => ?_))
  obtain ⟨hfd,-⟩ := not_or.mp hskip
  obtain ⟨b,hb,hle⟩ := hsound.buffer hfd
  have hlen : c.txbufLen=b.length := by rw [TcpConn.txbufLen,hb]; rfl
  refine .next (sub?_eq (by omega)) ?_
  by_cases hhigh : connTxbufSize-c.txbufLen<data.length ∨ connHighWater<c.txbufLen
  · rw [if_pos hhigh]
    exact hclose true
  rw [if_neg hhigh]
  refine .next hb (.next (copyTo_eq le_rfl (by omega)) ?_)
  have hfits : (b++data.take data.length).length≤connTxbufSize := by
    rw [List.length_append,List.length_take]
    omega
  exact h.changeConn hc (fun _ => ⟨_,rfl,hfits⟩) hsound.synced

theorem tcpOnTclose (h : Sound w crc specs d) {spec : Spec} (hk : specs id=some spec)
    (ht : spec.isTcp=true) {close : Daemon → Bool → Option Daemon}
    (hclose : ∀notify,Yields (Sound w crc specs) (close d notify)) (cid : Slot) :
    Yields (Sound w crc specs) (tcpOnTclose close d id cid) := by
  obtain ⟨ch,c,-,-,hc,hsound⟩ := h.conn hk ht cid
  refine .next hc ?_
  split_ifs
  · exact .some h
  · exact hclose false
  · exact h.changeConn hc hsound.buffer hsound.synced

theorem srcOnFrame (h : Sound w crc specs d) (hk : specs id=some .tcpSrc) (ftype : UInt8)
    (payload : List UInt8) (io : Io) :
    Yields (Sound w crc specs) (srcOnFrame crc d id ftype payload io) := by
  unfold Reference.srcOnFrame
  split
  · exact .some h
  · next cid data _ =>
    split_ifs
    · exact h.tcpOnTdata hk rfl (h.srcCloseCid hk io.clock cid) cid data
    · exact h.tcpOnTclose hk rfl (h.srcCloseCid hk io.clock cid) cid
    · exact .some h

theorem dstOnFrame (h : Sound w crc specs d) (hk : specs id=some .tcpDst) (ftype : UInt8)
    (payload : List UInt8) (io : Io) :
    Yields (Sound w crc specs) (dstOnFrame crc d id ftype payload io) := by
  unfold Reference.dstOnFrame
  split
  · exact .some h
  · next cid data _ =>
    split_ifs
    · obtain ⟨ch,c,-,-,hc,-⟩ := h.conn hk rfl cid
      exact .next hc (.when (fun _ => h.dstOpenConn hk cid io) h)
    · exact h.tcpOnTdata hk rfl (h.dstCloseCid hk io.clock cid) cid data
    · exact h.tcpOnTclose hk rfl (h.dstCloseCid hk io.clock cid) cid
    · exact .some h

theorem chTick (h : Sound w crc specs d) (id : UInt8) (nowMs : Millis) (io : Io) :
    Yields (Sound w crc specs) (chTick crc d id nowMs io) := by
  unfold Reference.chTick
  split
  · next m hget =>
    have hm : m.Sound w := h.channels id _ hget
    split_ifs
    · exact .some (h.replace hget rfl (hm.openUart io))
    · exact h.mcuTransition (h.kind hget) io.clock .resetting
    · exact .some h
  · exact .some h

/-- A frame for a channel; only a stall could leave bytes that no one will write. -/
theorem chOnFrame (h : Sound w crc specs d) (id ftype : UInt8) (payload : List UInt8) (io : Io)
    (hstall : w → ∀ch,d.channels id=some ch → ¬ch.Stalls ftype payload io) :
    Yields (Sound w crc specs) (chOnFrame crc d id ftype payload io) := by
  unfold Reference.chOnFrame
  split
  · exact .some h
  · next m hget =>
    have hm : m.Sound w := h.channels id _ hget
    refine (hm.onFrame (fun hw => hstall hw _ hget)).bind ?_
    exact fun m' hm' => .some (h.replace hget rfl hm')
  · next p hget =>
    have hp : p.Sound w := h.channels id _ hget
    refine (hp.onFrame (fun hw => hstall hw _ hget)).bind ?_
    exact fun p' hp' => .some (h.replace hget rfl hp')
  · next s hget => exact h.srcOnFrame (h.kind hget) ftype payload io
  · next t hget => exact h.dstOnFrame (h.kind hget) ftype payload io

theorem chOnLinkUp (h : Sound w crc specs d) (clock : Millis) (id : UInt8) :
    Yields (Sound w crc specs) (chOnLinkUp crc clock d id) := by
  unfold Reference.chOnLinkUp
  split
  · exact .some h
  · next m hget =>
    have hm : m.Sound w := h.channels id _ hget
    have hput : Sound w crc specs (d.put id (.mcu {m with linkUp := true, lastRxMs := clock})) :=
      h.replace hget rfl ⟨hm.fits,hm.wired⟩
    exact hput.daemonSend clock _ _ (by decide)
  · next p hget =>
    have hp : p.Sound w := h.channels id _ hget
    exact .some (h.replace hget rfl hp.ptyClose)
  · next s hget =>
    have hs : ∀cid,(s.conns cid).Sound w := h.channels id _ hget
    exact .some (h.replace hget rfl hs)
  · next t hget => exact .some (h.replace hget rfl (h.channels id _ hget).linkDown)

theorem serialEvent (h : Sound w crc specs d) (id : UInt8) (readable writable : Bool) (io : Io) :
    Yields (Sound w crc specs) (serialEvent crc d id readable writable io) := by
  unfold Reference.serialEvent
  split
  · next m hget =>
    have hk := h.kind hget
    refine (Yields.when (fun _ => h.mcuUartRead hk io) h).bind ?_
    intro d' h'
    refine .when (fun _ => ?_) h'
    obtain ⟨m',-,hm',hsound⟩ := h'.mcu hk
    refine .next hm' ((hsound.uartDrain hsound.fits (fun _ _ => rfl)).bind ?_)
    exact fun m'' hm'' => .some (h'.put hk hm'')
  · next p hget =>
    have hk := h.kind hget
    refine (Yields.when (fun _ => h.ptyMasterRead hk io) h).bind ?_
    intro d' h'
    refine .when (fun _ => ?_) h'
    obtain ⟨p',-,hp',hsound⟩ := h'.pty hk
    refine .next hp' ((hsound.masterDrain hsound.fits (fun _ _ => rfl)).bind ?_)
    exact fun p'' hp'' => .some (h'.put hk hp'')
  · exact .some h

theorem chHandleEvent (h : Sound w crc specs d) (id : UInt8) (kind info : Nat)
    (readable writable : Bool) (io : Io) :
    Yields (Sound w crc specs) (chHandleEvent crc d id kind info readable writable io) := by
  unfold Reference.chHandleEvent
  split
  · exact h.serialEvent id readable writable io
  · exact h.serialEvent id readable writable io
  · next hget => exact h.srcOnAccept (h.kind hget) io
  · next hget =>
    split_ifs
    · exact h.srcOnConnEvent (h.kind hget) _ readable writable io
    · exact .some h
  · next hget =>
    split_ifs
    · exact h.dstOnConnEvent (h.kind hget) _ readable writable io
    · exact .some h
  · exact .some h

end Daemon.Sound

end Serialmux.Reference

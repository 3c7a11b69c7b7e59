import Serialmux.Reference.Hands

namespace Serialmux.Reference

open Framework Protocol Channel

section Frames

variable (id : UInt8) (cid : Slot)

/-- A word about a connection. -/
def cidFrame (ftype : UInt8) : Frame := ⟨ftype,id,(cidBytes cid).getD []⟩

/-- What closing a connection tells the peer. -/
def TcpConn.closeFrames (c : TcpConn) (notify : Bool) : List Frame :=
  if c.fd=none then [] else if notify then [cidFrame id cid fTclose] else []

/-- The chunks of a read. -/
def tdataFrames : Nat → List UInt8 → List Frame
  | fuel,rest =>
    if rest.length=0 then []
    else
      match fuel with
      | 0 => []
      | fuel+1 =>
        let chunk := min rest.length (maxPayload-2)
        ⟨fTdata,id,(cidBytes cid).getD []++rest.take chunk⟩::tdataFrames fuel (rest.drop chunk)

def ptyReadFrames (p : PtyCh) (io : Io) : List Frame :=
  match readFd p.masterFd io.read with
  | .data (b::bs) _ => [⟨fData,id,b::bs⟩]
  | _ => []

def srcAcceptFrames (s : TcpSrc) (io : Io) : List Frame :=
  if io.accept=none ∨ s.linkUp=false ∨ io.malloc=false then []
  else
    match srcAllocCid s with
    | some (some (_,cid)) => [cidFrame id cid fTconn]
    | _ => []

def srcWriteFrames (s : TcpSrc) (io : Io) : List Frame :=
  if (s.conns cid).txbufLen≠0 ∧ io.write=.error then (s.conns cid).closeFrames id cid s.linkUp else []

def srcEventFrames (s : TcpSrc) (readable writable : Bool) (io : Io) : List Frame :=
  if (s.conns cid).fd=none then []
  else
    let goOn := if writable then srcWriteFrames id cid s io else []
    if readable=true ∧ (s.conns cid).closePending=false then
      match io.recv with
      | .wouldBlock => []
      | .error _ => (s.conns cid).closeFrames id cid s.linkUp
      | .data [] _ => (s.conns cid).closeFrames id cid s.linkUp
      | .data (b::bs) _ => tdataFrames id cid (b::bs).length (b::bs)++goOn
    else goOn

def dstOpenFrames (io : Io) : List Frame :=
  if io.socket=none ∨ io.connect=.refused ∨ io.malloc=false then [cidFrame id cid fTclose] else []

def dstWriteFrames (c : TcpConn) (io : Io) : List Frame :=
  if c.connecting=false ∧ c.txbufLen≠0 ∧ io.write=.error then c.closeFrames id cid (!c.closePending)
  else []

/-- Whether a connection outlives the writing half of its event. -/
def TcpConn.outlives (c : TcpConn) (io : Io) : Bool :=
  c.connecting || c.txbufLen=0 ||
    match io.write with
    | .again => true
    | .error => false
    | .wrote n => !(c.txbufLen≤n && c.closePending)

def dstReadFrames (io : Io) : List Frame :=
  match io.recv with
  | .wouldBlock => []
  | .error _ => [cidFrame id cid fTclose]
  | .data [] _ => [cidFrame id cid fTclose]
  | .data (b::bs) _ => tdataFrames id cid (b::bs).length (b::bs)

/-- A connect that came through. -/
def TcpConn.connected (c : TcpConn) (writable : Bool) : TcpConn :=
  if c.connecting=true ∧ writable=true then {c with connecting := false} else c

def dstEventFrames (c : TcpConn) (readable writable : Bool) (io : Io) : List Frame :=
  if c.fd=none then []
  else if c.connecting=true ∧ writable=true ∧ io.soError=true then [cidFrame id cid fTclose]
  else if writable then
    dstWriteFrames id cid (c.connected writable) io++
      (if (c.connected writable).outlives io=true ∧ readable=true then dstReadFrames id cid io else [])
  else if readable then dstReadFrames id cid io
  else []

def tcpTdataFrames (c : TcpConn) (notify : Bool) (data : List UInt8) : List Frame :=
  if c.fd=none ∨ data.length=0 then []
  else if connTxbufSize-c.txbufLen<data.length ∨ connHighWater<c.txbufLen then
    c.closeFrames id cid notify
  else []

/-- The frames that a frame for a channel makes it send. -/
def chFrameFrames (ch : ChannelT) (ftype : UInt8) (payload : List UInt8) (io : Io) : List Frame :=
  match ch,tcpPayload payload with
  | .src s,some (cid,data) =>
    if ftype=fTdata then tcpTdataFrames id cid (s.conns cid) s.linkUp data else []
  | .dst t,some (cid,data) =>
    if ftype=fTconn then if (t.conns cid).fd=none then dstOpenFrames id cid io else []
    else if ftype=fTdata then tcpTdataFrames id cid (t.conns cid) true data
    else []
  | _,_ => []

/-- The frames that an event makes a channel send. -/
def chEventFrames (ch : ChannelT) (kind info : Nat) (readable writable : Bool) (io : Io) :
    List Frame :=
  match kind,ch with
  | 2,.mcu m => m.eventFrames id readable io
  | 3,.pty p => if readable then ptyReadFrames id p io else []
  | 4,.src s => srcAcceptFrames id s io
  | 5,.src s =>
    if h : info&&&0xFFFF < maxTcpConns then srcEventFrames id ⟨_,h⟩ s readable writable io else []
  | 5,.dst t =>
    if h : info&&&0xFFFF < maxTcpConns then
      dstEventFrames id ⟨_,h⟩ (t.conns ⟨_,h⟩) readable writable io
    else []
  | _,_ => []

end Frames

section Handlers

variable {crc : List UInt8 → UInt32} {d : Daemon} {id : UInt8} {ch : ChannelT} {cid : Slot}
  {c : TcpConn}

theorem Daemon.conn_of_get (hget : d.channels id=some ch) : d.conn id cid=ch.conn cid := by
  rw [Daemon.conn,hget]
  rfl

theorem Daemon.setConn_of_get (hget : d.channels id=some ch) :
    d.setConn id cid c=d.put id (ch.setConn cid c) := by rw [Daemon.setConn,hget]

theorem Daemon.src_of_get {s : TcpSrc} (hget : d.channels id=some (.src s)) : d.src id=some s := by
  rw [Daemon.src,hget]

theorem sendCid_hands (hget : d.channels id=some ch) (clock : Millis) (ftype : UInt8) :
    Allows (Hands crc id [cidFrame id cid ftype] (·.settled=ch.settled) d) (do
      daemonSend crc d clock ftype id (← cidBytes cid)) := by
  unfold cidFrame
  cases cidBytes cid with
  | none => exact .fault
  | some bs => exact daemonSend_hands hget clock ftype id bs

theorem closeCid_hands (hget : d.channels id=some ch) (hc : ch.conn cid=some c) (clock : Millis)
    (notify : Bool) :
    Allows (Hands crc id (c.closeFrames id cid notify) (fun _ => True) d)
      (closeCid crc d id clock cid notify) := by
  refine .next ((Daemon.conn_of_get hget).trans hc) ?_
  unfold TcpConn.closeFrames
  by_cases hfd : c.fd=none
  · rw [if_pos hfd,if_pos hfd]
    exact .some (.rest hget trivial)
  rw [if_neg hfd,if_neg hfd,Daemon.setConn_of_get hget]
  refine Hands.from_put (ch.setConn cid (tcpConnCloseFd c)) ?_
  split_ifs
  · exact Hands.forget (sendCid_hands (d.put_self id _) clock fTclose)
  · exact .some (.rest (d.put_self id _) trivial)

/-- An open connection is closed with a word to the peer. -/
theorem closeCid_tells (hget : d.channels id=some ch) (hc : ch.conn cid=some c) (hfd : c.fd≠none)
    (clock : Millis) : Allows (Hands crc id [cidFrame id cid fTclose] (fun _ => True) d)
      (closeCid crc d id clock cid true) := by
  have htells : c.closeFrames id cid true=[cidFrame id cid fTclose] := by
    rw [TcpConn.closeFrames,if_neg hfd,if_pos rfl]
  exact htells ▸ closeCid_hands hget hc clock true

theorem closeCid_silent (hget : d.channels id=some ch) (hc : ch.conn cid=some c) (clock : Millis) :
    Allows (Hands crc id [] (fun _ => True) d) (closeCid crc d id clock cid false) := by
  have hsilent : c.closeFrames id cid false=[] := by
    rw [TcpConn.closeFrames,if_neg (by decide : ¬false=true),ite_self]
  exact hsilent ▸ closeCid_hands hget hc clock false

theorem srcCloseCid_hands {s : TcpSrc} (hget : d.channels id=some (.src s)) (clock : Millis) :
    Allows (Hands crc id ((s.conns cid).closeFrames id cid s.linkUp) (fun _ => True) d)
      (srcCloseCid crc d id clock cid true) :=
  .next (Daemon.src_of_get hget) (closeCid_hands hget rfl clock _)

theorem srcCloseCid_silent {s : TcpSrc} (hget : d.channels id=some (.src s)) (clock : Millis) :
    Allows (Hands crc id [] (fun _ => True) d) (srcCloseCid crc d id clock cid false) :=
  .next (Daemon.src_of_get hget) (closeCid_silent hget rfl clock)

theorem updateConn_hands (hget : d.channels id=some ch) {P : ChannelT → Prop}
    (hP : ∀c b,ch.conn cid=some c → P (ch.setConn cid (tcpConnUpdate c b))) :
    Allows (Hands crc id [] P d) (d.updateConn id cid) := by
  refine .next hget ?_
  cases hc : ch.conn cid with
  | none => exact .fault
  | some c =>
    refine .some ?_
    rw [Daemon.setConn_of_get hget]
    exact .put (hP c _ hc)

theorem sendTdata_hands (hget : d.channels id=some ch) {ch₀ : ChannelT}
    (hch : ch.settled=ch₀.settled) (clock : Millis) (fuel : Nat) (rest : List UInt8) :
    Allows (Hands crc id (tdataFrames id cid fuel rest) (·.settled=ch₀.settled) d)
      (sendTdata crc id clock cid fuel d rest) := by
  induction fuel generalizing d ch rest with
  | zero =>
    rw [sendTdata,tdataFrames]
    split_ifs
    · exact .some (.rest hget hch)
    · exact .fault
  | succ fuel ih =>
    rw [sendTdata,tdataFrames]
    split_ifs
    · exact .some (.rest hget hch)
    · cases cidBytes cid with
      | none => exact .fault
      | some bs =>
        refine (copyTo_allows _ _ _ _).bind (fun frame hframe => ?_)
        subst hframe
        rw [← List.singleton_append]
        refine Hands.bind (daemonSend16_hands hget clock fTdata id _) ?_
        intro d₁ ch₁ hget₁ hch₁
        exact ih hget₁ (hch₁.trans hch) _

theorem ptyMasterRead_hands {p : PtyCh} (hget : d.channels id=some (.pty p)) (io : Io) :
    Allows (Hands crc id (ptyReadFrames id p io) (fun _ => True) d) (ptyMasterRead crc d id io) := by
  have hp : d.pty id=some p := by rw [Daemon.pty,hget]
  refine .next hp ?_
  unfold ptyReadFrames
  cases readFd p.masterFd io.read with
  | wouldBlock => exact .some (.rest hget trivial)
  | error e =>
    cases e with
    | eio => exact .some (.put trivial)
    | other => exact .some (.rest hget trivial)
  | data bs hbs =>
    cases bs with
    | nil => exact .some (.rest hget trivial)
    | cons b bs =>
      exact Hands.forget (daemonSend16_hands hget io.clock fData id (b::bs))

theorem ptyEvent_hands {p : PtyCh} (hget : d.channels id=some (.pty p)) (readable writable : Bool)
    (io : Io) : Allows (Hands crc id (if readable then ptyReadFrames id p io else []) (fun _ => True) d)
      (serialEvent crc d id readable writable io) := by
  unfold serialEvent
  rw [hget]
  dsimp only
  have hread : Allows (Hands crc id (if readable then ptyReadFrames id p io else []) (fun _ => True) d)
      (if readable then ptyMasterRead crc d id io else some d) := by
    split_ifs
    · exact ptyMasterRead_hands hget io
    · exact .some (.rest hget trivial)
  refine Hands.close hread ?_
  intro d₁ ch hget₁ _
  split_ifs
  · intro d' hd'
    obtain ⟨p₁,-,hd'⟩ := Option.bind_eq_some_iff.mp hd'
    obtain ⟨p',-,hd'⟩ := Option.bind_eq_some_iff.mp hd'
    obtain rfl := Option.some.inj hd'
    exact .put trivial
  · exact .some (.rest hget₁ trivial)

theorem srcOnAccept_hands {s : TcpSrc} (hget : d.channels id=some (.src s)) (io : Io) :
    Allows (Hands crc id (srcAcceptFrames id s io) (fun _ => True) d) (srcOnAccept crc d id io) := by
  refine .next (Daemon.src_of_get hget) ?_
  unfold srcAcceptFrames
  cases io.accept with
  | none => exact .some (.rest hget trivial)
  | some fd =>
    by_cases hup : s.linkUp=false
    · simp only [hup,if_true,true_or,or_true]
      exact .some (.rest hget trivial)
    simp only [hup,if_false,false_or,reduceCtorEq]
    cases srcAllocCid s with
    | none => exact .fault
    | some r =>
      cases r with
      | none =>
        simp only [ite_self]
        exact .some (.rest hget trivial)
      | some r =>
        obtain ⟨s',cid⟩ := r
        simp only [Option.bind_eq_bind,Option.bind_some]
        split_ifs
        · exact .some (.put trivial)
        · unfold cidFrame
          cases cidBytes cid with
          | none => exact .fault
          | some bs =>
            refine Hands.from_put _ (Hands.close (daemonSend_hands (d.put_self id _) io.clock fTconn id
              bs) ?_)
            exact fun d₁ ch hget₁ _ => updateConn_hands hget₁ (fun _ _ _ => trivial)

theorem srcConnWrite_hands {s : TcpSrc} (hget : d.channels id=some (.src s)) (io : Io) :
    Allows (Hands crc id (srcWriteFrames id cid s io) (fun _ => True) d)
      (srcConnWrite crc d id cid io) := by
  refine .next (Daemon.conn_of_get hget) ?_
  unfold srcWriteFrames
  by_cases hlen : (s.conns cid).txbufLen=0
  · rw [if_pos hlen,if_neg (fun h => h.1 hlen)]
    exact updateConn_hands hget (fun _ _ _ => trivial)
  rw [if_neg hlen]
  cases io.write with
  | again =>
    rw [if_neg (fun h => nomatch h.2)]
    exact .some (.rest hget trivial)
  | error =>
    rw [if_pos ⟨hlen,rfl⟩]
    exact srcCloseCid_hands hget io.clock
  | wrote n =>
    rw [if_neg (fun h => nomatch h.2)]
    intro d' hd'
    obtain ⟨c,-,hd'⟩ := Option.bind_eq_some_iff.mp hd'
    rw [Daemon.setConn_of_get hget] at hd'
    refine Hands.from_put (ChannelT.setConn cid c (.src s)) ?_ d' hd'
    dsimp only
    split_ifs
    · exact srcCloseCid_silent (d.put_self id _) io.clock
    · exact updateConn_hands (d.put_self id _) (fun _ _ _ => trivial)

/-- A connection that a pause has left alone sends what it would have sent. -/
theorem srcWriteFrames_of_settled {s s' : TcpSrc} (h : (ChannelT.src s').settled=(ChannelT.src s).settled)
    (io : Io) : srcWriteFrames id cid s' io=srcWriteFrames id cid s io := by
  have hs := ChannelT.src.inj h
  have hconn : (s'.conns cid).settled=(s.conns cid).settled := congrFun (congrArg TcpSrc.conns hs) cid
  have hup : s'.linkUp=s.linkUp := (congrArg TcpSrc.linkUp hs :)
  have hsame (s : TcpSrc) : srcWriteFrames id cid s io=
      if (s.conns cid).settled.txbufLen≠0 ∧ io.write=.error then
        (s.conns cid).settled.closeFrames id cid s.linkUp else [] := rfl
  rw [hsame,hsame,hconn,hup]

theorem srcOnConnEvent_hands {s : TcpSrc} (hget : d.channels id=some (.src s))
    (readable writable : Bool) (io : Io) :
    Allows (Hands crc id (srcEventFrames id cid s readable writable io) (fun _ => True) d)
      (srcOnConnEvent crc d id cid readable writable io) := by
  refine .next (Daemon.conn_of_get hget) ?_
  unfold srcEventFrames
  by_cases hfd : (s.conns cid).fd=none
  · rw [if_pos hfd,if_pos hfd]
    exact .some (.rest hget trivial)
  rw [if_neg hfd,if_neg hfd]
  have hgoOn {d₁ : Daemon} {s₁ : TcpSrc} (hget₁ : d₁.channels id=some (.src s₁))
      (hs : (ChannelT.src s₁).settled=(ChannelT.src s).settled) :
      Allows (Hands crc id (if writable then srcWriteFrames id cid s io else []) (fun _ => True) d₁)
        (if writable then srcConnWrite crc d₁ id cid io else some d₁) := by
    split_ifs
    · rw [← srcWriteFrames_of_settled hs]
      exact srcConnWrite_hands hget₁ io
    · exact .some (.rest hget₁ trivial)
  by_cases hread : readable=true ∧ (s.conns cid).closePending=false
  · rw [if_pos hread,if_pos hread]
    cases io.recv with
    | wouldBlock => exact .some (.rest hget trivial)
    | error e => exact srcCloseCid_hands hget io.clock
    | data bs hbs =>
      cases bs with
      | nil => exact srcCloseCid_hands hget io.clock
      | cons b bs =>
        refine Hands.bind (sendTdata_hands hget rfl io.clock _ _) ?_
        intro d₁ ch hget₁ hch
        cases ch with
        | mcu m => exact nomatch hch
        | pty p => exact nomatch hch
        | src s₁ => exact hgoOn hget₁ hch
        | dst t => exact nomatch hch
  · rw [if_neg hread,if_neg hread]
    exact hgoOn hget rfl

theorem dstOpenConn_hands {t : TcpDst} (hget : d.channels id=some (.dst t)) (io : Io) :
    Allows (Hands crc id (dstOpenFrames id cid io) (fun _ => True) d) (dstOpenConn crc d id cid io) := by
  refine .next (Daemon.conn_of_get hget) ?_
  have hrefuse : Allows (Hands crc id [cidFrame id cid fTclose] (fun _ => True) d) (do
      daemonSend crc d io.clock fTclose id (← cidBytes cid)) :=
    Hands.forget (sendCid_hands hget io.clock fTclose)
  have hopened (fd : RawFd) (b : Bool) :
      Allows (Hands crc id (if io.malloc=false then [cidFrame id cid fTclose] else []) (fun _ => True) d)
        (if io.malloc=false then
          dstCloseCid crc (d.setConn id cid {t.conns cid with
            fd := some fd, watch := .fresh, connecting := b, txbuf := none}) id io.clock cid true
        else (d.setConn id cid {t.conns cid with
          fd := some fd, watch := .fresh, connecting := b, txbuf := some []}).updateConn id cid) := by
    rw [Daemon.setConn_of_get hget,Daemon.setConn_of_get hget]
    split_ifs
    · exact Hands.from_put _ (closeCid_hands (d.put_self id _) (ChannelT.conn_setConn rfl _) io.clock
        true)
    · exact Hands.from_put _ (updateConn_hands (d.put_self id _) (fun _ _ _ => trivial))
  unfold dstOpenFrames
  cases io.socket with
  | none =>
    rw [if_pos (.inl rfl)]
    exact hrefuse
  | some fd =>
    cases io.connect with
    | refused =>
      rw [if_pos (.inr (.inl rfl))]
      exact hrefuse
    | done =>
      simp only [reduceCtorEq,false_or]
      exact hopened fd false
    | pending =>
      simp only [reduceCtorEq,false_or]
      exact hopened fd true

theorem sentTxbuf_allows (c : TcpConn) (n : Nat) :
    Allows (fun c' => c'.fd=c.fd ∧ c'.closePending=c.closePending ∧ (c'.txbufLen=0 ↔ c.txbufLen≤n))
      (sentTxbuf c n) := by
  unfold sentTxbuf TcpConn.txbufLen
  cases c.txbuf with
  | none => exact .fault
  | some b =>
    refine .next rfl (.next (slide_eq (Nat.min_le_right _ _)) (.some ⟨rfl,rfl,?_⟩))
    simp only [Option.getD_some,List.length_drop]
    omega

/-- The end of the writing half of an event of a connection that outlives it. -/
theorem updateConn_alive (crc : List UInt8 → UInt32) (hget : d.channels id=some ch)
    (hc : ch.conn cid=some c) (hopen : c.fd≠none) :
    Allows (fun r => r.2=true ∧ Hands crc id []
        (fun ch => r.2=true → ∃c,ch.conn cid=some c ∧ c.fd≠none) d r.1)
      (do return (← d.updateConn id cid,true)) := by
  have hup : Allows (Hands crc id [] (fun ch => ∃c,ch.conn cid=some c ∧ c.fd≠none) d)
      (d.updateConn id cid) := by
    refine updateConn_hands hget (fun c' b hc' => ?_)
    obtain rfl := Option.some.inj (hc.symm.trans hc')
    have hsame : (tcpConnUpdate c b).settled.fd=c.settled.fd := by rw [tcpConnUpdate_settled]
    exact ⟨_,ChannelT.conn_setConn hc _,fun h => hopen (hsame.symm.trans h)⟩
  exact hup.bind (fun d₁ h₁ => .some ⟨rfl,h₁.mono (fun _ hc _ => hc)⟩)

/-- What a connection is left as by the writing half of its event, if it outlives it. -/
theorem dstConnWrite_hands {t : TcpDst} (hget : d.channels id=some (.dst t))
    (hfd : (t.conns cid).fd≠none) (io : Io) :
    Allows (fun r => r.2=(t.conns cid).outlives io ∧
        Hands crc id (dstWriteFrames id cid (t.conns cid) io)
          (fun ch => r.2=true → ∃c,ch.conn cid=some c ∧ c.fd≠none) d r.1)
      (dstConnWrite crc d id cid io) := by
  refine .next (Daemon.conn_of_get hget) ?_
  unfold dstWriteFrames TcpConn.outlives
  by_cases hcon : (t.conns cid).connecting=true
  · simp only [hcon,if_true,Bool.true_or,Bool.true_eq_false,false_and,if_false]
    exact .some ⟨rfl,.rest hget (fun _ => ⟨_,rfl,hfd⟩)⟩
  rw [if_neg hcon]
  have hcon' : (t.conns cid).connecting=false := by simpa using hcon
  by_cases hlen : (t.conns cid).txbufLen=0
  · simp only [hlen,if_true,decide_true,Bool.or_true,Bool.true_or,ne_eq,not_true,false_and,and_false,
      if_false]
    exact updateConn_alive crc hget rfl hfd
  simp only [hcon',hlen,if_false,decide_false,Bool.or_false,Bool.false_or,ne_eq,not_false_eq_true,
    true_and]
  cases io.write with
  | again =>
    simp only [reduceCtorEq,if_false]
    exact updateConn_alive crc hget rfl hfd
  | error =>
    simp only [if_true]
    refine (closeCid_hands hget rfl io.clock _).bind (fun d₁ h₁ => .some ⟨rfl,?_⟩)
    exact h₁.mono (fun _ _ h => absurd h (by simp))
  | wrote n =>
    simp only [reduceCtorEq,if_false]
    refine (sentTxbuf_allows _ n).bind (fun c hc => ?_)
    obtain ⟨hsame,hpend,hsent⟩ := hc
    rw [Daemon.setConn_of_get hget]
    have hput : Hands crc id [] (fun _ => True) d (d.put id (ChannelT.setConn cid c (.dst t))) :=
      .put trivial
    have hconn : (ChannelT.setConn cid c (.dst t)).conn cid=some c := ChannelT.conn_setConn rfl c
    simp only [← hsent,← hpend]
    by_cases hdone : c.txbufLen=0 ∧ c.closePending=true
    · rw [if_pos hdone,decide_eq_true hdone.1,hdone.2]
      refine (closeCid_silent (d.put_self id _) hconn io.clock).bind (fun d₁ h₁ => .some ⟨rfl,?_⟩)
      exact hput.trans (h₁.mono (fun _ _ h => absurd h (by simp)))
    · have halive : (!(decide (c.txbufLen=0) && c.closePending))=true := by
        rw [Bool.not_eq_true',← Bool.not_eq_true,Bool.and_eq_true,decide_eq_true_eq]
        exact hdone
      rw [if_neg hdone,halive]
      have hend := updateConn_alive crc (d.put_self id _) hconn (hsame ▸ hfd)
      exact hend.mono (fun r hr => ⟨hr.1,hput.trans hr.2⟩)

theorem dstConnRead_hands (hget : d.channels id=some ch) (hc : ch.conn cid=some c) (hfd : c.fd≠none)
    (io : Io) : Allows (Hands crc id (dstReadFrames id cid io) (fun _ => True) d)
      (dstConnRead crc d id cid io) := by
  unfold dstConnRead dstReadFrames
  cases io.recv with
  | wouldBlock => exact .some (.rest hget trivial)
  | error e => exact closeCid_tells hget hc hfd io.clock
  | data bs hbs =>
    cases bs with
    | nil => exact closeCid_tells hget hc hfd io.clock
    | cons b bs =>
      exact Hands.forget (sendTdata_hands hget rfl io.clock _ _)

theorem dstOnConnEvent_hands {t : TcpDst} (hget : d.channels id=some (.dst t))
    (readable writable : Bool) (io : Io) :
    Allows (Hands crc id (dstEventFrames id cid (t.conns cid) readable writable io) (fun _ => True) d)
      (dstOnConnEvent crc d id cid readable writable io) := by
  refine .next (Daemon.conn_of_get hget) ?_
  unfold dstEventFrames
  by_cases hfd : (t.conns cid).fd=none
  · rw [if_pos hfd,if_pos hfd]
    exact .some (.rest hget trivial)
  rw [if_neg hfd,if_neg hfd]
  by_cases herr : (t.conns cid).connecting=true ∧ writable=true ∧ io.soError=true
  · rw [if_pos herr,if_pos herr]
    exact closeCid_tells hget rfl hfd io.clock
  rw [if_neg herr,if_neg herr]
  obtain ⟨d₁,t₁,hd₁,hget₁,hconn,hput⟩ : ∃d₁ t₁,
      (if (t.conns cid).connecting=true ∧ writable=true then
        d.setConn id cid {t.conns cid with connecting := false} else d)=d₁ ∧
      d₁.channels id=some (.dst t₁) ∧ t₁.conns cid=(t.conns cid).connected writable ∧
      Hands crc id [] (fun _ => True) d d₁ := by
    unfold TcpConn.connected
    split_ifs
    · rw [Daemon.setConn_of_get hget]
      exact ⟨_,_,rfl,d.put_self id _,Function.update_self .., .put trivial⟩
    · exact ⟨d,t,rfl,hget,rfl,.rest hget trivial⟩
  have hfd₁ : (t₁.conns cid).fd≠none := by
    rw [hconn,TcpConn.connected]
    split_ifs <;> exact hfd
  rw [hd₁,← hconn]
  refine hput.after ?_
  cases writable with
  | false =>
    simp only [Bool.false_eq_true,if_false,Option.bind_eq_bind,Option.bind_some,true_and]
    split_ifs
    · exact dstConnRead_hands hget₁ rfl hfd₁ io
    · exact .some (.rest hget₁ trivial)
  | true =>
    simp only [if_true]
    refine (dstConnWrite_hands hget₁ hfd₁ io).bind (fun (d₂,alive) ⟨halive,h₂⟩ => ?_)
    dsimp only at halive h₂ ⊢
    rw [← halive]
    obtain ⟨ch,hget₂,hch⟩ := h₂.own
    refine h₂.andThen ?_
    split_ifs with hgo
    · obtain ⟨c,hc,hopen⟩ := hch hgo.1
      exact dstConnRead_hands hget₂ hc hopen io
    · exact .some (.rest hget₂ trivial)

/-- Data for a slot that has no space for it closes the connection. -/
theorem tcpOnTdata_hands (hget : d.channels id=some ch) (hc : ch.conn cid=some c) {notify : Bool}
    {close : Daemon → Bool → Option Daemon}
    (hclose : Allows (Hands crc id (c.closeFrames id cid notify) (fun _ => True) d) (close d true))
    (data : List UInt8) :
    Allows (Hands crc id (tcpTdataFrames id cid c notify data) (fun _ => True) d)
      (tcpOnTdata close d id cid data) := by
  refine .next ((Daemon.conn_of_get hget).trans hc) ?_
  unfold tcpTdataFrames
  by_cases hskip : c.fd=none ∨ data.length=0
  · rw [if_pos hskip,if_pos hskip]
    exact .some (.rest hget trivial)
  rw [if_neg hskip,if_neg hskip]
  refine (sub?_allows _ _).bind (fun avail havail => ?_)
  subst havail
  split_ifs
  · exact hclose
  · intro d' hd'
    obtain ⟨b,-,hd'⟩ := Option.bind_eq_some_iff.mp hd'
    obtain ⟨b',-,hd'⟩ := Option.bind_eq_some_iff.mp hd'
    rw [Daemon.setConn_of_get hget] at hd'
    exact Hands.from_put _ (updateConn_hands (d.put_self id _) (fun _ _ _ => trivial)) d' hd'

theorem tcpOnTclose_hands (hget : d.channels id=some ch) (hc : ch.conn cid=some c)
    {close : Daemon → Bool → Option Daemon}
    (hclose : Allows (Hands crc id [] (fun _ => True) d) (close d false)) :
    Allows (Hands crc id [] (fun _ => True) d) (tcpOnTclose close d id cid) := by
  refine .next ((Daemon.conn_of_get hget).trans hc) ?_
  split_ifs
  · exact .some (.rest hget trivial)
  · exact hclose
  · rw [Daemon.setConn_of_get hget]
    exact Hands.from_put _ (updateConn_hands (d.put_self id _) (fun _ _ _ => trivial))

theorem srcOnFrame_hands {s : TcpSrc} (hget : d.channels id=some (.src s)) (ftype : UInt8)
    (payload : List UInt8) (io : Io) :
    Allows (Hands crc id (chFrameFrames id (.src s) ftype payload io) (fun _ => True) d)
      (srcOnFrame crc d id ftype payload io) := by
  unfold srcOnFrame chFrameFrames
  cases tcpPayload payload with
  | none => exact .some (.rest hget trivial)
  | some r =>
    obtain ⟨cid,data⟩ := r
    dsimp only
    split_ifs
    · exact tcpOnTdata_hands hget rfl (srcCloseCid_hands hget io.clock) data
    · exact tcpOnTclose_hands hget rfl (srcCloseCid_silent hget io.clock)
    · exact .some (.rest hget trivial)

theorem dstOnFrame_hands {t : TcpDst} (hget : d.channels id=some (.dst t)) (ftype : UInt8)
    (payload : List UInt8) (io : Io) :
    Allows (Hands crc id (chFrameFrames id (.dst t) ftype payload io) (fun _ => True) d)
      (dstOnFrame crc d id ftype payload io) := by
  unfold dstOnFrame chFrameFrames
  cases tcpPayload payload with
  | none => exact .some (.rest hget trivial)
  | some r =>
    obtain ⟨cid,data⟩ := r
    dsimp only
    by_cases hconn : ftype=fTconn
    · rw [if_pos hconn,if_pos hconn]
      refine .next (Daemon.conn_of_get hget) ?_
      split_ifs
      · exact dstOpenConn_hands hget io
      · exact .some (.rest hget trivial)
    rw [if_neg hconn,if_neg hconn]
    split_ifs
    · exact tcpOnTdata_hands hget rfl (closeCid_hands hget rfl io.clock true) data
    · exact tcpOnTclose_hands hget rfl (closeCid_silent hget rfl io.clock)
    · exact .some (.rest hget trivial)

theorem chOnFrame_hands (hget : d.channels id=some ch) (ftype : UInt8) (payload : List UInt8) (io : Io) :
    Allows (Hands crc id (chFrameFrames id ch ftype payload io) (fun _ => True) d)
      (chOnFrame crc d id ftype payload io) := by
  unfold chOnFrame
  rw [hget]
  cases ch with
  | mcu m =>
    intro d' hd'
    obtain ⟨m',-,hd'⟩ := Option.bind_eq_some_iff.mp hd'
    obtain rfl := Option.some.inj hd'
    exact .put trivial
  | pty p =>
    intro d' hd'
    obtain ⟨p',-,hd'⟩ := Option.bind_eq_some_iff.mp hd'
    obtain rfl := Option.some.inj hd'
    exact .put trivial
  | src s => exact srcOnFrame_hands hget ftype payload io
  | dst t => exact dstOnFrame_hands hget ftype payload io

theorem chHandleEvent_none (hget : d.channels id=none) (kind info : Nat) (readable writable : Bool)
    (io : Io) : chHandleEvent crc d id kind info readable writable io=some d := by
  unfold chHandleEvent
  rw [hget]
  split <;> first | rfl | contradiction

theorem chHandleEvent_mcu {m : McuCh} (hget : d.channels id=some (.mcu m)) (kind info : Nat)
    (readable writable : Bool) (io : Io) :
    chHandleEvent crc d id kind info readable writable io=
      if kind=2 then serialEvent crc d id readable writable io else some d := by
  unfold chHandleEvent
  rw [hget]
  by_cases hk : kind=2
  · subst hk
    rfl
  · rw [if_neg hk]
    match kind,hk with
    | 0,_ => rfl
    | 1,_ => rfl
    | 2,hk => exact absurd rfl hk
    | 3,_ => rfl
    | 4,_ => rfl
    | 5,_ => rfl
    | n+6,_ => rfl

theorem chHandleEvent_hands (hget : d.channels id=some ch) (kind info : Nat)
    (readable writable : Bool) (io : Io) :
    Allows (Hands crc id (chEventFrames id ch kind info readable writable io) (fun _ => True) d)
      (chHandleEvent crc d id kind info readable writable io) := by
  have hrest : Hands crc id [] (fun _ => True) d d := .rest hget trivial
  unfold chHandleEvent
  rw [hget]
  match kind with
  | 0 => cases ch <;> exact .some hrest
  | 1 => cases ch <;> exact .some hrest
  | 2 =>
    cases ch with
    | mcu m => exact Hands.forget (mcuEvent_hands hget readable writable io)
    | pty p => exact .some hrest
    | src s => exact .some hrest
    | dst t => exact .some hrest
  | 3 =>
    cases ch with
    | mcu m => exact .some hrest
    | pty p => exact ptyEvent_hands hget readable writable io
    | src s => exact .some hrest
    | dst t => exact .some hrest
  | 4 =>
    cases ch with
    | mcu m => exact .some hrest
    | pty p => exact .some hrest
    | src s => exact srcOnAccept_hands hget io
    | dst t => exact .some hrest
  | 5 =>
    cases ch with
    | mcu m => exact .some hrest
    | pty p => exact .some hrest
    | src s =>
      simp only [chEventFrames]
      split_ifs
      · exact srcOnConnEvent_hands hget readable writable io
      · exact .some hrest
    | dst t =>
      simp only [chEventFrames]
      split_ifs
      · exact dstOnConnEvent_hands hget readable writable io
      · exact .some hrest
  | n+6 => cases ch <;> exact .some hrest

end Handlers

end Serialmux.Reference

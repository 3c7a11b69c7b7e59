import Serialmux.Channel.Interest
import Serialmux.Reference.Daemon

namespace Serialmux.Reference

open Framework Protocol Channel

-- What is claimed of the interest in output besides the bounds: it is asked for only where `w` holds.
variable {w : Prop}

/-- A payload that is the first to wait, for a `write()` that would block: no one has asked epoll for
output yet, and no one will. -/
def StallsOn (txbuf payload : List UInt8) (io : Io) : Prop :=
  txbuf=[] ∧ payload≠[] ∧ io.write=.again

/-- A copy takes what there is space for; unless it stalls, a buffer that is not written to is as
empty after it as before. -/
theorem fillTxbuf_yields {txbuf payload : List UInt8} (io : Io) (h : txbuf.length ≤ serialTxbufSize) :
    Yields (fun txbuf' => txbuf'.length ≤ serialTxbufSize ∧
        (¬StallsOn txbuf payload io → txbuf'=[] ∨ io.write=.again → txbuf'.isEmpty=txbuf.isEmpty))
      (fillTxbuf txbuf payload) := by
  refine .next (sub?_eq h) (.of_eq (copyTo_eq (Nat.min_le_left _ _) (by omega)) ⟨?_,?_⟩)
  · rw [List.length_append,List.length_take]
    omega
  · intro hstall hblock
    cases txbuf with
    | cons b bs => rfl
    | nil =>
      rcases hblock with hnil|hagain
      · rw [hnil]
      · have hempty : payload=[] := by
          by_contra hne
          exact hstall ⟨rfl,hne,hagain⟩
        rw [hempty]
        rfl

/-- What waits for the fd of an MCU or a PTY fits its buffer, and epoll is asked for output exactly
while something waits. -/
structure SerialSound (w : Prop) (fd : Option RawFd) (watch : Watch) (txbuf : List UInt8) : Prop where
  fits : txbuf.length ≤ serialTxbufSize
  wired : w → fd≠none → watch.Synced ∧ watch.writes= !txbuf.isEmpty

namespace SerialSound

variable {fd : Option RawFd} {watch : Watch} {txbuf : List UInt8}

theorem closed (hf : txbuf.length ≤ serialTxbufSize) (hfd : fd=none) : SerialSound w fd watch txbuf :=
  ⟨hf,fun _ h => absurd hfd h⟩

theorem synced (h : SerialSound w fd watch txbuf) : w → fd≠none → watch.Synced :=
  fun hw hfd => (h.wired hw hfd).1

/-- The interest is recomputed. -/
theorem interest (hf : txbuf.length ≤ serialTxbufSize) (hs : w → fd≠none → watch.Synced)
    (reads : Bool) :
    SerialSound w fd (epollUpdate watch (Interest.ofFlags reads (!txbuf.isEmpty))) txbuf := by
  refine ⟨hf,fun hw hfd => ?_⟩
  have hsync := hs hw hfd
  exact ⟨Watch.update_synced hsync _,Watch.update_writes hsync _ _⟩

/-- Where the interest is not recomputed, the buffer must be as empty as it was. -/
theorem kept (h : SerialSound w fd watch txbuf) {txbuf' : List UInt8}
    (hf : txbuf'.length ≤ serialTxbufSize) (hkeep : w → txbuf'.isEmpty=txbuf.isEmpty) :
    SerialSound w fd watch txbuf' := by
  refine ⟨hf,fun hw hfd => ⟨h.synced hw hfd,?_⟩⟩
  rw [hkeep hw]
  exact (h.wired hw hfd).2

end SerialSound

/-- A frame for the UART that stalls. -/
def McuCh.Stalls (m : McuCh) (ftype : UInt8) (payload : List UInt8) (io : Io) : Prop :=
  ftype=fData ∧ m.fd≠none ∧ m.state=.active ∧ StallsOn m.txbuf payload io

def McuCh.Sound (w : Prop) (m : McuCh) : Prop := SerialSound w m.fd m.watch m.txbuf

namespace McuCh.Sound

variable {m : McuCh}

theorem interest (hf : m.txbuf.length ≤ serialTxbufSize) (hs : w → m.fd≠none → m.watch.Synced) :
    Sound w (mcuUpdateInterest m) := by
  unfold mcuUpdateInterest
  split_ifs with hfd
  · exact .closed hf hfd
  · exact SerialSound.interest hf hs _

theorem openUart (h : Sound w m) (io : Io) : Sound w (mcuOpenUart m io) := by
  unfold mcuOpenUart
  split
  · exact h
  · exact interest h.fits (fun _ _ => Watch.fresh_synced)

theorem closeUart (h : Sound w m) : Sound w (mcuCloseUart m) := by
  unfold mcuCloseUart
  split_ifs
  · exact h
  · exact .closed h.fits rfl

/-- A drain after the buffer was filled. -/
theorem uartDrain (h : Sound w m) {txbuf : List UInt8} {io : Io}
    (hf : txbuf.length ≤ serialTxbufSize)
    (hkeep : w → txbuf=[] ∨ io.write=.again → txbuf.isEmpty=m.txbuf.isEmpty) :
    Yields (Sound w) (mcuUartDrain {m with txbuf := txbuf} io) := by
  unfold mcuUartDrain
  split_ifs with hidle
  · rcases hidle with hnil|hfd
    · exact .some (h.kept hf (fun hw => hkeep hw (.inl hnil)))
    · exact .some (.closed hf hfd)
  · cases hwrite : io.write with
    | again => exact .some (h.kept hf (fun hw => hkeep hw (.inr hwrite)))
    | error => exact .some (interest (Nat.zero_le _) h.synced)
    | wrote n =>
      refine .next (slide_eq (Nat.min_le_right _ _)) (.some (interest ?_ h.synced))
      rw [List.length_drop]
      exact (Nat.sub_le _ _).trans hf

theorem onFrame (h : Sound w m) {ftype : UInt8} {payload : List UInt8} {io : Io}
    (hstall : w → ¬m.Stalls ftype payload io) : Yields (Sound w) (mcuOnFrame m ftype payload io) := by
  unfold mcuOnFrame
  split_ifs with hskip
  · exact .some h
  · obtain ⟨hdata,hfd,hactive⟩ : ftype=fData ∧ m.fd≠none ∧ m.state=.active := by
      simpa only [not_or,not_not] using hskip
    refine (fillTxbuf_yields io h.fits).bind ?_
    intro txbuf ⟨hfits,hkeep⟩
    exact h.uartDrain hfits (fun hw => hkeep (fun hon => hstall hw ⟨hdata,hfd,hactive,hon⟩))

end McuCh.Sound

/-- A frame for the PTY that stalls. -/
def PtyCh.Stalls (p : PtyCh) (ftype : UInt8) (payload : List UInt8) (io : Io) : Prop :=
  ftype=fData ∧ p.masterFd≠none ∧ StallsOn p.txbuf payload io

def PtyCh.Sound (w : Prop) (p : PtyCh) : Prop := SerialSound w p.masterFd p.watch p.txbuf

namespace PtyCh.Sound

variable {p : PtyCh}

theorem interest (hf : p.txbuf.length ≤ serialTxbufSize)
    (hs : w → p.masterFd≠none → p.watch.Synced) : Sound w (ptyUpdateInterest p) := by
  unfold ptyUpdateInterest
  split_ifs with hfd
  · exact .closed hf hfd
  · exact SerialSound.interest hf hs _

theorem ptyOpen (h : Sound w p) (io : Io) : Sound w (ptyOpen p io) := by
  unfold Reference.ptyOpen
  split_ifs
  · exact h
  · split
    · exact h
    · exact interest h.fits (fun _ _ => Watch.fresh_synced)

theorem ptyClose (h : Sound w p) : Sound w (ptyClose p) := by
  unfold Reference.ptyClose
  split_ifs
  · exact h
  · exact .closed (Nat.zero_le _) rfl

/-- As for the UART. -/
theorem masterDrain (h : Sound w p) {txbuf : List UInt8} {io : Io}
    (hf : txbuf.length ≤ serialTxbufSize)
    (hkeep : w → txbuf=[] ∨ io.write=.again → txbuf.isEmpty=p.txbuf.isEmpty) :
    Yields (Sound w) (ptyMasterDrain {p with txbuf := txbuf} io) := by
  unfold ptyMasterDrain
  by_cases hidle : txbuf=[] ∨ p.masterFd=none
  · rw [if_pos hidle]
    rcases hidle with hnil|hfd
    · exact .some (h.kept hf (fun hw => hkeep hw (.inl hnil)))
    · exact .some (.closed hf hfd)
  · rw [if_neg hidle]
    cases hwrite : io.write with
    | again => exact .some (h.kept hf (fun hw => hkeep hw (.inr hwrite)))
    | error =>
      refine .some ?_
      split_ifs
      · have hfd : p.masterFd≠none := fun hfd => hidle (.inr hfd)
        rw [Reference.ptyClose,if_neg hfd]
        exact .closed (Nat.zero_le _) rfl
      · exact interest (Nat.zero_le _) h.synced
    | wrote n =>
      refine .next (slide_eq (Nat.min_le_right _ _)) (.some (interest ?_ h.synced))
      rw [List.length_drop]
      exact (Nat.sub_le _ _).trans hf

theorem onFrame (h : Sound w p) {ftype : UInt8} {payload : List UInt8} {io : Io}
    (hstall : w → ¬p.Stalls ftype payload io) : Yields (Sound w) (ptyOnFrame p ftype payload io) := by
  unfold ptyOnFrame
  split_ifs with hflush hready hdata
  · exact .some h.ptyClose
  · exact .some (h.ptyOpen io)
  · refine (fillTxbuf_yields io h.fits).bind ?_
    intro txbuf ⟨hfits,hkeep⟩
    exact h.masterDrain hfits (fun hw => hkeep (fun hon => hstall hw ⟨hdata.1,hdata.2,hon⟩))
  · exact .some h

end PtyCh.Sound

/-- An open connection has a buffer, what waits fits it, and epoll is asked for output while something
waits. -/
structure TcpConn.Sound (w : Prop) (c : TcpConn) : Prop where
  buffer : c.fd≠none → ∃b,c.txbuf=some b ∧ b.length≤connTxbufSize
  wired : w → c.fd≠none → c.watch.Synced ∧ (c.txbufLen≠0 → c.watch.writes=true)

namespace TcpConn.Sound

variable {c : TcpConn}

theorem closed (hfd : c.fd=none) : Sound w c := ⟨fun h => absurd hfd h,fun _ h => absurd hfd h⟩

theorem update (hb : c.fd≠none → ∃b,c.txbuf=some b ∧ b.length≤connTxbufSize)
    (hs : w → c.fd≠none → c.watch.Synced) (p : Bool) : Sound w (tcpConnUpdate c p) := by
  unfold tcpConnUpdate
  split_ifs with hfd
  · exact closed hfd
  · refine ⟨hb,fun hw _ => ?_⟩
    have hsync := hs hw hfd
    refine ⟨Watch.update_synced hsync _,?_⟩
    intro (hlen : c.txbufLen≠0)
    refine (Watch.update_writes hsync _ _).trans ?_
    simp [hlen]

theorem synced (h : Sound w c) : w → c.fd≠none → c.watch.Synced := fun hw hfd => (h.wired hw hfd).1

theorem again (h : Sound w c) (p : Bool) : Sound w (tcpConnUpdate c p) := update h.buffer h.synced p

theorem closeFd (c : TcpConn) : Sound w (tcpConnCloseFd c) := by
  unfold tcpConnCloseFd
  split_ifs with hfd
  · exact closed hfd
  · exact closed rfl

theorem zero : Sound w .zero := closed rfl

/-- What a `send()` leaves is no more than there was. -/
theorem sentTxbuf (h : Sound w c) (hlen : c.txbufLen≠0) (n : Nat) :
    Yields (Sound w) (sentTxbuf c n) := by
  cases hb : c.txbuf with
  | none => exact absurd (by rw [txbufLen,hb]; rfl) hlen
  | some b =>
    refine .next hb (.next (slide_eq (Nat.min_le_right _ _)) (.some ⟨fun hfd => ?_,fun hw hfd => ?_⟩))
    · obtain ⟨b',hb',hle⟩ := h.buffer hfd
      obtain rfl := Option.some.inj (hb'.symm.trans hb)
      refine ⟨_,rfl,?_⟩
      rw [List.length_drop]
      omega
    · exact ⟨h.synced hw hfd,fun _ => (h.wired hw hfd).2 hlen⟩

end TcpConn.Sound

/-- A connection id fits its two bytes. -/
theorem cidBytes_yields (cid : Slot) : Yields (fun bs => bs.length=2) (cidBytes cid) := by
  have hcid : cid.val<256 := cid.isLt
  have hlo : cid.val&&&0xFF<2^8 := Nat.and_lt_two_pow _ (by decide)
  have hhi : cid.val>>>8<2^8 := by
    rw [Nat.shiftRight_eq_div_pow]
    omega
  exact .next (narrow8_eq hlo) (.next (narrow8_eq hhi) (.some rfl))

theorem srcAllocCid_yields (s : TcpSrc) :
    Yields (fun r => ∀s' cid,r=some (s',cid) → s'.conns=s.conns) (srcAllocCid s) := by
  unfold srcAllocCid
  split
  · exact .some nofun
  · refine .check ((Nat.mod_lt _ (by decide)).trans (by decide)) (.some ?_)
    intro s' cid he
    obtain ⟨rfl,-⟩ := Prod.mk.inj (Option.some.inj he)
    rfl

/-- A channel with connections. -/
def Spec.isTcp : Spec → Bool
  | mcu => false
  | pty => false
  | tcpSrc => true
  | tcpDst => true

namespace ChannelT

def Sound (w : Prop) : ChannelT → Prop
  | mcu m => m.Sound w
  | pty p => p.Sound w
  | src s => ∀cid,(s.conns cid).Sound w
  | dst t => ∀cid,(t.conns cid).Sound w

def Stalls (ch : ChannelT) (ftype : UInt8) (payload : List UInt8) (io : Io) : Prop :=
  match ch with
  | mcu m => m.Stalls ftype payload io
  | pty p => p.Stalls ftype payload io
  | src _ => False
  | dst _ => False

def spec : ChannelT → Spec
  | mcu _ => .mcu
  | pty _ => .pty
  | src _ => .tcpSrc
  | dst _ => .tcpDst

variable {ch : ChannelT}

theorem Sound.init (spec : Spec) (io : Io) : Sound w (chInit spec io) := by
  cases spec with
  | mcu => exact McuCh.Sound.openUart (.closed (Nat.zero_le _) rfl) io
  | pty => exact SerialSound.closed (Nat.zero_le _) rfl
  | tcpSrc => exact fun _ => .zero
  | tcpDst => exact fun _ => .zero

theorem init_spec (spec : Spec) (io : Io) : (chInit spec io).spec=spec := by
  cases spec <;> rfl

theorem Sound.linkDown (h : ch.Sound w) : (chOnLinkDown ch).Sound w := by
  cases ch with
  | mcu m =>
    have hm : m.Sound w := h
    exact .interest (Nat.zero_le _) hm.synced
  | pty p =>
    have hp : p.Sound w := h
    exact hp.ptyClose
  | src s => exact fun _ => .closeFd _
  | dst t => exact fun _ => .closeFd _

theorem linkDown_spec (ch : ChannelT) : (chOnLinkDown ch).spec=ch.spec := by
  cases ch <;> rfl

theorem Sound.setPaused (h : ch.Sound w) (b : Bool) : (chSetPaused b ch).Sound w := by
  unfold chSetPaused
  split_ifs
  · exact h
  · cases ch with
    | mcu m =>
      have hm : m.Sound w := h
      exact .interest hm.fits hm.synced
    | pty p =>
      have hp : p.Sound w := h
      exact .interest hp.fits hp.synced
    | src s => exact fun cid => (h cid).again b
    | dst t => exact fun cid => (h cid).again b

theorem setPaused_spec (b : Bool) (ch : ChannelT) : (chSetPaused b ch).spec=ch.spec := by
  unfold chSetPaused
  split_ifs
  · rfl
  · cases ch <;> rfl

theorem Sound.conn (h : ch.Sound w) {cid : Slot} {c : TcpConn} (hc : ch.conn cid=some c) :
    c.Sound w := by
  cases ch with
  | mcu m => exact nomatch hc
  | pty p => exact nomatch hc
  | src s => exact Option.some.inj hc ▸ h cid
  | dst t => exact Option.some.inj hc ▸ h cid

theorem Sound.setConn (h : ch.Sound w) (cid : Slot) {c : TcpConn} (hc : c.Sound w) :
    (ch.setConn cid c).Sound w := by
  have hupdate {conns : Slot → TcpConn} (hs : ∀cid,(conns cid).Sound w) (j : Slot) :
      (Function.update conns cid c j).Sound w := by
    by_cases hj : j=cid
    · rw [hj,Function.update_self]
      exact hc
    · rw [Function.update_of_ne hj]
      exact hs j
  cases ch with
  | mcu m => exact h
  | pty p => exact h
  | src s => exact hupdate h
  | dst t => exact hupdate h

theorem conn_setConn {cid : Slot} {c₀ : TcpConn} (h : ch.conn cid=some c₀) (c : TcpConn) :
    (ch.setConn cid c).conn cid=some c := by
  cases ch with
  | mcu m => exact nomatch h
  | pty p => exact nomatch h
  | src s => simp only [setConn,conn,Function.update_self]
  | dst t => simp only [setConn,conn,Function.update_self]

theorem setConn_setConn (cid : Slot) (c c' : TcpConn) (ch : ChannelT) :
    (ch.setConn cid c).setConn cid c'=ch.setConn cid c' := by
  cases ch with
  | mcu m => rfl
  | pty p => rfl
  | src s => simp only [setConn,Function.update_idem]
  | dst t => simp only [setConn,Function.update_idem]

theorem setConn_spec (cid : Slot) (c : TcpConn) (ch : ChannelT) : (ch.setConn cid c).spec=ch.spec := by
  cases ch <;> rfl

end ChannelT

namespace Daemon

variable {d : Daemon} {id : UInt8} {cid : Slot} {c : TcpConn}

theorem conn_setConn (h : d.conn id cid=some c) (c' : TcpConn) :
    (d.setConn id cid c').conn id cid=some c' := by
  obtain ⟨ch,hget,hc⟩ := Option.bind_eq_some_iff.mp h
  rw [setConn,hget,conn,put_self]
  exact ChannelT.conn_setConn hc c'

theorem setConn_setConn (c c' : TcpConn) :
    (d.setConn id cid c).setConn id cid c'=d.setConn id cid c' := by
  cases hget : d.channels id with
  | none => simp only [setConn,hget]
  | some ch =>
    simp only [setConn,hget,put_self,ChannelT.setConn_setConn]
    simp only [put,Function.update_idem]

end Daemon

end Serialmux.Reference

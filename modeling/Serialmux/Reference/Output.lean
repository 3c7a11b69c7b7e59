import Serialmux.Reference.Run

namespace Serialmux.Reference

open Framework Protocol Channel

namespace ChannelT

/-- No output is stuck: whatever waits for an open fd, epoll is asked to tell when it can be
written. -/
def Wired : ChannelT → Prop
  | mcu m => m.fd≠none → m.txbuf≠[] → m.watch.writes=true
  | pty p => p.masterFd≠none → p.txbuf≠[] → p.watch.writes=true
  | src s => ∀cid,(s.conns cid).fd≠none → (s.conns cid).txbufLen≠0 →
      (s.conns cid).watch.writes=true
  | dst t => ∀cid,(t.conns cid).fd≠none → (t.conns cid).txbufLen≠0 →
      (t.conns cid).watch.writes=true

end ChannelT

namespace SerialSound

variable {fd : Option RawFd} {watch : Watch} {txbuf : List UInt8}

theorem isWired (h : SerialSound True fd watch txbuf) (hfd : fd≠none) (hne : txbuf≠[]) :
    watch.writes=true := by
  rw [(h.wired trivial hfd).2]
  simpa using hne

/-- Bytes that come to an empty buffer are stuck if the interest stays as it is. -/
theorem strands (h : SerialSound True fd watch []) (hfd : fd≠none) (hne : txbuf≠[]) :
    ¬(fd≠none → txbuf≠[] → watch.writes=true) := by
  intro hwired
  have hidle : watch.writes=false := (h.wired trivial hfd).2
  exact nomatch hidle.symm.trans (hwired hfd hne)

end SerialSound

theorem ChannelT.Sound.isWired {ch : ChannelT} (h : ch.Sound True) : ch.Wired := by
  cases ch with
  | mcu m => exact SerialSound.isWired h
  | pty p => exact SerialSound.isWired h
  | src s => exact fun cid hfd => ((h cid).wired trivial hfd).2
  | dst t => exact fun cid hfd => ((h cid).wired trivial hfd).2

/-- What a payload that stalls leaves in the buffer. -/
theorem StallsOn.filled {txbuf payload : List UInt8} {io : Io} (h : StallsOn txbuf payload io) :
    Yields (fun txbuf' => txbuf'≠[]) (fillTxbuf txbuf payload) := by
  obtain ⟨rfl,hne,-⟩ := h
  have hroom : ([] : List UInt8).length+min payload.length (serialTxbufSize-([] : List UInt8).length)≤
      serialTxbufSize := by
    rw [List.length_nil]
    omega
  refine .next (sub?_eq (Nat.zero_le _)) (.of_eq (copyTo_eq (Nat.min_le_left _ _) hroom) ?_)
  intro hnil
  have hzero := congrArg List.length hnil
  have hpos := List.length_pos_iff.mpr hne
  have hsize : serialTxbufSize=32768 := rfl
  simp only [List.nil_append,List.length_take,List.length_nil] at hzero
  omega

/-- A drain that would block leaves all as it is. -/
theorem McuCh.drain_blocked (m : McuCh) {io : Io} (h : io.write=.again) : mcuUartDrain m io=some m := by
  unfold mcuUartDrain
  split_ifs
  · rfl
  · rw [h]

theorem PtyCh.drain_blocked (p : PtyCh) {io : Io} (h : io.write=.again) :
    ptyMasterDrain p io=some p := by
  unfold ptyMasterDrain
  by_cases hidle : p.txbuf=[] ∨ p.masterFd=none
  · rw [if_pos hidle]
  · rw [if_neg hidle,h]

/-- A stall strands the bytes of its frame. -/
theorem McuCh.Stalls.strands {m : McuCh} {ftype : UInt8} {payload : List UInt8} {io : Io}
    (hs : m.Stalls ftype payload io) (h : m.Sound True) :
    Yields (fun m' => ¬(ChannelT.mcu m').Wired) (mcuOnFrame m ftype payload io) := by
  obtain ⟨hdata,hfd,hactive,hon⟩ := hs
  have hskip : ¬(ftype≠fData ∨ m.fd=none ∨ m.state≠.active) := by
    simp [hdata,hfd,hactive]
  rw [mcuOnFrame,if_neg hskip]
  refine hon.filled.bind ?_
  intro txbuf hne
  have hempty : SerialSound True m.fd m.watch [] := hon.1 ▸ h
  exact .of_eq (drain_blocked _ hon.2.2) (hempty.strands hfd hne)

theorem PtyCh.Stalls.strands {p : PtyCh} {ftype : UInt8} {payload : List UInt8} {io : Io}
    (hs : p.Stalls ftype payload io) (h : p.Sound True) :
    Yields (fun p' => ¬(ChannelT.pty p').Wired) (ptyOnFrame p ftype payload io) := by
  obtain ⟨hdata,hfd,hon⟩ := hs
  rw [ptyOnFrame,if_neg (by rw [hdata]; decide),if_neg (by rw [hdata]; decide),if_pos ⟨hdata,hfd⟩]
  refine hon.filled.bind ?_
  intro txbuf hne
  have hempty : SerialSound True p.masterFd p.watch [] := hon.1 ▸ h
  exact .of_eq (drain_blocked _ hon.2.2) (hempty.strands hfd hne)

theorem ChannelT.Stalls.isData {ch : ChannelT} {ftype : UInt8} {payload : List UInt8} {io : Io}
    (h : ch.Stalls ftype payload io) : ftype=fData := by
  cases ch with
  | mcu m => exact h.1
  | pty p => exact h.1
  | src s => exact h.elim
  | dst t => exact h.elim

/-- Data is none of the frames that the daemon keeps for itself. -/
theorem onFrame_of_data (crc : List UInt8 → UInt32) {d : Daemon} {f : Frame} {io : Io}
    (h : f.ftype=fData) : onFrame crc d f io=chOnFrame crc d f.channel f.ftype f.payload io := by
  unfold onFrame
  rw [if_neg (by rw [h]; decide),if_neg (by rw [h]; decide),if_neg (by rw [h]; decide),
    if_neg (by rw [h]; decide)]

namespace Daemon

def Wired (d : Daemon) : Prop := ∀id ch,d.channels id=some ch → ch.Wired

variable {crc : List UInt8 → UInt32} {specs : UInt8 → Option Spec}

theorem Sound.isWired {d : Daemon} (h : Sound True crc specs d) : d.Wired :=
  fun id ch hget => (h.channels id ch hget).isWired

/-- The condition is exact, frame by frame: a daemon in order stays so if and only if the frame does
not stall. -/
theorem onFrame_wired_iff {d : Daemon} (h : Sound True crc specs d) (f : Frame) (io : Io) :
    Yields (fun d' => d'.Wired ↔ ¬d.Stalls f io) (onFrame crc d f io) := by
  by_cases hs : d.Stalls f io
  · suffices hbad : Yields (fun d' => ¬d'.Wired) (onFrame crc d f io) from
      hbad.mono (fun d' hd' => iff_of_false hd' (not_not.mpr hs))
    obtain ⟨ch,hget,hch⟩ := hs
    have hput {ch' : ChannelT} (hch' : ¬ch'.Wired) : ¬(d.put f.channel ch').Wired :=
      fun hwired => hch' (hwired f.channel ch' (put_self ..))
    rw [onFrame_of_data crc hch.isData]
    unfold chOnFrame
    rw [hget]
    cases ch with
    | mcu m =>
      have hm : m.Sound True := h.channels _ _ hget
      exact (McuCh.Stalls.strands hch hm).bind (fun m' hm' => .some (hput hm'))
    | pty p =>
      have hp : p.Sound True := h.channels _ _ hget
      exact (PtyCh.Stalls.strands hch hp).bind (fun p' hp' => .some (hput hp'))
    | src s => exact hch.elim
    | dst t => exact hch.elim
  · exact (h.onFrame f io (fun _ => hs)).mono (fun d' hd' => iff_of_true hd'.isWired hs)

end Daemon

/-- No output of the daemon is ever stuck, in a run in which no frame stalls. -/
theorem output_wired (crc : List UInt8 → UInt32) (specs : UInt8 → Option Spec) (ios : UInt8 → Io)
    (clock : Millis) (dev : Option RawFd) (steps : List LoopStep)
    (hcalm : ∀d,openLink crc (daemonInit specs ios) clock dev=some d →
      Throughout (loopStep crc) (Daemon.Calm crc) d steps) (n : Nat) :
    Yields Daemon.Wired (daemonRun crc specs ios clock dev (steps.take n)) := by
  have hrun := Daemon.Sound.run (w := True) crc specs ios clock dev (steps.take n)
    (fun _ d hd => (hcalm d hd).take n)
  exact hrun.mono (fun d h => h.isWired)

/-- One MCU, as channel 1. -/
def oneMcu (id : UInt8) : Option Spec := if id=1 then some .mcu else none

/-- The MCU is heard, then a frame with one byte for it comes. The UART answers it with `write`. -/
def oneByteSteps (write : WriteResult) : List LoopStep :=
  [.event (.mcu 1) true false {Io.idle with clock := 2, read := .data [klipperSync] sync_fits}
      ⟨2,.wouldBlock,fun _ => .idle,.again⟩,
    .event .link true false .idle
      ⟨3,.data (buildFrame crc32 fData 1 [0x42]) (by decide +kernel),
        fun _ => {Io.idle with write := write},.again⟩]

theorem output_wired_oneByte :
    Yields Daemon.Wired (daemonRun crc32 oneMcu (fun _ => {Io.idle with openSerialFd := some 5}) 1
      (some 3) ((oneByteSteps (.wrote 1)).take 2)) := by
  have hmoves (d : Daemon) (f : Frame) : ¬d.Stalls f {Io.idle with write := .wrote 1} := by
    intro ⟨ch,_,hch⟩
    cases ch with
    | mcu m => exact nomatch hch.2.2.2.2.2
    | pty p => exact nomatch hch.2.2.2.2
    | src s => exact hch
    | dst t => exact hch
  refine output_wired crc32 oneMcu _ 1 (some 3) (oneByteSteps (.wrote 1)) ?_ 2
  intro d hd
  refine ⟨trivial,fun d₁ _ => ⟨fun _ bs hbs _ => ?_,fun _ _ => trivial⟩⟩
  exact .of_forall (fun (s : Daemon × Nat) f => hmoves s.1 f) _ _

namespace ChannelT

/-- Bytes wait for an open UART and no one asks epoll for output. -/
def strands : ChannelT → Bool
  | mcu m => m.fd.isSome && !m.txbuf.isEmpty && !m.watch.writes
  | _ => false

theorem not_wired_of_strands {ch : ChannelT} (h : ch.strands=true) : ¬ch.Wired := by
  cases ch with
  | mcu m =>
    simp only [strands,Bool.and_eq_true,Bool.not_eq_true',List.isEmpty_eq_false_iff,
      Option.isSome_iff_ne_none] at h
    intro hwired
    exact nomatch h.2.symm.trans (hwired h.1.1 h.1.2)
  | pty p => exact nomatch h
  | src s => exact nomatch h
  | dst t => exact nomatch h

end ChannelT

theorem again_strands_oneByte :
    ∃d,daemonRun crc32 oneMcu (fun _ => {Io.idle with openSerialFd := some 5}) 1 (some 3)
      (oneByteSteps .again)=some d ∧ ¬d.Wired := by
  have heval : (daemonRun crc32 oneMcu (fun _ => {Io.idle with openSerialFd := some 5}) 1 (some 3)
      (oneByteSteps .again)).any (fun d => (d.channels 1).any ChannelT.strands)=true := by
    decide +kernel
  obtain ⟨d,hd,hmcu⟩ := (Option.any_eq_true _ _).mp heval
  obtain ⟨ch,hget,hch⟩ := (Option.any_eq_true _ _).mp hmcu
  exact ⟨d,hd,fun hwired => ChannelT.not_wired_of_strands hch (hwired 1 ch hget)⟩

end Serialmux.Reference

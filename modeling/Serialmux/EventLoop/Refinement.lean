import Serialmux.Channel.Twin
import Serialmux.EventLoop.Views
import Serialmux.EventLoop.Fifo

namespace Serialmux.EventLoop

open Framework Protocol Channel

section Queue

variable (crc : List UInt8 → UInt32)

/-- Wherever the bytes of some frames are cut, whole frames and the beginning of the next one come
before the cut. -/
theorem encodeFrames_cut {xs ys : List UInt8} {fs : List Frame} (h : xs++ys=encodeFrames crc fs) :
    ∃n sent,xs=encodeFrames crc (fs.take n)++sent ∧ sent++ys=encodeFrames crc (fs.drop n) ∧
      ∀f∈(fs.drop n).head?,sent.length<(f.build crc).length := by
  induction fs generalizing xs with
  | nil =>
    obtain ⟨rfl,rfl⟩ := List.append_eq_nil_iff.mp h
    exact ⟨0,[],rfl,rfl,by simp⟩
  | cons f fs ih =>
    rw [encodeFrames_cons] at h
    rcases Nat.lt_or_ge xs.length (f.build crc).length with hlt|hge
    · exact ⟨0,xs,rfl,h,by simpa using hlt⟩
    · obtain ⟨zs,rfl⟩ : f.build crc <+: xs :=
        List.prefix_of_prefix_length_le (h ▸ List.prefix_append _ _) (List.prefix_append xs ys) hge
      rw [List.append_assoc] at h
      obtain ⟨n,sent,hx,hy,hb⟩ := ih (List.append_cancel_left h)
      exact ⟨n+1,sent,by simp [hx],hy,hb⟩

/-- What these frames come to on the link, less the `sent` bytes of the first of them that are
written already, is what the ring holds. -/
structure Queued (sent : List UInt8) (q : Logged) (fs : List Frame) : Prop where
  clean : q.dropped=[]
  bytes : sent++q.queue.contents=encodeFrames crc fs
  fits : ∀f∈fs,f.payload.length ≤ maxPayload
  begun : ∀f∈fs.head?,sent.length<(f.build crc).length

namespace Queued

variable {crc} {sent : List UInt8} {q : Logged} {fs : List Frame}

theorem isEmpty (h : Queued crc sent q fs) :
    (loggedLink crc).isEmpty q=fifoLink.isEmpty fs := by
  have hq : q.queue.isEmpty=true ↔ fs=[] := by
    rw [TxQueue.isEmpty_iff]
    cases fs with
    | nil =>
      have hnil := List.append_eq_nil_iff.mp h.bytes
      simp [hnil.2]
    | cons f fs =>
      have hlt := h.begun f rfl
      have hlen := congrArg List.length h.bytes
      simp only [List.length_append,encodeFrames_cons] at hlen
      have hne : q.queue.contents≠[] := by
        intro hnil
        rw [hnil,List.length_nil] at hlen
        omega
      simp [hne]
  change q.queue.isEmpty=fs.isEmpty
  rw [Bool.eq_iff_iff,hq,List.isEmpty_iff]

theorem enqueue (f : Frame) (h : Queued crc sent q fs)
    (hclean : ((loggedLink crc).enqueue q f).dropped=[]) :
    Queued crc sent ((loggedLink crc).enqueue q f) (fifoLink.enqueue fs f) := by
  have hroom : q.queue.overflows (f.build crc)=false := by
    cases ho : q.queue.overflows (f.build crc) with
    | false => rfl
    | true => simp [loggedLink,ho] at hclean
  have hbytes : sent++((loggedLink crc).enqueue q f).queue.contents=
      encodeFrames crc fs++f.build crc := by
    simp only [loggedLink,TxQueue.enqueue_contents _ _ hroom,← List.append_assoc,h.bytes]
  by_cases hf : f.payload.length ≤ maxPayload
  · have henq : fifoLink.enqueue fs f=fs++[f] := if_pos hf
    rw [henq]
    refine ⟨hclean,by simp [hbytes],?_,?_⟩
    · intro g hg
      rcases List.mem_append.mp hg with hg|hg
      · exact h.fits g hg
      · exact List.mem_singleton.mp hg ▸ hf
    cases fs with
    | nil =>
      have hnil := List.append_eq_nil_iff.mp h.bytes
      have hlen := buildFrame_length crc f.ftype f.channel f.payload hf
      intro g hg
      obtain rfl : f=g := by simpa using hg
      simp only [hnil.1,List.length_nil,Frame.build,hlen,hdrSize]
      omega
    | cons g fs => exact h.begun
  · -- `build_frame` refuses an oversize payload, which the ring takes for a frame without bytes.
    have henq : fifoLink.enqueue fs f=fs := if_neg hf
    have hnil : f.build crc=[] := if_pos (Nat.lt_of_not_le hf)
    rw [henq]
    exact ⟨hclean,by simp [hbytes,hnil],h.fits,h.begun⟩

theorem sendAll {gs : List Frame} (h : Queued crc sent q fs)
    (hclean : (Daemon.sendAll (loggedLink crc) q gs).dropped=[]) :
    Queued crc sent (Daemon.sendAll (loggedLink crc) q gs) (Daemon.sendAll fifoLink fs gs) := by
  induction gs generalizing q fs with
  | nil => exact h
  | cons g gs ih =>
    have htail : (Daemon.sendAll (loggedLink crc) ((loggedLink crc).enqueue q g) gs).dropped=[] :=
      hclean
    have hhead := (Daemon.sendAll_contents crc htail).1
    exact ih (h.enqueue g hhead) hclean

theorem reset (h : Queued crc sent q fs) :
    Queued crc [] ((loggedLink crc).reset q) (fifoLink.reset fs) := by
  refine ⟨h.clean,?_,List.forall_mem_nil _,by simp [fifoLink]⟩
  simp only [loggedLink,fifoLink,TxQueue.reset_contents,List.append_nil,encodeFrames_nil]

variable (crc) in
theorem new : Queued crc [] (loggedLink crc).new fifoLink.new := by
  refine ⟨rfl,?_,List.forall_mem_nil _,by simp [fifoLink]⟩
  simp only [loggedLink,fifoLink,TxQueue.new_contents,List.append_nil,encodeFrames_nil]

/-- A write takes some whole frames and perhaps the beginning of another one. -/
theorem drain (h : Queued crc sent q fs) (w : WriteResult) :
    ∃(w' : Option Nat) (sent' : List UInt8),
      sent++(q.queue.drainToFd w).written=encodeFrames crc (fs.take (w'.getD 0))++sent' ∧
      Queued crc sent' ((loggedLink crc).drain q w).1 (fifoLink.drain fs w').1 ∧
      ((loggedLink crc).drain q w).2=(fifoLink.drain fs w').2 := by
  have hempty := h.isEmpty
  cases fs with
  | nil =>
    have hdone : q.queue.drainToFd w=⟨q.queue,[],some true⟩ := if_pos hempty
    refine ⟨none,sent,by simp [hdone],?_,by simp [loggedLink,fifoLink,hdone]⟩
    simp only [loggedLink,hdone]
    exact h
  | cons f fs =>
    have hne : ¬q.queue.isEmpty=true := by
      intro he
      exact absurd (hempty.symm.trans he) (by simp [fifoLink])
    cases w with
    | again =>
      have hsame : q.queue.drainToFd .again=⟨q.queue,[],some false⟩ := if_neg hne
      refine ⟨some 0,sent,by simp [hsame],?_,by simp [loggedLink,fifoLink,hsame]⟩
      simp only [loggedLink,hsame]
      exact h
    | error =>
      have hsame : q.queue.drainToFd .error=⟨q.queue,[],none⟩ := if_neg hne
      refine ⟨none,sent,by simp [hsame],?_,by simp [loggedLink,fifoLink,hsame]⟩
      simp only [loggedLink,hsame]
      exact h
    | wrote k =>
      have hcut := h.bytes
      rw [← q.queue.drainToFd_contents (.wrote k),← List.append_assoc] at hcut
      obtain ⟨n,sent',hx,hy,hb⟩ := encodeFrames_cut crc hcut
      have hdrain : fifoLink.drain (f::fs) (some n)=
          ((f::fs).drop n,some ((f::fs).drop n).isEmpty) := rfl
      have hnext : Queued crc sent' ((loggedLink crc).drain q (.wrote k)).1
          (fifoLink.drain (f::fs) (some n)).1 := by
        rw [hdrain]
        exact ⟨h.clean,hy,fun g hg => h.fits g (List.mem_of_mem_drop hg),hb⟩
      refine ⟨some n,sent',hx,hnext,?_⟩
      have hres : ((loggedLink crc).drain q (.wrote k)).2=
          some ((loggedLink crc).isEmpty ((loggedLink crc).drain q (.wrote k)).1) := by
        simp only [loggedLink,TxQueue.drainToFd,if_neg hne]
      rw [hres,hnext.isEmpty]
      rfl

/-- The beginning of a frame is not taken for one. -/
theorem waits (h : Queued crc sent q fs) : frameMove crc sent=none := by
  cases fs with
  | nil =>
    obtain ⟨rfl,-⟩ := List.append_eq_nil_iff.mp h.bytes
    rfl
  | cons f fs =>
    obtain ⟨rest,hrest⟩ : sent <+: f.build crc :=
      List.prefix_of_prefix_length_le (h.bytes ▸ List.prefix_append _ _) (List.prefix_append _ _)
        (h.begun f rfl).le
    cases hm : frameMove crc sent with
    | none => rfl
    | some m =>
      have hstable := frameMove_stable crc rest hm
      have hbuild := frameMove_build crc ⟨f,h.fits f List.mem_cons_self⟩ []
      rw [List.append_nil] at hbuild
      rw [hrest,hbuild] at hstable
      have hle := (frameMove_len crc hm).2
      rw [← Option.some.inj hstable] at hle
      exact absurd (h.begun f rfl) (Nat.not_lt_of_le hle)

/-- What was written comes to the frames that are gone, however it arrives. -/
theorem decodes {put : List Frame} (h : Queued crc sent q fs)
    (hput : ∀f∈put,f.payload.length ≤ maxPayload) {cs : List (List UInt8)}
    (hcs : cs.flatten=encodeFrames crc put++sent) :
    (FrameParser.new.feedAll crc cs).frames=put := by
  have hall := (frameDecoder crc).drain_encoded (s := ()) (Frame.build crc) id
    (fun f hf => frameMove_build crc ⟨f,hput f hf⟩) sent
  have hnil : (frameDecoder crc).drain () sent=([],(),sent) := Decoder.drain_wait _ h.waits
  have hfed := (FrameParser.feedAll_correct crc _ (FrameParser.new_waiting crc) cs).1
  change _=((frameDecoder crc).drain () cs.flatten).1 at hfed
  rw [hfed,hcs,encodeFrames,hall,hnil]
  simp

end Queued

end Queue

/-- The same turn, where a write gets another answer. -/
def LoopOp.answered {W W' : Type} (w : W') : LoopOp W → LoopOp W'
  | .turn (.start now dev) => .turn (.start now dev)
  | .turn (.head now later dev ios) => .turn (.head now later dev ios)
  | .turn (.event now token readable writable io) =>
    .turn (.event now token readable writable io)
  | .turn (.send now _) => .turn (.send now w)
  | .turn (.readError now) => .turn (.readError now)
  | .turn (.restart now ios) => .turn (.restart now ios)
  | .receive now io f => .receive now io f

namespace Daemon

/-- A daemon on another queue, whose channels backpressure has treated differently. -/
def withQueue {Q Q' : Type} (d : Daemon Q) (q : Q') (m : ChannelMap) (bp : Bool) : Daemon Q' :=
  ⟨m,q,d.parser,d.linkFd,d.linkUp,bp,d.disconnected,d.reopenAt,d.reopenDelay,d.lastRx,d.lastTx,
    d.wantWrite⟩

theorem withQueue_interest {Q Q' : Type} (d : Daemon Q) (q : Q') (m : ChannelMap) (bp b : Bool) :
    (d.withQueue q m bp).setLinkWriteInterest b=(d.setLinkWriteInterest b).withQueue q m bp := by
  by_cases hfd : d.linkFd=none
  · have hleft : (d.withQueue q m bp).setLinkWriteInterest b=d.withQueue q m bp := if_pos hfd
    have hright : d.setLinkWriteInterest b=d := if_pos hfd
    rw [hleft,hright]
  · have hleft : (d.withQueue q m bp).setLinkWriteInterest b=
        {d.withQueue q m bp with wantWrite := b} := if_neg hfd
    have hright : d.setLinkWriteInterest b={d with wantWrite := b} := if_neg hfd
    rw [hleft,hright]
    rfl

/-- What a turn writes to the link. -/
def written (d : Daemon TxQueue) : LoopOp WriteResult → List UInt8
  | .turn (.send _ w) => if d.linkFd=none then [] else (d.txq.drainToFd w).written
  | _ => []

/-- A turn on the ring, with all that was written to the link since it was opened. -/
def ringStep (crc : List UInt8 → UInt32) (s : Daemon TxQueue × List UInt8)
    (op : LoopOp WriteResult) : (Daemon TxQueue × List UInt8) × Unit :=
  ((loop (txLink crc) s.1 op,if s.1.linkFd=none then [] else s.2++written s.1 op),())

/-- What a turn puts on the link. -/
def loopPuts (d : Daemon (List Frame)) : LoopOp (Option Nat) → List Frame
  | .turn op => d.puts op
  | .receive _ _ _ => []

/-- A turn on the frames, with all that were put on the link since it was opened. -/
def fifoStep (s : Daemon (List Frame) × List Frame) (op : LoopOp (Option Nat)) :
    (Daemon (List Frame) × List Frame) × Unit :=
  ((loop fifoLink s.1 op,if s.1.linkFd=none then [] else s.2++loopPuts s.1 op),())

section Paused

variable {Q W : Type} (lq : LinkQueue Q W) {d e : Daemon Q}

/-- Backpressure may have changed `d` into `e`. -/
def Paused (d e : Daemon Q) : Prop :=
  ∃m bp,e={d with channels := m, linkBp := bp} ∧
    ∀m' : ChannelMap,d.channels.Twin m' → m.Twin m'

theorem Paused.refl (d : Daemon Q) : Paused d d := ⟨d.channels,d.linkBp,rfl,fun _ h => h⟩

theorem eachChannel_paused (bp : Bool) {call : Call} (hp : DynChannel.Pauses call) :
    Paused d (eachChannel lq {d with linkBp := bp} (fun _ => call)) := by
  have hsilent : ∀c : DynChannel,(c.apply call).2.frames=[] := by
    obtain ⟨op,io⟩ := call
    intro c
    rcases hp with rfl|rfl
    · exact c.pause_frames io
    · exact c.resume_frames io
  obtain ⟨m,hm,hk,hget⟩ := eachChannel_eq lq {d with linkBp := bp} (fun _ => call)
  have hnone : d.channels.keys.flatMap (fun id => d.channels.frames id call)=[] :=
    List.flatMap_eq_nil_iff.mpr (fun id _ => d.channels.frames_silent hsilent id)
  refine ⟨m,bp,by rw [hm,hnone]; rfl,fun m' h => ⟨hk.trans h.keys,fun id => ?_⟩⟩
  have hc := h.get id
  rw [hget]
  generalize d.channels.get id=c at hc
  generalize m'.get id=c' at hc
  cases hc with
  | none => exact .none
  | some h => exact .some (DynChannel.paused_twin hp h)

theorem checkBpHigh_paused (d : Daemon Q) : Paused d (checkBpHigh lq d) := by
  unfold checkBpHigh
  split_ifs
  · exact eachChannel_paused lq true (.inl rfl)
  · exact .refl d

theorem resumeIfLow_paused (d : Daemon Q) : Paused d (resumeIfLow lq d) := by
  unfold resumeIfLow
  split_ifs
  · exact eachChannel_paused lq false (.inr rfl)
  · exact .refl d

theorem resumeAll_paused (d : Daemon Q) : Paused d (resumeAll lq d) := by
  unfold resumeAll
  split_ifs
  · exact eachChannel_paused lq false (.inr rfl)
  · exact .refl d

end Paused

section Follows

variable (crc : List UInt8 → UInt32) (wire : List UInt8) (put : List Frame)

/-- The daemon over the frames follows the one over the ring. While the link is open, `wire` and
`put` are what the two have put on it. -/
inductive Follows (d : Daemon Logged) : Daemon (List Frame) → Prop where
  | intro {sent : List UInt8} {q : List Frame} {m : ChannelMap} {bp : Bool}
      (closed : d.disconnected=true → d.linkFd=none)
      (written : d.linkFd≠none → wire=encodeFrames crc put++sent)
      (fits : ∀f∈put,f.payload.length ≤ maxPayload)
      (queue : Queued crc sent d.txq q) (channels : d.channels.Twin m) :
      Follows d (d.withQueue q m bp)

/-- Unless the ring has refused a frame. -/
def Tracks (d : Daemon Logged) (d' : Daemon (List Frame)) : Prop :=
  d.txq.dropped≠[] ∨ Follows crc wire put d d'

variable {crc wire put} {d : Daemon Logged} {d' : Daemon (List Frame)}

theorem sendAll_dropped {q : Logged} (fs : List Frame) (h : q.dropped≠[]) :
    (sendAll (loggedLink crc) q fs).dropped≠[] := mt (fun hc => (sendAll_contents crc hc).1) h

variable (crc) in
/-- What was refused is not forgotten. -/
theorem dropped_kept : Kept (loggedLink crc) (fun _ _ => True) (fun d => d.txq.dropped≠[]) where
  core := by
    intro d d' h _ hq _ _ _ _
    rwa [hq]
  call _ h := sendAll_dropped _ h
  pause _ := trivial
  resume _ := trivial

namespace Tracks

theorem bind {f : Daemon Logged → Daemon Logged} {g : Daemon (List Frame) → Daemon (List Frame)}
    (h : Tracks crc wire put d d')
    (hlost : ∀d : Daemon Logged,d.txq.dropped≠[] → (f d).txq.dropped≠[])
    (hfg : ∀d d',Follows crc wire put d d' → Tracks crc wire put (f d) (g d')) :
    Tracks crc wire put (f d) (g d') := h.elim (fun h => .inl (hlost d h)) (hfg d d')

/-- Nothing was put on the link. -/
theorem quiet (h : Tracks crc wire put d d') : Tracks crc (wire++[]) (put++[]) d d' := by
  rwa [List.append_nil,List.append_nil]

end Tracks

namespace Follows

theorem clean (h : Follows crc wire put d d') : d.txq.dropped=[] := by
  cases h with
  | intro hc hw hf hq hm => exact hq.clean

theorem closed (h : Follows crc wire put d d') : d.disconnected=true → d.linkFd=none := by
  cases h with
  | intro hc hw hf hq hm => exact hc

theorem twins (h : Follows crc wire put d d') : d.channels.Twin d'.channels := by
  cases h with
  | intro hc hw hf hq hm => exact hm

theorem disconnected (h : Follows crc wire put d d') : d.disconnected=d'.disconnected := by
  cases h with
  | intro hc hw hf hq hm => rfl

theorem linkFd (h : Follows crc wire put d d') : d.linkFd=d'.linkFd := by
  cases h with
  | intro hc hw hf hq hm => rfl

theorem linkUp (h : Follows crc wire put d d') : d.linkUp=d'.linkUp := by
  cases h with
  | intro hc hw hf hq hm => rfl

theorem isEmpty (h : Follows crc wire put d d') :
    (loggedLink crc).isEmpty d.txq=fifoLink.isEmpty d'.txq := by
  cases h with
  | intro hc hw hf hq hm => exact hq.isEmpty

theorem paused {e : Daemon Logged} {e' : Daemon (List Frame)} (h : Follows crc wire put d d')
    (he : Paused d e) (he' : Paused d' e') : Follows crc wire put e e' := by
  cases h with
  | intro hc hw hf hq hm =>
    obtain ⟨m,bp,rfl,hleft⟩ := he
    obtain ⟨m',bp',rfl,hright⟩ := he'
    exact .intro hc hw hf hq (hright m (hleft _ hm).symm).symm

theorem interest (b : Bool) (h : Follows crc wire put d d') :
    Follows crc wire put (d.setLinkWriteInterest b) (d'.setLinkWriteInterest b) := by
  cases h with
  | intro hc hw hf hq hm =>
    obtain ⟨b',hb⟩ := setLinkWriteInterest_eq d b
    rw [withQueue_interest,hb]
    exact .intro hc hw hf hq hm

theorem touch (now : Instant) (h : Follows crc wire put d d') :
    Follows crc wire put (touch (loggedLink crc) d now) (touch fifoLink d' now) := by
  unfold Daemon.touch
  rw [h.isEmpty]
  cases h with
  | intro hc hw hf hq hm => exact interest _ (.intro hc hw hf hq hm)

theorem touch_tracks (now : Instant) (h : Tracks crc wire put d d') :
    Tracks crc wire put (Daemon.touch (loggedLink crc) d now) (Daemon.touch fifoLink d' now) :=
  h.bind (f := fun d => Daemon.touch (loggedLink crc) d now)
    (g := fun d => Daemon.touch fifoLink d now) (fun _ hlost => (dropped_kept crc).touch now hlost)
    (fun _ _ h => .inr (h.touch now))

theorem checkBpHigh (h : Follows crc wire put d d') :
    Follows crc wire put (checkBpHigh (loggedLink crc) d) (checkBpHigh fifoLink d') :=
  h.paused (checkBpHigh_paused _ d) (checkBpHigh_paused _ d')

/-- The channels of both take a step, and the same frames are queued. -/
theorem queued {m m' : ChannelMap} {fs : List Frame} (h : Follows crc wire put d d')
    (hm : m.Twin m') :
    Tracks crc wire put {d with channels := m, txq := sendAll (loggedLink crc) d.txq fs}
      {d' with channels := m', txq := sendAll fifoLink d'.txq fs} := by
  cases h with
  | intro hc hw hf hq _ =>
    by_cases hclean : (sendAll (loggedLink crc) d.txq fs).dropped=[]
    · exact .inr (.intro hc hw hf (hq.sendAll hclean) hm)
    · exact .inl hclean

theorem callChannel (id : UInt8) (call : Call) (h : Follows crc wire put d d') :
    Tracks crc wire put (callChannel (loggedLink crc) d id call)
      (callChannel fifoLink d' id call) := by
  unfold Daemon.callChannel
  rw [h.twins.frames id call]
  exact h.queued (h.twins.set id call)

theorem eachChannel (call : UInt8 → Call) (h : Follows crc wire put d d') :
    Tracks crc wire put (eachChannel (loggedLink crc) d call) (eachChannel fifoLink d' call) := by
  have hm := h.twins
  obtain ⟨n,hn,hk,hget⟩ := eachChannel_eq (loggedLink crc) d call
  obtain ⟨n',hn',hk',hget'⟩ := eachChannel_eq fifoLink d' call
  have hframes : d.channels.keys.flatMap (fun id => d.channels.frames id (call id))=
      d'.channels.keys.flatMap (fun id => d'.channels.frames id (call id)) := by
    rw [hm.keys]
    exact List.flatMap_congr (fun id _ => hm.frames id (call id))
  rw [hn,hn',hframes]
  refine h.queued ⟨(hk.trans hm.keys).trans hk'.symm,fun id => ?_⟩
  rw [hget,hget']
  exact DynChannel.Twin.lift (fun _ _ h => (DynChannel.apply_twin h (call id)).1) (hm.get id)

theorem enqueueFrame (now : Instant) (f : Frame) (h : Follows crc wire put d d') :
    Tracks crc wire put (enqueueFrame (loggedLink crc) d now f)
      (enqueueFrame fifoLink d' now f) := by
  by_cases hdown : d.disconnected=true ∨ d.linkFd=none
  · have hleft : Daemon.enqueueFrame (loggedLink crc) d now f=d := if_pos hdown
    have hright : Daemon.enqueueFrame fifoLink d' now f=d' :=
      if_pos (by rwa [← h.disconnected,← h.linkFd])
    rw [hleft,hright]
    exact .inr h
  · have hleft : Daemon.enqueueFrame (loggedLink crc) d now f=setLinkWriteInterest
        {d with txq := (loggedLink crc).enqueue d.txq f, lastTx := some now} true := if_neg hdown
    have hright : Daemon.enqueueFrame fifoLink d' now f=setLinkWriteInterest
        {d' with txq := fifoLink.enqueue d'.txq f, lastTx := some now} true :=
      if_neg (by rwa [← h.disconnected,← h.linkFd])
    have hqueued : Tracks crc wire put {d with txq := sendAll (loggedLink crc) d.txq [f]}
        {d' with txq := sendAll fifoLink d'.txq [f]} := h.queued h.twins
    rw [hleft,hright]
    apply hqueued.bind
      (f := fun d => setLinkWriteInterest {d with lastTx := some now} true)
      (g := fun d => setLinkWriteInterest {d with lastTx := some now} true)
    · intro d hlost
      exact (dropped_kept crc).interest true
        ((dropped_kept crc).core hlost rfl rfl rfl rfl rfl rfl)
    · intro d d' h
      right
      cases h with
      | intro hc hw hf hq hm => exact interest true (.intro hc hw hf hq hm)

theorem connectChannels (now : Instant) (h : Follows crc wire put d d') :
    Tracks crc wire put (connectChannels (loggedLink crc) d now)
      (connectChannels fifoLink d' now) :=
  touch_tracks now (h.eachChannel (fun _ => ⟨.onLinkConnect,Io.idle⟩))

theorem onLinkUp (now : Instant) (h : Follows crc wire put d d') :
    Tracks crc wire put (onLinkUp (loggedLink crc) d now) (onLinkUp fifoLink d' now) := by
  unfold Daemon.onLinkUp
  rw [← h.linkUp]
  split_ifs
  · exact .inr h
  · have hup : Follows crc wire put {d with linkUp := true} {d' with linkUp := true} := by
      cases h with
      | intro hc hw hf hq hm => exact .intro hc hw hf hq hm
    exact hup.connectChannels now

/-- Before a frame reaches its channel, the two may pause differently. -/
theorem routeFrame (now : Instant) (io : Io) (f : Frame) (h : Follows crc wire put d d') :
    Tracks crc wire put (routeFrame (loggedLink crc) d now io f)
      (routeFrame fifoLink d' now io f) := by
  have hbp : Follows crc wire put
      (if f.ftype=fData ∨ f.ftype=fTdata then Daemon.checkBpHigh (loggedLink crc) d else d)
      (if f.ftype=fData ∨ f.ftype=fTdata then Daemon.checkBpHigh fifoLink d' else d') := by
    split_ifs
    · exact h.checkBpHigh
    · exact h
  exact touch_tracks now (hbp.callChannel f.channel ⟨.onFrame f.ftype f.payload,io⟩)

theorem dispatchFrame (now : Instant) (io : Io) (f : Frame) (h : Follows crc wire put d d') :
    Tracks crc wire put (dispatchFrame (loggedLink crc) d now io f)
      (dispatchFrame fifoLink d' now io f) := by
  have hconnect : ∀d : Daemon Logged,d.txq.dropped≠[] →
      (Daemon.connectChannels (loggedLink crc) d now).txq.dropped≠[] := fun d hlost =>
    (dropped_kept crc).touch now ((dropped_kept crc).each (fun _ => trivial) hlost)
  unfold Daemon.dispatchFrame
  split_ifs with hping hpong hhello hack
  · exact h.enqueueFrame now (controlFrame fPong)
  · exact .inr h
  · apply (h.enqueueFrame now (controlFrame fAck)).bind
      (f := fun d => if d.linkUp then Daemon.connectChannels (loggedLink crc) d now
        else Daemon.onLinkUp (loggedLink crc) d now)
      (g := fun d => if d.linkUp then Daemon.connectChannels fifoLink d now
        else Daemon.onLinkUp fifoLink d now)
    · intro d hlost
      unfold Daemon.onLinkUp
      split_ifs
      · exact hconnect d hlost
      · exact hconnect _ hlost
    · intro d d' h
      rw [← h.linkUp]
      split_ifs
      · exact h.connectChannels now
      · exact h.onLinkUp now
  · exact h.onLinkUp now
  · exact h.routeFrame now io f

theorem receive (now : Instant) (io : Io) (f : Frame) (h : Follows crc wire put d d') :
    Tracks crc wire put (receive (loggedLink crc) d now io f) (receive fifoLink d' now io f) := by
  have hrx : Follows crc wire put {d with lastRx := some now} {d' with lastRx := some now} := by
    cases h with
    | intro hc hw hf hq hm => exact .intro hc hw hf hq hm
  by_cases hfd : d.linkFd=none
  · rw [Daemon.receive,if_pos hfd,Daemon.receive,if_pos (h.linkFd ▸ hfd)]
    exact .inr h
  · rw [Daemon.receive,if_neg hfd,Daemon.receive,if_neg (h.linkFd ▸ hfd)]
    exact hrx.dispatchFrame now io f

theorem channelEvent (now : Instant) (token : Token) (readable writable : Bool) (io : Io)
    (h : Follows crc wire put d d') :
    Tracks crc wire put (channelEvent (loggedLink crc) d now token readable writable io)
      (channelEvent fifoLink d' now token readable writable io) := by
  unfold Daemon.channelEvent
  cases channelIdForToken token with
  | none => exact .inr h
  | some id =>
    exact (h.callChannel id ⟨.handleEvent token readable writable,io⟩).bind
      (f := fun d => Daemon.touch (loggedLink crc) (Daemon.checkBpHigh (loggedLink crc) d) now)
      (g := fun d => Daemon.touch fifoLink (Daemon.checkBpHigh fifoLink d) now)
      (fun _ hlost => (dropped_kept crc).touch now ((dropped_kept crc).checkBpHigh hlost))
      (fun _ _ h => .inr (h.checkBpHigh.touch now))

/-- A link that is opened starts with nothing on it. -/
theorem openLink (now : Instant) (dev : Option RawFd) (h : Follows crc [] [] d d') :
    Tracks crc [] [] (openLink (loggedLink crc) d now dev) (openLink fifoLink d' now dev) := by
  cases h with
  | @intro sent q m bp hc hw hf hq hm =>
    cases dev with
    | none => exact .inr (.intro hc hw hf hq hm)
    | some fd =>
      by_cases hclean : (Daemon.openLink (loggedLink crc) d now (some fd)).txq.dropped=[]
      · have hhello := hq.reset.enqueue (controlFrame fHello) hclean
        have hkept : (Daemon.openLink (loggedLink crc) d now (some fd)).channels=d.channels := by
          simp only [Daemon.openLink]
        have hopen : Follows crc [] [] (Daemon.openLink (loggedLink crc) d now (some fd))
            ((Daemon.openLink (loggedLink crc) d now (some fd)).withQueue
              (fifoLink.enqueue (fifoLink.reset q) (controlFrame fHello)) m false) :=
          .intro (fun hd => absurd hd Bool.false_ne_true) (fun _ => rfl)
            (List.forall_mem_nil _) hhello (by rwa [hkept])
        exact .inr hopen
      · exact .inl hclean

theorem closeLink (now : Instant) (h : Follows crc wire put d d') :
    Tracks crc wire put (closeLink (loggedLink crc) d now) (closeLink fifoLink d' now) := by
  unfold Daemon.closeLink
  rw [← h.disconnected]
  split_ifs
  · exact .inr h
  · have hreset : Follows crc wire put
        {d with disconnected := true, linkUp := false, linkFd := none
                txq := (loggedLink crc).reset d.txq}
        {d' with disconnected := true, linkUp := false, linkFd := none
                 txq := fifoLink.reset d'.txq} := by
      cases h with
      | intro hc hw hf hq hm =>
        exact .intro (fun _ => rfl) (fun hfd => absurd rfl hfd) hf hq.reset hm
    have hresumed := hreset.paused (resumeAll_paused (loggedLink crc) _)
      (resumeAll_paused fifoLink _)
    apply (hresumed.eachChannel (fun _ => ⟨.onLinkDisconnect,Io.idle⟩)).bind
      (f := fun d => d.scheduleReopen now) (g := fun d => d.scheduleReopen now)
    · exact fun _ hlost => hlost
    · intro d d' h
      right
      cases h with
      | intro hc hw hf hq hm => exact .intro hc hw hf hq hm

theorem disarmIfEmpty (h : Follows crc wire put d d') :
    Follows crc wire put (disarmIfEmpty (loggedLink crc) d) (disarmIfEmpty fifoLink d') := by
  unfold Daemon.disarmIfEmpty
  rw [h.isEmpty]
  split_ifs
  · exact h.interest false
  · exact h

theorem resumeIfLow (h : Follows crc wire put d d') :
    Follows crc wire put (resumeIfLow (loggedLink crc) d) (resumeIfLow fifoLink d') :=
  h.paused (resumeIfLow_paused _ d) (resumeIfLow_paused _ d')

theorem armIfQueued (later : Instant) (h : Follows crc wire put d d') :
    Follows crc wire put (armIfQueued (loggedLink crc) d later)
      (armIfQueued fifoLink d' later) := by
  unfold Daemon.armIfQueued
  rw [h.isEmpty]
  split_ifs
  · exact h
  · cases h with
    | intro hc hw hf hq hm => exact interest true (.intro hc hw hf hq hm)

/-- What leaves the timers is the same on both sides. -/
theorem tickKeepalive (now later : Instant) (h : Follows crc wire put d d') :
    Tracks crc wire put (tickKeepalive (loggedLink crc) d now later)
      (tickKeepalive fifoLink d' now later) := by
  have hrx : d.lastRx=d'.lastRx ∧ d.lastTx=d'.lastTx := by
    cases h with
    | intro hc hw hf hq hm => exact ⟨rfl,rfl⟩
  unfold Daemon.tickKeepalive
  rw [h.isEmpty,h.disconnected,h.linkUp,hrx.1,hrx.2]
  split_ifs
  · exact .inr h
  · exact h.closeLink later
  · exact h.enqueueFrame later (controlFrame fPing)
  · exact .inr h

theorem reopenIfDue (now later : Instant) (dev : Option RawFd) (h : Follows crc wire put d d')
    (hdown : d.linkFd=none → wire=[] ∧ put=[]) :
    Tracks crc wire put (reopenIfDue (loggedLink crc) d now later dev)
      (reopenIfDue fifoLink d' now later dev) := by
  have hat : d.reopenAt=d'.reopenAt := by
    cases h with
    | intro hc hw hf hq hm => rfl
  unfold Daemon.reopenIfDue
  rw [← h.disconnected,← hat]
  split_ifs with hdue
  · obtain ⟨rfl,rfl⟩ := hdown (h.closed hdue.1)
    exact h.openLink later dev
  · exact .inr h

theorem loopHead (now later : Instant) (dev : Option RawFd) (ios : UInt8 → Io)
    (h : Follows crc wire put d d') (hdown : d.linkFd=none → wire=[] ∧ put=[]) :
    Tracks crc wire put (loopHead (loggedLink crc) d now later dev ios)
      (loopHead fifoLink d' now later dev ios) := by
  have k := dropped_kept crc
  have hclose : ∀d : Daemon Logged,d.txq.dropped≠[] →
      (Daemon.closeLink (loggedLink crc) d later).txq.dropped≠[] := by
    intro d hlost
    cases hd : d.disconnected with
    | true =>
      rw [Daemon.closeLink,if_pos hd]
      exact hlost
    | false =>
      rw [closeLink_txq (loggedLink crc) hd]
      exact hlost
  have hping : ∀d : Daemon Logged,d.txq.dropped≠[] →
      (Daemon.enqueueFrame (loggedLink crc) d later (controlFrame fPing)).txq.dropped≠[] := by
    intro d hlost
    unfold Daemon.enqueueFrame
    split_ifs
    · exact hlost
    · exact k.interest true (sendAll_dropped [controlFrame fPing] hlost)
  have hka : Tracks crc wire put
      (Daemon.tickKeepalive (loggedLink crc)
        (Daemon.reopenIfDue (loggedLink crc) d now later dev) now later)
      (Daemon.tickKeepalive fifoLink (Daemon.reopenIfDue fifoLink d' now later dev) now later) :=
    (h.reopenIfDue now later dev hdown).bind
      (f := fun d => Daemon.tickKeepalive (loggedLink crc) d now later)
      (g := fun d => Daemon.tickKeepalive fifoLink d now later)
      (fun _ hlost => Kept.tickKeepalive hlost hclose hping)
      (fun _ _ h => h.tickKeepalive now later)
  have hticks := hka.bind
    (f := fun d => Daemon.eachChannel (loggedLink crc) d (fun id => ⟨.tick now,ios id⟩))
    (g := fun d => Daemon.eachChannel fifoLink d (fun id => ⟨.tick now,ios id⟩))
    (fun _ hlost => k.each (fun _ => trivial) hlost) (fun _ _ h => h.eachChannel _)
  apply hticks.bind (f := fun d => Daemon.armIfQueued (loggedLink crc) d later)
    (g := fun d => Daemon.armIfQueued fifoLink d later)
  · intro d hlost
    unfold Daemon.armIfQueued
    split_ifs
    · exact hlost
    · exact k.interest true hlost
  · exact fun _ _ h => .inr (h.armIfQueued later)

/-- A write takes bytes on one side and frames on the other. -/
theorem linkWrite (now : Instant) (w : WriteResult) (h : Follows crc wire put d d') :
    ∃w',Tracks crc (wire++written (d.viewed Logged.queue) (.turn (.send now w)))
        (put++d'.puts (.send now w'))
      (linkWrite (loggedLink crc) d now w) (linkWrite fifoLink d' now w') := by
  cases h with
  | @intro sent q m bp hc hw hf hq hm =>
    obtain ⟨w',sent',hx,hq',hres⟩ := hq.drain w
    refine ⟨w',?_⟩
    by_cases hfd : d.linkFd=none
    · have hsilent : written (d.viewed Logged.queue) (.turn (.send now w))=[] := if_pos hfd
      have hsilent' : (d.withQueue q m bp).puts (.send now w')=[] := if_pos hfd
      have hsame : Daemon.linkWrite fifoLink (d.withQueue q m bp) now w'=d.withQueue q m bp :=
        if_pos hfd
      rw [hsilent,hsilent',List.append_nil,List.append_nil,hsame,Daemon.linkWrite,if_pos hfd]
      exact .inr (.intro hc hw hf hq hm)
    · have hbytes : written (d.viewed Logged.queue) (.turn (.send now w))=
          (d.txq.queue.drainToFd w).written := if_neg hfd
      have hframes : (d.withQueue q m bp).puts (.send now w')=q.take (w'.getD 0) := if_neg hfd
      have hdrained : Follows crc (wire++(d.txq.queue.drainToFd w).written)
          (put++q.take (w'.getD 0)) {d with txq := ((loggedLink crc).drain d.txq w).1}
          {d.withQueue q m bp with txq := (fifoLink.drain q w').1} := by
        refine .intro hc (fun hfd => ?_) (fun f hmem => ?_) hq' hm
        · rw [hw hfd,List.append_assoc,hx,encodeFrames_append,List.append_assoc]
        · rcases List.mem_append.mp hmem with hmem|hmem
          · exact hf f hmem
          · exact hq.fits f (List.mem_of_mem_take hmem)
      have hfd' : ¬(d.withQueue q m bp).linkFd=none := hfd
      rw [hbytes,hframes,Daemon.linkWrite,if_neg hfd,Daemon.linkWrite,if_neg hfd']
      change Tracks crc _ _ (if ((loggedLink crc).drain d.txq w).2=none then _ else _)
        (if (fifoLink.drain q w').2=none then _ else _)
      rw [hres]
      split_ifs
      · exact hdrained.closeLink now
      · exact .inr hdrained.resumeIfLow.disarmIfEmpty

theorem restart (now : Instant) (ios : UInt8 → Io) (h : Follows crc wire put d d') :
    Follows crc wire put (new (loggedLink crc) (d.channels.fresh ios) now)
      (new fifoLink (d'.channels.fresh ios) now) := by
  cases h with
  | intro hc hw hf hq hm =>
    exact .intro (fun _ => rfl) (fun hfd => absurd rfl hfd) hf (.new crc) (hm.fresh ios)

/-- Nothing was put yet on a link that is not open. -/
theorem closedDown (h : Follows crc wire put d d') (hfd : d.linkFd=none) :
    Follows crc [] [] d d' := by
  cases h with
  | intro hc hw hf hq hm =>
    exact .intro hc (fun hopen => absurd hfd hopen) (List.forall_mem_nil _) hq hm

theorem start (now : Instant) (dev : Option RawFd) (h : Follows crc wire put d d')
    (hdown : d.linkFd=none → wire=[] ∧ put=[]) :
    Tracks crc wire put (turn (loggedLink crc) d (.start now dev))
      (turn fifoLink d' (.start now dev)) := by
  simp only [turn]
  rw [← h.disconnected]
  split_ifs with hd
  · obtain ⟨rfl,rfl⟩ := hdown (h.closed hd)
    exact h.openLink now dev
  · exact .inr h

theorem readError (now : Instant) (h : Follows crc wire put d d') :
    Tracks crc wire put (turn (loggedLink crc) d (.readError now))
      (turn fifoLink d' (.readError now)) := by
  by_cases hfd : d.linkFd=none
  · have hleft : turn (loggedLink crc) d (.readError now)=d := if_pos hfd
    have hright : turn fifoLink d' (.readError now)=d' := if_pos (h.linkFd ▸ hfd)
    rw [hleft,hright]
    exact .inr h
  · have hleft : turn (loggedLink crc) d (.readError now)=Daemon.closeLink (loggedLink crc) d now :=
      if_neg hfd
    have hright : turn fifoLink d' (.readError now)=Daemon.closeLink fifoLink d' now :=
      if_neg (h.linkFd ▸ hfd)
    rw [hleft,hright]
    exact h.closeLink now

/-- Every turn on the ring is one on the frames, for some answer to its write. -/
theorem loop (op : LoopOp WriteResult) (h : Follows crc wire put d d')
    (hdown : d.linkFd=none → wire=[] ∧ put=[]) :
    ∃w,Tracks crc (wire++written (d.viewed Logged.queue) op) (put++loopPuts d' (op.answered w))
      (loop (loggedLink crc) d op) (loop fifoLink d' (op.answered w)) := by
  cases op with
  | receive now io f => exact ⟨none,.quiet (h.receive now io f)⟩
  | turn op =>
    cases op with
    | start now dev => exact ⟨none,.quiet (h.start now dev hdown)⟩
    | head now later dev ios => exact ⟨none,.quiet (h.loopHead now later dev ios hdown)⟩
    | event now token readable writable io =>
      exact ⟨none,.quiet (h.channelEvent now token readable writable io)⟩
    | send now w => exact h.linkWrite now w
    | readError now => exact ⟨none,.quiet (h.readError now)⟩
    | restart now ios => exact ⟨none,.quiet (.inr (h.restart now ios))⟩

/-- What has arrived of what was written are the frames that were put, in whatever pieces. -/
theorem delivers (h : Follows crc wire put d d') (hfd : d.linkFd≠none) {cs : List (List UInt8)}
    (hcs : cs.flatten=wire) : (FrameParser.new.feedAll crc cs).frames=put := by
  cases h with
  | intro hc hw hf hq hm => exact hq.decodes hf (hcs.trans (hw hfd))

end Follows

end Follows

section Refines

variable (crc : List UInt8 → UInt32)

/-- The daemon over the frames follows the one over the ring, which has refused nothing. -/
def Refines (s : Daemon TxQueue × List UInt8) (s' : Daemon (List Frame) × List Frame) : Prop :=
  ∃d : Daemon Logged,s.1=d.viewed Logged.queue ∧ Follows crc s.2 s'.2 d s'.1

variable {crc}

/-- A link that is not open carries nothing, on either side. -/
theorem written_closed {d : Daemon TxQueue} (hfd : d.linkFd=none) (op : LoopOp WriteResult) :
    written d op=[] := by
  unfold written
  split
  · exact if_pos hfd
  · rfl

theorem loopPuts_closed {d : Daemon (List Frame)} (hfd : d.linkFd=none)
    (op : LoopOp (Option Nat)) : loopPuts d op=[] := by
  cases op with
  | receive now io f => rfl
  | turn op =>
    simp only [loopPuts]
    unfold puts
    split
    · exact if_pos hfd
    · rfl

theorem Follows.step {d : Daemon Logged} {wire : List UInt8} {s' : Daemon (List Frame) × List Frame}
    {op : LoopOp WriteResult} (h : Follows crc wire s'.2 d s'.1)
    (hclean : (Daemon.loop (loggedLink crc) d op).txq.dropped=[]) :
    ∃w,Follows crc (ringStep crc (d.viewed Logged.queue,wire) op).1.2
      (fifoStep s' (op.answered w)).1.2 (Daemon.loop (loggedLink crc) d op)
      (fifoStep s' (op.answered w)).1.1 := by
  by_cases hfd : d.linkFd=none
  · have hfd' : s'.1.linkFd=none := h.linkFd ▸ hfd
    have hview : (d.viewed Logged.queue).linkFd=none := hfd
    obtain ⟨w,hw⟩ := Follows.loop op (h.closedDown hfd) (fun _ => ⟨rfl,rfl⟩)
    rw [written_closed hview,loopPuts_closed hfd',List.append_nil,List.append_nil] at hw
    refine ⟨w,?_⟩
    simp only [ringStep,fifoStep,if_pos hview,if_pos hfd']
    exact hw.resolve_left (not_not.mpr hclean)
  · have hfd' : ¬s'.1.linkFd=none := h.linkFd ▸ hfd
    have hview : ¬(d.viewed Logged.queue).linkFd=none := hfd
    obtain ⟨w,hw⟩ := Follows.loop op h (fun hdown => absurd hdown hfd)
    refine ⟨w,?_⟩
    simp only [ringStep,fifoStep,if_neg hview,if_neg hfd']
    exact hw.resolve_left (not_not.mpr hclean)

theorem Follows.run {d : Daemon Logged} {wire : List UInt8} (s' : Daemon (List Frame) × List Frame)
    {ops : List (LoopOp WriteResult)} (h : Follows crc wire s'.2 d s'.1)
    (hroom : Always (logStep crc) HasRoom d ops) :
    ∃ops',List.Forall₂ (fun op op' => ∃w,op'=LoopOp.answered w op) ops ops' ∧
      Refines crc (after (ringStep crc) (d.viewed Logged.queue,wire) ops)
        (after fifoStep s' ops') := by
  induction ops generalizing d wire s' with
  | nil => exact ⟨[],.nil,d,rfl,h⟩
  | cons op ops ih =>
    obtain ⟨w,hnext⟩ := h.step (hroom.1.forwards crc h.clean).1
    obtain ⟨ops',hops,hrun⟩ := ih _ hnext hroom.2
    rw [loop_viewed (logged_views crc) d op] at hrun
    exact ⟨op.answered w::ops',.cons ⟨w,rfl⟩ hops,hrun⟩

variable (crc)

/-- Every run on the ring whose turns find the room they ask for is a run on the frames, with the
same turns but for what the writes are answered; and what has arrived over the open link are the
frames that were put on it. -/
theorem run_refines (channels : ChannelMap) (now : Instant) {ops : List (LoopOp WriteResult)}
    (h : Always (logStep crc) HasRoom (new (loggedLink crc) channels now) ops) :
    ∃ops',List.Forall₂ (fun op op' => ∃w,op'=LoopOp.answered w op) ops ops' ∧
      Refines crc (after (ringStep crc) (new (txLink crc) channels now,[]) ops)
        (after fifoStep (new fifoLink channels now,[]) ops') ∧
      ((after (ringStep crc) (new (txLink crc) channels now,[]) ops).1.linkFd≠none →
        ∀cs : List (List UInt8),
          cs.flatten=(after (ringStep crc) (new (txLink crc) channels now,[]) ops).2 →
          (FrameParser.new.feedAll crc cs).frames=
            (after fifoStep (new fifoLink channels now,[]) ops').2) := by
  have hnew : Follows crc [] [] (new (loggedLink crc) channels now) (new fifoLink channels now) :=
    .intro (fun _ => rfl) (fun hfd => absurd rfl hfd) (List.forall_mem_nil _) (.new crc)
      (.refl channels)
  obtain ⟨ops',hops,hrun⟩ := Follows.run (new fifoLink channels now,[]) hnew h
  have hview : (new (loggedLink crc) channels now).viewed Logged.queue=
      new (txLink crc) channels now := rfl
  rw [hview] at hrun
  refine ⟨ops',hops,hrun,fun hfd cs hcs => ?_⟩
  obtain ⟨d,hd,hfollows⟩ := hrun
  rw [hd] at hfd
  exact hfollows.delivers hfd hcs

end Refines

end Daemon

end Serialmux.EventLoop

import Serialmux.Windlass.Bridge

namespace Serialmux.Windlass

open Framework

/-- The frames that the framer finds in a byte stream, however it is cut into reads. -/
def framesIn (bs : List UInt8) : List (List UInt8) := (KlipperFramer.decoder.drain .new bs).1

theorem KlipperFramer.move_wf (s : KlipperFramer) (xs : List UInt8)
    (m : Move KlipperFramer (List UInt8)) (f : List UInt8) (h : decoder.move s xs=some m)
    (hf : m.out=some f) : IsKlipperFrame f := by
  obtain ⟨s',out,n⟩ := m
  subst hf
  exact (move_item h).1

namespace Relay

variable {κ : Type} [DecidableEq κ]

/-- The frames of a port that entered the USB writer's queue. -/
def framesOf (r : Relay κ) (k : κ) : List (List UInt8) :=
  (r.entered.filter (·.1=k)).map (·.2.frame)

/-- The frames that entered it under a channel's id. -/
def framesOn (r : Relay κ) (c : UInt8) : List (List UInt8) :=
  (r.entered.filter (·.2.chId=c)).map (·.2.frame)

/-- Every port's frames enter the queue in order and under the id of its channel, and while the USB
writer is there none is left out. -/
structure Forwards (r : Relay κ) : Prop where
  sent : r.entered.map (·.2)=r.usbWriter.sent
  order : ∀k p,r.ports k=some p → r.framesOf k <+: p.reader.given ∧
    (r.usbWriter.alive=true → r.framesOf k=p.reader.given)
  known : ∀e∈r.entered,(r.ports e.1).isSome=true ∧ e.2.chId=r.chOf e.1 ∧ IsKlipperFrame e.2.frame

/-- Every port has been handed a piece of what came from the USB for its channel, from the place
`since` on; the port that the channel is routed to has been handed all of it. -/
structure Hands (route : UInt8 → Option κ) (since : κ → Nat) (r : Relay κ) : Prop where
  routed : ∀c k p,route c=some k → r.ports k=some p → r.chOf k=c
  piece : ∀k p,r.ports k=some p →
    since k≤(r.arrived (r.chOf k)).length ∧
      p.writer.sent <+: (r.arrived (r.chOf k)).drop (since k)
  whole : ∀c k p,route c=some k → r.ports k=some p → p.writer.alive=true →
    p.writer.sent=(r.arrived c).drop (since k)

section Steps

variable {r : Relay κ} {k : κ} {p p' : Port} {route : UInt8 → Option κ} {since : κ → Nat}

theorem setPort_self (r : Relay κ) (k : κ) (p : Port) : (r.setPort k p).ports k=some p :=
  Function.update_self ..

theorem setPort_other (r : Relay κ) (p : Port) {j k : κ} (h : j≠k) :
    (r.setPort k p).ports j=r.ports j := Function.update_of_ne h ..

/-- What holds of the changed port and of the others holds of every port. -/
theorem setPort_forall {P : κ → Port → Prop} (hself : P k p') (hother : ∀j q,j≠k →
    r.ports j=some q → P j q) : ∀j q,(r.setPort k p').ports j=some q → P j q := by
  intro j q hq
  by_cases hj : j=k
  · subst hj
    rw [setPort_self] at hq
    obtain rfl := Option.some.inj hq
    exact hself
  · rw [setPort_other r p' hj] at hq
    exact hother j q hj hq

theorem setPort_isSome (r : Relay κ) (p' : Port) (j : κ) (h : (r.ports j).isSome=true) :
    ((r.setPort k p').ports j).isSome=true := by
  by_cases hj : j=k
  · rw [hj,setPort_self]
    rfl
  · rwa [setPort_other r p' hj]

namespace Forwards

theorem framesOf_none (h : Forwards r) (hk : r.ports k=none) :
    r.framesOf k=[] := by
  refine List.map_eq_nil_iff.mpr (List.filter_eq_nil_iff.mpr ?_)
  intro e he hd
  have hknown := (h.known e he).1
  rw [of_decide_eq_true hd,hk] at hknown
  cases hknown

/-- A port whose reader hands out nothing changes nothing. -/
theorem setPort (h : Forwards r) (hp : r.ports k=some p)
    (hg : p'.reader.given=p.reader.given) : Forwards (r.setPort k p') where
  sent := h.sent
  order := by
    refine setPort_forall ?_ (fun j q _ hq => h.order j q hq)
    rw [hg]
    exact h.order k p hp
  known e he := ⟨setPort_isSome r p' e.1 (h.known e he).1,(h.known e he).2⟩

/-- A step of the USB writer, which may end. -/
theorem writer {w : WriterTask (TunnelCodec.encode · [])} (h : Forwards r)
    (hs : w.sent=r.usbWriter.sent) (ha : w.alive=true → r.usbWriter.alive=true) :
    Forwards {r with usbWriter := w} :=
  ⟨h.sent.trans hs.symm,fun k p hp => ⟨(h.order k p hp).1,fun hw => (h.order k p hp).2 (ha hw)⟩,
    h.known⟩

theorem forward (h : Forwards r) (hp : r.ports k=some p) : Forwards (r.forward k p) := by
  obtain ⟨-,-,hgiven,-⟩ := p.reader.next_eq KlipperFramer.codec KlipperFramer.codec_implements
  unfold Relay.forward
  generalize p.reader.next KlipperFramer.codec KlipperFramer.codec_implements=res at *
  obtain ⟨item,reader⟩ := res
  cases item with
  | none => exact h.setPort hp (by simpa using hgiven)
  | some frame =>
    have hg : reader.given=p.reader.given++[frame] := hgiven
    dsimp only
    split
    · rename_i usbTx hsend
      obtain ⟨halive,-,hsent,-⟩ := WriterTask.send_eq hsend
      have hold := (h.order k p hp).2 halive
      have hown : ∀j,Relay.framesOf {r.setPort k {p with reader := reader} with
            usbWriter := usbTx
            entered := r.entered++[(k,⟨r.chOf k,frame⟩)]} j=
          r.framesOf j++if k=j then [frame] else [] := by
        intro j
        simp only [Relay.framesOf,List.filter_append,List.map_append,List.filter_singleton]
        by_cases hj : k=j <;> simp [hj]
      refine ⟨?_,?_,?_⟩
      · rw [hsent,← h.sent,List.map_append]
        rfl
      · refine setPort_forall (r := r) ?_ ?_
        · rw [hown,if_pos rfl,hold,hg]
          exact ⟨List.prefix_refl _,fun _ => rfl⟩
        · intro j q hj hq
          rw [hown,if_neg (Ne.symm hj),List.append_nil]
          exact ⟨(h.order j q hq).1,fun _ => (h.order j q hq).2 halive⟩
      · intro e he
        rcases List.mem_append.mp he with he|he
        · exact ⟨setPort_isSome r _ e.1 (h.known e he).1,(h.known e he).2⟩
        · obtain rfl := List.mem_singleton.mp he
          refine ⟨?_,rfl,?_⟩
          · exact congrArg Option.isSome (setPort_self r k {p with reader := reader})
          · exact reader.given_forall KlipperFramer.move_wf frame (by simp [hg])
    · rename_i hsend
      -- The USB writer has ended, so nothing more is promised.
      have hdead := mt (WriterTask.send_isSome_iff r.usbWriter ⟨r.chOf k,frame⟩).mpr (by simp [hsend])
      refine ⟨h.sent,?_,?_⟩
      · refine setPort_forall ?_ (fun j q _ hq => h.order j q hq)
        have hstop : reader.stop.given=p.reader.given++[frame] := hg
        refine ⟨?_,fun ha => absurd ha hdead⟩
        rw [hstop]
        exact (h.order k p hp).1.trans (List.prefix_append _ _)
      · exact fun e he => ⟨setPort_isSome r _ e.1 (h.known e he).1,(h.known e he).2⟩

theorem hand (h : Forwards r) (k : κ) (frame : List UInt8) : Forwards (r.hand k frame) := by
  unfold Relay.hand
  split
  · exact h
  · rename_i p hp
    split
    · exact h.setPort hp rfl
    · exact h

theorem demux (h : Forwards r) : Forwards (r.demux route) := by
  unfold Relay.demux
  generalize r.usbReader.next TunnelCodec.codec TunnelCodec.codec_implements=res
  obtain ⟨item,reader⟩ := res
  have hr : Forwards {r with usbReader := reader} := ⟨h.sent,h.order,h.known⟩
  cases item with
  | none => exact hr
  | some tf =>
    dsimp only
    split
    · exact hr
    · exact hr.hand _ _

theorem step (h : Forwards r) (op : RelayOp κ) : Forwards (r.step route op) := by
  unfold Relay.step
  split_ifs
  · exact h
  have honPort : ∀k (f : Port → Relay κ),(∀p,r.ports k=some p → Forwards (f p)) →
      Forwards (r.onPort k f) := by
    intro k f hf
    unfold onPort
    split
    · exact h
    · rename_i p hp
      exact hf p hp
  cases op with
  | read k bs =>
    refine honPort k _ (fun p hp => ?_)
    obtain ⟨-,hg,-⟩ := p.reader.read_eq bs
    exact h.setPort hp hg
  | forward k => exact honPort k _ (fun p hp => h.forward hp)
  | readEnd k => exact honPort k _ (fun p hp => h.setPort hp rfl)
  | feed k => exact honPort k _ (fun p hp => h.setPort hp rfl)
  | write k n => exact honPort k _ (fun p hp => h.setPort hp rfl)
  | writeEnd k => exact honPort k _ (fun p hp => h.setPort hp rfl)
  | usbFeed => exact h.writer (WriterTask.feed_sent _) (fun ha => by simpa using ha)
  | usbWriteEnd => exact h.writer rfl (fun ha => absurd ha Bool.false_ne_true)
  | usbFrame => exact h.demux
  | usbEnd => exact ⟨h.sent,h.order,h.known⟩

theorem usbWrite (h : Forwards r) (n : Nat) : Forwards (r.usbWrite n).1 := by
  unfold Relay.usbWrite
  split_ifs
  · exact h
  · exact h.writer (WriterTask.write_sent _ n) (fun ha => by simpa using ha)

theorem usbRead (h : Forwards r) (link : List UInt8) (n : Nat) : Forwards (r.usbRead link n).1 :=
  ⟨h.sent,h.order,h.known⟩

end Forwards

namespace Hands

theorem routed_setPort (h : ∀c j q,route c=some j → r.ports j=some q → r.chOf j=c)
    (hp : r.ports k=some p) (c : UInt8) (j : κ) (q : Port) (hr : route c=some j)
    (hq : (r.setPort k p').ports j=some q) : r.chOf j=c := by
  by_cases hj : j=k
  · subst hj
    exact h c j p hr hp
  · rw [setPort_other r p' hj] at hq
    exact h c j q hr hq

/-- A port whose writer is sent nothing changes nothing. -/
theorem setPort (h : Hands route since r) (hp : r.ports k=some p)
    (hs : p'.writer.sent=p.writer.sent) (ha : p'.writer.alive=true → p.writer.alive=true) :
    Hands route since (r.setPort k p') where
  routed := routed_setPort h.routed hp
  piece := by
    refine setPort_forall ?_ (fun j q _ hq => h.piece j q hq)
    rw [hs]
    exact h.piece k p hp
  whole c := by
    have hall : ∀j q,(r.setPort k p').ports j=some q → route c=some j → q.writer.alive=true →
        q.writer.sent=(r.arrived c).drop (since j) := by
      refine setPort_forall ?_ (fun j q _ hq hr hw => h.whole c j q hr hq hw)
      intro hr hw
      rw [hs]
      exact h.whole c k p hr hp (ha hw)
    exact fun j q hr hq hw => hall j q hq hr hw

theorem forward (h : Hands route since r) (hp : r.ports k=some p) :
    Hands route since (r.forward k p) := by
  unfold Relay.forward
  generalize p.reader.next KlipperFramer.codec KlipperFramer.codec_implements=res
  obtain ⟨item,reader⟩ := res
  have hset : ∀reader',Hands route since (r.setPort k {p with reader := reader'}) :=
    fun _ => h.setPort hp rfl id
  cases item with
  | none => exact hset reader
  | some frame =>
    dsimp only
    split
    · exact ⟨(hset reader).routed,(hset reader).piece,(hset reader).whole⟩
    · exact hset reader.stop

/-- The demux hands a frame that has arrived to the port its channel is routed to. -/
theorem demux (h : Hands route since r) : Hands route since (r.demux route) := by
  obtain ⟨-,-,hgiven,-⟩ := r.usbReader.next_eq TunnelCodec.codec TunnelCodec.codec_implements
  unfold Relay.demux
  generalize r.usbReader.next TunnelCodec.codec TunnelCodec.codec_implements=res at *
  obtain ⟨item,reader⟩ := res
  have harrived : ∀c,Relay.arrived {r with usbReader := reader} c=
      r.arrived c++(item.toList.filter (·.chId=c)).map (·.frame) := by
    intro c
    have hg : reader.given=r.usbReader.given++item.toList := hgiven
    simp only [Relay.arrived,hg,List.filter_append,List.map_append]
  have hpiece : ∀j q,r.ports j=some q →
      since j≤(Relay.arrived {r with usbReader := reader} (r.chOf j)).length ∧
        q.writer.sent <+: (Relay.arrived {r with usbReader := reader} (r.chOf j)).drop (since j) := by
    intro j q hq
    obtain ⟨hle,hpre⟩ := h.piece j q hq
    rw [harrived]
    refine ⟨Nat.le_trans hle (by simp),?_⟩
    rw [List.drop_append_of_le_length hle]
    exact hpre.trans (List.prefix_append _ _)
  cases item with
  | none =>
    refine ⟨h.routed,hpiece,?_⟩
    intro c j q hr hq hw
    rw [harrived]
    simpa using h.whole c j q hr hq hw
  | some tf =>
    -- The frame is of no interest to the port of another channel.
    have hother : ∀c j q,c≠tf.chId → route c=some j → r.ports j=some q → q.writer.alive=true →
        q.writer.sent=(Relay.arrived {r with usbReader := reader} c).drop (since j) := by
      intro c j q hc hr hq hw
      rw [harrived]
      simpa [Ne.symm hc] using h.whole c j q hr hq hw
    have hsame : Relay.arrived {r with usbReader := reader} tf.chId=r.arrived tf.chId++[tf.frame] := by
      rw [harrived]
      simp
    have hdropped : (∀j q,route tf.chId=some j → r.ports j=some q → q.writer.alive=false) →
        Hands route since {r with usbReader := reader} := by
      intro hdead
      refine ⟨h.routed,hpiece,?_⟩
      intro c j q hr hq hw
      by_cases hc : c=tf.chId
      · subst hc
        rw [hdead j q hr hq] at hw
        cases hw
      · exact hother c j q hc hr hq hw
    dsimp only
    split
    · rename_i hnone
      exact hdropped (fun j q hr => by simp [hnone] at hr)
    · rename_i k hroute
      unfold Relay.hand
      dsimp only
      split
      · rename_i hnone
        refine hdropped (fun j q hr hq => ?_)
        obtain rfl := Option.some.inj (hroute.symm.trans hr)
        rw [hnone] at hq
        cases hq
      · rename_i p hp
        split
        · rename_i w hsend
          obtain ⟨ha,-,hsent,-⟩ := WriterTask.send_eq hsend
          have hchan := h.routed tf.chId k p hroute hp
          have hle := (h.piece k p hp).1
          rw [hchan] at hle
          have hwhole : w.sent=(Relay.arrived {r with usbReader := reader} tf.chId).drop (since k) := by
            rw [hsent,hsame,List.drop_append_of_le_length hle,h.whole tf.chId k p hroute hp ha]
          refine ⟨routed_setPort h.routed hp,?_,?_⟩
          · refine setPort_forall ?_ (fun j q _ hq => hpiece j q hq)
            have hsame : w.sent=
                (Relay.arrived {r with usbReader := reader} (r.chOf k)).drop (since k) := by
              rw [hchan]
              exact hwhole
            exact ⟨(hpiece k p hp).1,⟨[],(List.append_nil _).trans hsame⟩⟩
          · intro c
            have hall : ∀j q,(Relay.setPort {r with usbReader := reader} k
                {p with writer := w}).ports j=some q → route c=some j → q.writer.alive=true →
                q.writer.sent=(Relay.arrived {r with usbReader := reader} c).drop (since j) := by
              refine setPort_forall ?_ ?_
              · intro hr _
                obtain rfl : tf.chId=c := hchan.symm.trans (h.routed c k p hr hp)
                exact hwhole
              · intro j q hj hq hr hw
                refine hother c j q ?_ hr hq hw
                rintro rfl
                exact hj (Option.some.inj (hr.symm.trans hroute))
            exact fun j q hr hq hw => hall j q hq hr hw
        · rename_i hsend
          refine hdropped (fun j q hr hq => ?_)
          obtain rfl := Option.some.inj (hroute.symm.trans hr)
          rw [hp] at hq
          obtain rfl := Option.some.inj hq
          have hdead := mt (WriterTask.send_isSome_iff p.writer tf.frame).mpr (by simp [hsend])
          simpa using hdead

theorem step (h : Hands route since r) (op : RelayOp κ) : Hands route since (r.step route op) := by
  unfold Relay.step
  split_ifs
  · exact h
  have honPort : ∀k (f : Port → Relay κ),(∀p,r.ports k=some p → Hands route since (f p)) →
      Hands route since (r.onPort k f) := by
    intro k f hf
    unfold onPort
    split
    · exact h
    · rename_i p hp
      exact hf p hp
  cases op with
  | read k bs => exact honPort k _ (fun p hp => h.setPort hp rfl id)
  | forward k => exact honPort k _ (fun p hp => h.forward hp)
  | readEnd k => exact honPort k _ (fun p hp => h.setPort hp rfl id)
  | feed k =>
    exact honPort k _ (fun p hp => h.setPort hp p.writer.feed_sent (fun ha => by simpa using ha))
  | write k n =>
    exact honPort k _
      (fun p hp => h.setPort hp (p.writer.write_sent n) (fun ha => by simpa using ha))
  | writeEnd k =>
    exact honPort k _ (fun p hp => h.setPort hp rfl (fun h => absurd h Bool.false_ne_true))
  | usbFeed => exact ⟨h.routed,h.piece,h.whole⟩
  | usbWriteEnd => exact ⟨h.routed,h.piece,h.whole⟩
  | usbFrame => exact h.demux
  | usbEnd => exact ⟨h.routed,h.piece,h.whole⟩

omit [DecidableEq κ] in
theorem usbWrite (h : Hands route since r) (n : Nat) : Hands route since (r.usbWrite n).1 := by
  unfold Relay.usbWrite
  split_ifs
  · exact h
  · exact ⟨h.routed,h.piece,h.whole⟩

omit [DecidableEq κ] in
theorem usbRead (h : Hands route since r) (link : List UInt8) (n : Nat) :
    Hands route since (r.usbRead link n).1 := by
  have harrived : (r.usbRead link n).1.arrived=r.arrived := by
    funext c
    simp only [arrived,Relay.usbRead,(r.usbReader.pull_eq link n).2]
  refine ⟨h.routed,?_,?_⟩
  · intro k p hp
    rw [harrived]
    exact h.piece k p hp
  · intro c k p hr hp hw
    rw [harrived]
    exact h.whole c k p hr hp hw

end Hands

/-- What no operation changes: the channels, the number of ports, and what a port that no channel is
routed to has been sent. -/
structure Frames (route : UInt8 → Option κ) (r r' : Relay κ) : Prop where
  chOf : r'.chOf=r.chOf
  ports : ∀k,(r'.ports k).isSome=(r.ports k).isSome
  sent : ∀k,(∀c,route c≠some k) →
    (r'.ports k).map (·.writer.sent)=(r.ports k).map (·.writer.sent)

/-- A step of a task leaves the bytes on the link alone too. -/
structure Keeps (route : UInt8 → Option κ) (r r' : Relay κ) : Prop extends Frames route r r' where
  taken : r'.usbReader.taken=r.usbReader.taken
  written : r'.usbWriter.written=r.usbWriter.written

namespace Keeps

omit [DecidableEq κ] in
theorem of_ports {r' : Relay κ} (hc : r'.chOf=r.chOf) (hp : r'.ports=r.ports)
    (ht : r'.usbReader.taken=r.usbReader.taken) (hw : r'.usbWriter.written=r.usbWriter.written) :
    Keeps route r r' :=
  ⟨⟨hc,fun _ => by rw [hp],fun _ _ => by rw [hp]⟩,ht,hw⟩

theorem setPort (hp : r.ports k=some p)
    (hs : (∀c,route c≠some k) → p'.writer.sent=p.writer.sent) :
    Keeps route r (r.setPort k p') where
  chOf := rfl
  ports j := by
    by_cases hj : j=k
    · rw [hj,setPort_self,hp]
      rfl
    · rw [setPort_other r p' hj]
  sent j hr := by
    by_cases hj : j=k
    · subst hj
      rw [setPort_self,hp,Option.map_some,Option.map_some,hs hr]
    · rw [setPort_other r p' hj]
  taken := rfl
  written := rfl

theorem forward (hp : r.ports k=some p) : Keeps route r (r.forward k p) := by
  unfold Relay.forward
  generalize p.reader.next KlipperFramer.codec KlipperFramer.codec_implements=res
  obtain ⟨item,reader⟩ := res
  have hset : ∀reader',Keeps route r (r.setPort k {p with reader := reader'}) :=
    fun _ => setPort hp (fun _ => rfl)
  cases item with
  | none => exact hset reader
  | some frame =>
    dsimp only
    split
    · rename_i usbTx hsend
      obtain ⟨-,-,-,hw⟩ := WriterTask.send_eq hsend
      exact ⟨⟨rfl,(hset reader).ports,(hset reader).sent⟩,rfl,hw⟩
    · exact hset reader.stop

theorem demux : Keeps route r (r.demux route) := by
  obtain ⟨-,htaken,-,-⟩ := r.usbReader.next_eq TunnelCodec.codec TunnelCodec.codec_implements
  unfold Relay.demux
  generalize r.usbReader.next TunnelCodec.codec TunnelCodec.codec_implements=res at *
  obtain ⟨item,reader⟩ := res
  have hsame : Keeps route r {r with usbReader := reader} := .of_ports rfl rfl htaken rfl
  cases item with
  | none => exact hsame
  | some tf =>
    dsimp only
    split
    · exact hsame
    · rename_i k hroute
      unfold Relay.hand
      dsimp only
      split
      · exact hsame
      · rename_i p hp
        split
        · rename_i w hsend
          have hset : Keeps route r (r.setPort k {p with writer := w}) :=
            setPort hp (fun hr => absurd hroute (hr tf.chId))
          exact ⟨⟨rfl,hset.ports,hset.sent⟩,htaken,rfl⟩
        · exact hsame

theorem step (op : RelayOp κ) : Keeps route r (r.step route op) := by
  unfold Relay.step
  split_ifs
  · exact .of_ports rfl rfl rfl rfl
  have honPort : ∀k (f : Port → Relay κ),(∀p,r.ports k=some p → Keeps route r (f p)) →
      Keeps route r (r.onPort k f) := by
    intro k f hf
    unfold onPort
    split
    · exact .of_ports rfl rfl rfl rfl
    · rename_i p hp
      exact hf p hp
  cases op with
  | read k bs => exact honPort k _ (fun p hp => setPort hp (fun _ => rfl))
  | forward k => exact honPort k _ (fun p hp => forward hp)
  | readEnd k => exact honPort k _ (fun p hp => setPort hp (fun _ => rfl))
  | feed k => exact honPort k _ (fun p hp => setPort hp (fun _ => p.writer.feed_sent))
  | write k n => exact honPort k _ (fun p hp => setPort hp (fun _ => p.writer.write_sent n))
  | writeEnd k => exact honPort k _ (fun p hp => setPort hp (fun _ => rfl))
  | usbFeed => exact .of_ports rfl rfl rfl (WriterTask.feed_written _)
  | usbWriteEnd => exact .of_ports rfl rfl rfl rfl
  | usbFrame => exact demux
  | usbEnd => exact .of_ports rfl rfl rfl rfl

end Keeps

omit [DecidableEq κ] in
theorem usbWrite_eq (route : UInt8 → Option κ) (r : Relay κ) (n : Nat) :
    Frames route r (r.usbWrite n).1 ∧ (r.usbWrite n).1.usbReader.taken=r.usbReader.taken ∧
      (r.usbWrite n).1.usbWriter.written=r.usbWriter.written++(r.usbWrite n).2 := by
  unfold Relay.usbWrite
  split_ifs
  · exact ⟨⟨rfl,fun _ => rfl,fun _ _ => rfl⟩,rfl,(List.append_nil _).symm⟩
  · exact ⟨⟨rfl,fun _ => rfl,fun _ _ => rfl⟩,rfl,r.usbWriter.write_written n⟩

omit [DecidableEq κ] in
theorem usbRead_eq (route : UInt8 → Option κ) (r : Relay κ) (link : List UInt8) (n : Nat) :
    Frames route r (r.usbRead link n).1 ∧
      (r.usbRead link n).1.usbReader.taken++(r.usbRead link n).2=r.usbReader.taken++link ∧
      (r.usbRead link n).1.usbWriter.written=r.usbWriter.written :=
  ⟨⟨rfl,fun _ => rfl,fun _ _ => rfl⟩,r.usbReader.pull_taken link n,rfl⟩

end Steps

section Link

-- What one relay writes to the link and another reads from it.
variable {κ' : Type} {r : Relay κ} {r' : Relay κ'} {link : List UInt8}

theorem Forwards.codes (h : Forwards r) : ∀tf∈r.usbWriter.sent,∀ys,
    TunnelCodec.decoder.move () (TunnelCodec.encode tf []++ys)=
      some ⟨(),some tf,(TunnelCodec.encode tf []).length⟩ := by
  intro tf htf ys
  rw [← h.sent] at htf
  obtain ⟨e,he,rfl⟩ := List.mem_map.mp htf
  exact TunnelCodec.move_frame e.2.chId ⟨e.2.frame,(h.known e he).2.2⟩ ys

theorem framesOn_eq (h : Forwards r) (c : UInt8) :
    r.framesOn c=(r.usbWriter.sent.filter (·.chId=c)).map (·.frame) := by
  rw [framesOn,← h.sent,List.filter_map,List.map_map]
  rfl

/-- What has arrived of a channel is the beginning of what was forwarded. -/
theorem arrived_prefix (h : Forwards r) (hlink : r'.usbReader.taken++link=r.usbWriter.written)
    (c : UInt8) : r'.arrived c <+: r.framesOn c := by
  have htaken : r'.usbReader.taken <+: r.usbWriter.written := ⟨link,hlink⟩
  have hgiven := given_prefix_sent id rfl h.codes (htaken.trans r.usbWriter.writtenPrefix)
  rw [List.map_id] at hgiven
  rw [framesOn_eq h]
  exact (hgiven.filter _).map _

theorem arrived_eq (h : Forwards r) (hlink : r'.usbReader.taken=r.usbWriter.written)
    (hidle : r.usbWriter.Idle) (hr : r'.usbReader.readable=false) (c : UInt8) :
    r'.arrived c=r.framesOn c := by
  have hgiven := given_eq_sent id rfl h.codes (hlink.trans hidle.written_eq) hr
  rw [List.map_id] at hgiven
  rw [framesOn_eq h,arrived,hgiven]

end Link

end Relay

end Serialmux.Windlass

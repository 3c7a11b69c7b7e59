import Serialmux.Framework.Interleave
import Serialmux.Windlass.Transparent

namespace Serialmux.Windlass

open Framework

namespace Host

/-- The connections of a channel follow one another: a later one is handed nothing that came in
before it was installed, so nothing that an earlier one was handed. -/
structure Serves (h : Host) : Prop where
  forwards : h.relay.Forwards
  hands : h.relay.Hands h.slot h.since
  fresh : ∀n,h.next≤n → h.relay.ports n=none
  slotted : ∀c k,h.slot c=some k → k < h.next
  newest : ∀c k n,h.slot c=some k → k < n → (h.relay.ports n).isSome=true → h.relay.chOf n≠c
  apart : ∀m n p,m < n → h.relay.ports m=some p → (h.relay.ports n).isSome=true →
    h.relay.chOf m=h.relay.chOf n → h.since m+p.writer.sent.length ≤ h.since n

variable {h : Host}

theorem Serves.new (channels : List UInt8) : Serves (new channels) where
  forwards := ⟨rfl,fun _ _ h => (by cases h),fun _ h => absurd h List.not_mem_nil⟩
  hands := ⟨fun _ _ _ h => (by cases h),fun _ _ h => (by cases h),fun _ _ _ h => (by cases h)⟩
  fresh _ _ := rfl
  slotted _ _ h := by cases h
  newest _ _ _ h := by cases h
  apart _ _ _ _ h := by cases h

/-- A port that is routed to has none after it on its channel. -/
theorem Serves.unrouted (hs : Serves h) {m n : Nat} (hmn : m < n)
    (hm : (h.relay.ports m).isSome=true) (hn : (h.relay.ports n).isSome=true)
    (hc : h.relay.chOf m=h.relay.chOf n) : ∀c,h.slot c≠some m := by
  intro c hslot
  obtain ⟨p,hp⟩ := Option.isSome_iff_exists.mp hm
  have hchan := hs.hands.routed c m p hslot hp
  exact hs.newest c m n hslot hmn hn (hc.symm.trans hchan)

theorem Serves.relay {r : Relay Nat} (hs : Serves h) (hf : r.Forwards)
    (hh : r.Hands h.slot h.since) (hfr : Relay.Frames h.slot h.relay r) :
    Serves {h with relay := r} where
  forwards := hf
  hands := hh
  fresh n hn := by
    have hnone := hfr.ports n
    rw [hs.fresh n hn] at hnone
    simpa using hnone
  slotted := hs.slotted
  newest c k n hslot hkn hn := by
    rw [hfr.ports] at hn
    rw [hfr.chOf]
    exact hs.newest c k n hslot hkn hn
  apart m n p hmn hp hn hc := by
    rw [hfr.ports] at hn
    rw [hfr.chOf] at hc
    have hm : (h.relay.ports m).isSome=true := by
      rw [← hfr.ports,hp]
      rfl
    have hsent := hfr.sent m (hs.unrouted hmn hm hn hc)
    obtain ⟨q,hq⟩ := Option.isSome_iff_exists.mp hm
    rw [hp,hq,Option.map_some,Option.map_some,Option.some.injEq] at hsent
    rw [hsent]
    exact hs.apart m n q hmn hq hn hc

/-- A connection that is installed comes after all that has arrived for its channel so far. -/
theorem Serves.install (hs : Serves h) (c : UInt8) : Serves (h.install c) := by
  have hold : ∀n,n < h.next → (h.install c).relay.ports n=h.relay.ports n ∧
      (h.install c).relay.chOf n=h.relay.chOf n ∧
      (h.install c).since n=h.since n := by
    intro n hn
    have hne := Nat.ne_of_lt hn
    exact ⟨Function.update_of_ne hne ..,Function.update_of_ne hne ..,Function.update_of_ne hne ..⟩
  have hnew : (h.install c).relay.ports h.next=some .new ∧ (h.install c).relay.chOf h.next=c ∧
      (h.install c).since h.next=(h.relay.arrived c).length :=
    ⟨Function.update_self ..,Function.update_self ..,Function.update_self ..⟩
  have hlate : ∀n,h.next < n → (h.install c).relay.ports n=none := by
    intro n hn
    have hne : n≠h.next := Nat.ne_of_gt hn
    exact (Function.update_of_ne hne ..).trans (hs.fresh n (Nat.le_of_lt hn))
  have hport : ∀n,((h.install c).relay.ports n).isSome=true → n < h.next ∨ n=h.next := by
    intro n hn
    by_contra hgt
    rw [hlate n (by omega)] at hn
    cases hn
  have hslot : ∀c' k,(h.install c).slot c'=some k →
      c'=c ∧ k=h.next ∨ c'≠c ∧ k < h.next ∧ h.slot c'=some k := by
    intro c' k hk
    by_cases hc : c'=c
    · subst hc
      have hself : (h.install c').slot c'=some h.next := Function.update_self ..
      exact .inl ⟨rfl,(Option.some.inj (hself.symm.trans hk)).symm⟩
    · have hother : (h.install c).slot c'=h.slot c' := Function.update_of_ne hc ..
      rw [hother] at hk
      exact .inr ⟨hc,hs.slotted c' k hk,hk⟩
  refine ⟨⟨hs.forwards.sent,?_,?_⟩,⟨?_,?_,?_⟩,?_,?_,?_,?_⟩
  · intro n p hp
    rcases hport n (by rw [hp]; rfl) with hn|rfl
    · rw [(hold n hn).1] at hp
      exact hs.forwards.order n p hp
    · have hnone := hs.forwards.framesOf_none (hs.fresh _ (Nat.le_refl _))
      obtain rfl := Option.some.inj (hnew.1.symm.trans hp)
      exact ⟨⟨[],(List.append_nil _).trans hnone⟩,fun _ => hnone⟩
  · intro e he
    obtain ⟨hsome,hrest⟩ := hs.forwards.known e he
    have hlt : e.1 < h.next := by
      by_contra hge
      rw [hs.fresh e.1 (Nat.le_of_not_lt hge)] at hsome
      cases hsome
    rw [(hold e.1 hlt).1,(hold e.1 hlt).2.1]
    exact ⟨hsome,hrest⟩
  · intro c' k p hr hp
    rcases hslot c' k hr with ⟨rfl,rfl⟩|⟨-,hk,hr⟩
    · exact hnew.2.1
    · rw [(hold k hk).1] at hp
      rw [(hold k hk).2.1]
      exact hs.hands.routed c' k p hr hp
  · intro n p hp
    rcases hport n (by rw [hp]; rfl) with hn|rfl
    · rw [(hold n hn).1] at hp
      rw [(hold n hn).2.1,(hold n hn).2.2]
      exact hs.hands.piece n p hp
    · obtain rfl := Option.some.inj (hnew.1.symm.trans hp)
      rw [hnew.2.1,hnew.2.2]
      exact ⟨Nat.le_refl _,List.nil_prefix⟩
  · intro c' k p hr hp hw
    rcases hslot c' k hr with ⟨rfl,rfl⟩|⟨-,hk,hr⟩
    · obtain rfl := Option.some.inj (hnew.1.symm.trans hp)
      rw [hnew.2.2]
      exact List.drop_length.symm
    · rw [(hold k hk).1] at hp
      rw [(hold k hk).2.2]
      exact hs.hands.whole c' k p hr hp hw
  · intro n hn
    exact hlate n hn
  · intro c' k hr
    rcases hslot c' k hr with ⟨-,rfl⟩|⟨-,hk,-⟩
    · exact Nat.lt_succ_self _
    · exact Nat.lt_succ_of_lt hk
  · intro c' k n hr hkn hn
    rcases hslot c' k hr with ⟨rfl,rfl⟩|⟨hc,hk,hr⟩
    · rw [hlate n hkn] at hn
      cases hn
    · rcases hport n hn with hlt|rfl
      · rw [(hold n hlt).1] at hn
        rw [(hold n hlt).2.1]
        exact hs.newest c' k n hr hkn hn
      · rw [hnew.2.1]
        exact Ne.symm hc
  · intro m n p hmn hp hn hc
    have hm : m < h.next := by
      rcases hport n hn with hlt|rfl
      · exact Nat.lt_trans hmn hlt
      · exact hmn
    rw [(hold m hm).1] at hp
    rw [(hold m hm).2.1] at hc
    rw [(hold m hm).2.2]
    rcases hport n hn with hlt|rfl
    · rw [(hold n hlt).1] at hn
      rw [(hold n hlt).2.1] at hc
      rw [(hold n hlt).2.2]
      exact hs.apart m n p hmn hp hn hc
    · obtain ⟨hle,hpre⟩ := hs.hands.piece m p hp
      rw [hnew.2.1] at hc
      rw [hc] at hle hpre
      have hlen := hpre.length_le
      rw [List.length_drop] at hlen
      rw [hnew.2.2]
      omega

theorem Serves.clear (hs : Serves h) (c : UInt8) :
    Serves {h with slot := Function.update h.slot c none} := by
  have hslot : ∀c' k,Function.update h.slot c none c'=some k → h.slot c'=some k := by
    intro c' k hk
    by_cases hc : c'=c
    · rw [hc,Function.update_self] at hk
      cases hk
    · rwa [Function.update_of_ne hc] at hk
  refine ⟨hs.forwards,⟨?_,hs.hands.piece,?_⟩,hs.fresh,?_,?_,hs.apart⟩
  · exact fun c' k p hr => hs.hands.routed c' k p (hslot c' k hr)
  · exact fun c' k p hr => hs.hands.whole c' k p (hslot c' k hr)
  · exact fun c' k hr => hs.slotted c' k (hslot c' k hr)
  · exact fun c' k n hr => hs.newest c' k n (hslot c' k hr)

theorem Serves.task (hs : Serves h) (task : UInt8 → Accepting) :
    Serves {h with task := task} :=
  ⟨hs.forwards,hs.hands,hs.fresh,hs.slotted,hs.newest,hs.apart⟩

theorem Serves.step (hs : Serves h) (op : HostOp) : Serves (h.step op) := by
  unfold Host.step
  split_ifs
  · exact hs
  cases op with
  | accept c =>
    dsimp only
    split_ifs
    · exact hs.task _
    · exact hs
  | install c =>
    dsimp only
    split_ifs
    · exact hs.install c
    · exact hs
  | select c =>
    dsimp only
    split
    · split_ifs
      · exact hs.task _
      · exact hs
    · exact hs
  | clear c =>
    dsimp only
    split_ifs
    · exact (hs.clear c).task _
    · exact hs
  | own op => exact hs.relay (hs.forwards.step op) (hs.hands.step op) (Relay.Keeps.step op).toFrames

end Host

namespace Bridge

/-- The invariant of the whole bridge. -/
structure Sound (b : Bridge) : Prop where
  serves : b.host.Serves
  forwards : b.exporter.Forwards
  hands : b.exporter.Hands some (fun _ => 0)
  own : b.exporter.chOf=id
  down : b.exporter.usbReader.taken++b.down=b.host.relay.usbWriter.written
  up : b.host.relay.usbReader.taken++b.up=b.exporter.usbWriter.written

variable {b : Bridge}

theorem Sound.new (channels uarts : List UInt8) : Sound (new channels uarts) := by
  have hport : ∀c p,(runExporter uarts).ports c=some p → p=.new := by
    intro c p hp
    have hite : (if c∈uarts then some Port.new else none)=some p := hp
    split_ifs at hite
    exact (Option.some.inj hite).symm
  refine ⟨.new channels,⟨rfl,?_,fun _ h => absurd h List.not_mem_nil⟩,⟨?_,?_,?_⟩,rfl,rfl,rfl⟩
  · intro c p hp
    obtain rfl := hport c p hp
    exact ⟨List.nil_prefix,fun _ => rfl⟩
  · intro c k p hr _
    exact (Option.some.inj hr).symm
  · intro c p hp
    obtain rfl := hport c p hp
    exact ⟨Nat.zero_le _,List.nil_prefix⟩
  · intro c k p _ hp _
    obtain rfl := hport k p hp
    rfl

theorem host_link (h : Host) (op : HostOp) :
    (h.step op).relay.usbReader.taken=h.relay.usbReader.taken ∧
      (h.step op).relay.usbWriter.written=h.relay.usbWriter.written := by
  unfold Host.step
  split_ifs
  · exact ⟨rfl,rfl⟩
  cases op with
  | accept c =>
    dsimp only
    split_ifs <;> exact ⟨rfl,rfl⟩
  | install c =>
    dsimp only
    split_ifs <;> exact ⟨rfl,rfl⟩
  | select c =>
    dsimp only
    split
    · split_ifs <;> exact ⟨rfl,rfl⟩
    · exact ⟨rfl,rfl⟩
  | clear c =>
    dsimp only
    split_ifs <;> exact ⟨rfl,rfl⟩
  | own op =>
    have hk : Relay.Keeps h.slot h.relay (h.relay.step h.slot op) := Relay.Keeps.step op
    exact ⟨hk.taken,hk.written⟩

theorem Sound.step (hb : Sound b) (op : BridgeOp) : Sound (b.step op).1 := by
  obtain ⟨serves,forwards,hands,own,down,up⟩ := hb
  cases op with
  | host op =>
    obtain ⟨ht,hw⟩ := host_link b.host op
    exact ⟨serves.step op,forwards,hands,own,down.trans hw.symm,(congrArg (·++b.up) ht).trans up⟩
  | exporter op =>
    have hk : Relay.Keeps some b.exporter (b.exporter.step some op) := Relay.Keeps.step op
    exact ⟨serves,forwards.step op,hands.step op,hk.chOf.trans own,
      (congrArg (·++b.down) hk.taken).trans down,up.trans hk.written.symm⟩
  | hostWrites n =>
    obtain ⟨hf,ht,hw⟩ := Relay.usbWrite_eq b.host.slot b.host.relay n
    have hlink : b.exporter.usbReader.taken++(b.down++(b.host.relay.usbWrite n).2)=
        (b.host.relay.usbWrite n).1.usbWriter.written := by
      rw [← List.append_assoc,down,hw]
    exact ⟨serves.relay (serves.forwards.usbWrite n) (serves.hands.usbWrite n) hf,forwards,hands,
      own,hlink,(congrArg (·++b.up) ht).trans up⟩
  | exporterReads n =>
    obtain ⟨hf,ht,hw⟩ := Relay.usbRead_eq some b.exporter b.down n
    exact ⟨serves,forwards.usbRead b.down n,hands.usbRead b.down n,hf.chOf.trans own,ht.trans down,
      up.trans hw.symm⟩
  | exporterWrites n =>
    obtain ⟨hf,ht,hw⟩ := Relay.usbWrite_eq some b.exporter n
    have hlink : b.host.relay.usbReader.taken++(b.up++(b.exporter.usbWrite n).2)=
        (b.exporter.usbWrite n).1.usbWriter.written := by
      rw [← List.append_assoc,up,hw]
    exact ⟨serves,forwards.usbWrite n,hands.usbWrite n,hf.chOf.trans own,
      (congrArg (·++b.down) ht).trans down,hlink⟩
  | hostReads n =>
    obtain ⟨hf,ht,hw⟩ := Relay.usbRead_eq b.host.slot b.host.relay b.up n
    exact ⟨serves.relay (serves.forwards.usbRead b.up n) (serves.hands.usbRead b.up n) hf,forwards,
      hands,own,down.trans hw.symm,ht.trans up⟩

theorem sound_after (channels uarts : List UInt8) (ops : List BridgeOp) :
    Sound (after step (new channels uarts) ops) :=
  after_of_step (P := Sound) step (fun _ op hb => hb.step op) (Sound.new channels uarts) ops

/-- Nothing is on its way from one process to the other. -/
structure Settled {κ κ' : Type} (r : Relay κ) (link : List UInt8) (r' : Relay κ') : Prop where
  writer : r.usbWriter.Idle
  link : link=[]
  reader : r'.usbReader.readable=false

theorem framesOf_channel (hs : b.host.relay.Forwards) (c : UInt8) (n : Nat) :
    ((b.host.relay.entered.filter (·.2.chId=c)).filter (·.1=n)).map (·.2.frame)=
      if b.host.relay.chOf n=c then b.host.relay.framesOf n else [] := by
  rw [List.filter_filter]
  split_ifs with hc
  · rw [Relay.framesOf]
    congr 1
    refine List.filter_congr ?_
    intro e he
    by_cases hn : e.1=n
    · simp [hn,(hs.known e he).2.1,hc]
    · simp [hn]
  · refine List.map_eq_nil_iff.mpr (List.filter_eq_nil_iff.mpr ?_)
    intro e he
    have hch := (hs.known e he).2.1
    simp only [Bool.and_eq_true,decide_eq_true_iff,not_and]
    rintro hn hcc
    exact hc (by rw [← hn,← hch,hcc])

/-- Klipper → MCU, over every run of the two processes: what a UART is given is the beginning of the
complete frames that the framer finds in what the connections of its channel sent, each connection's
in order, one after the other; and all of them once nothing is on the way. -/
theorem commands_arrive (channels uarts : List UInt8) (ops : List BridgeOp) {c : UInt8} {p : Port}
    (hp : (after step (new channels uarts) ops).exporter.ports c=some p) :
    let b := after step (new channels uarts) ops
    ∃(sent : Nat → List (List UInt8)) (queue : List (List UInt8)),
      Interleaves sent queue ∧ p.writer.written <+: queue.flatten ∧
      (∀n,sent n≠[] → ∃q,b.host.relay.ports n=some q ∧ b.host.relay.chOf n=c ∧
        sent n <+: framesIn q.reader.taken) ∧
      (Settled b.host.relay b.down b.exporter → p.writer.Idle →
        p.writer.written=queue.flatten ∧
        ∀n q,b.host.relay.ports n=some q → b.host.relay.chOf n=c → q.reader.readable=false →
          sent n=framesIn q.reader.taken) := by
  intro b
  have hs := sound_after channels uarts ops
  have hfor := hs.serves.forwards
  obtain ⟨-,hpre⟩ := hs.hands.piece c p hp
  have hself : b.exporter.chOf c=c := congrFun hs.own c
  rw [hself,List.drop_zero] at hpre
  have harr := Relay.arrived_prefix hfor hs.down c
  let l := (b.host.relay.entered.filter (·.2.chId=c)).map (fun e => (e.1,e.2.frame))
  have hsent : ∀n,(l.filter (·.1=n)).map (·.2)=
      if b.host.relay.chOf n=c then b.host.relay.framesOf n else [] := by
    intro n
    rw [← framesOf_channel hfor c n,List.filter_map,List.map_map]
    rfl
  have hqueue : l.map (·.2)=b.host.relay.framesOn c := by
    rw [List.map_map]
    rfl
  refine ⟨_,_,Interleaves.of_tagged l,?_,?_,?_⟩
  · rw [hqueue]
    refine p.writer.writtenPrefix.trans ?_
    rw [List.flatMap_id]
    exact (hpre.trans harr).flatten
  · intro n hn
    rw [hsent] at hn ⊢
    split_ifs at hn ⊢ with hc
    · have hport : (b.host.relay.ports n).isSome=true := by
        obtain ⟨x,hx⟩ := List.exists_mem_of_ne_nil _ hn
        obtain ⟨e,he,-⟩ := List.mem_map.mp hx
        obtain ⟨he,hen⟩ := List.mem_filter.mp he
        rw [← of_decide_eq_true hen]
        exact (hfor.known e he).1
      obtain ⟨q,hq⟩ := Option.isSome_iff_exists.mp hport
      exact ⟨q,hq,hc,(hfor.order n q hq).1.trans q.reader.given_prefix⟩
    · exact absurd rfl hn
  · intro hset hidle
    refine ⟨?_,?_⟩
    · have hwhole := hs.hands.whole c c p rfl hp hidle.1
      have hlink := hs.down
      rw [hset.link,List.append_nil] at hlink
      rw [hidle.written_eq,hwhole,List.drop_zero,List.flatMap_id,hqueue,
        Relay.arrived_eq hfor hlink hset.writer hset.reader]
    · intro n q hq hc hr
      rw [hsent,if_pos hc,(hfor.order n q hq).2 hset.writer.1,q.reader.given_eq hr]
      rfl

/-- A connection that sends a frame and hangs up, and the next one, which sends another. -/
def twoConnections : List BridgeOp :=
  [.host (.accept 3),.host (.install 3),
    .host (.own (.read 0 [0x7E,5,0x10,0,0,0x7E])),.host (.own (.forward 0)),
    .host (.own (.forward 0)),.host (.own (.readEnd 0)),.host (.select 3),.host (.clear 3),
    .host (.accept 3),.host (.install 3),
    .host (.own (.read 1 [0x7E,6,0x11,9,0,0,0x7E])),.host (.own (.forward 1)),
    .host (.own .usbFeed),.hostWrites 6,.host (.own .usbFeed),.hostWrites 4,.hostWrites 3,
    .exporterReads 20,.exporter .usbFrame,.exporter .usbFrame,.exporter .usbFrame,
    .exporter (.feed 3),.exporter (.write 3 9),.exporter (.feed 3),.exporter (.write 3 9)]

theorem commands_arrive_twoConnections :
    ∃p,(after step (new [3] [3]) twoConnections).exporter.ports 3=some p ∧
      p.writer.written=[5,0x10,0,0,0x7E,6,0x11,9,0,0,0x7E] ∧
      ∃(sent : Nat → List (List UInt8)) (queue : List (List UInt8)),Interleaves sent queue ∧
        p.writer.written=queue.flatten := by
  have hwritten : ((after step (new [3] [3]) twoConnections).exporter.ports 3).map
      (fun p => (p.writer.written,p.writer.alive,p.writer.out,p.writer.queue))=
        some ([5,0x10,0,0,0x7E,6,0x11,9,0,0,0x7E],true,[],[]) := by decide +kernel
  obtain ⟨p,hp,hall⟩ := Option.map_eq_some_iff.mp hwritten
  simp only [Prod.mk.injEq] at hall
  obtain ⟨sent,queue,hqueue,-,-,hidle⟩ := commands_arrive [3] [3] twoConnections hp
  have hset := hidle ⟨⟨by decide +kernel,by decide +kernel,by decide +kernel⟩,by decide +kernel,
    by decide +kernel⟩ ⟨hall.2.1,hall.2.2.1,hall.2.2.2⟩
  exact ⟨p,hp,hall.1,sent,queue,hqueue,hset.1⟩

/-- The frames that the framer finds in what the exporter has read from the UART of a channel. -/
def uartFrames (b : Bridge) (c : UInt8) : List (List UInt8) :=
  (b.exporter.ports c).elim [] (fun p => framesIn p.reader.taken)

/-- What was forwarded of a channel is the beginning of what its UART sent. -/
theorem framesOn_uart (hs : Sound b) (c : UInt8) :
    b.exporter.framesOn c <+: b.uartFrames c ∧
      (b.exporter.usbWriter.alive=true →
        (∀u,b.exporter.ports c=some u → u.reader.readable=false) →
        b.exporter.framesOn c=b.uartFrames c) := by
  have hown : b.exporter.framesOn c=b.exporter.framesOf c := by
    rw [Relay.framesOn,Relay.framesOf]
    congr 1
    refine List.filter_congr ?_
    intro e he
    have hch := (hs.forwards.known e he).2.1
    rw [hs.own] at hch
    rw [hch]
    rfl
  rw [hown,uartFrames]
  cases hp : b.exporter.ports c with
  | some p =>
    obtain ⟨hpre,hall⟩ := hs.forwards.order c p hp
    refine ⟨hpre.trans p.reader.given_prefix,?_⟩
    intro ha hu
    exact (hall ha).trans (p.reader.given_eq (hu p rfl))
  | none =>
    rw [hs.forwards.framesOf_none hp]
    exact ⟨List.nil_prefix,fun _ _ => rfl⟩

/-- MCU → Klipper, over every run of the two processes: each connection is given a piece, without
gaps, of the frames that the UART of its channel sent, from the one that was the next to come in when
the connection was installed, and the pieces of connections that follow one another follow one
another. The connection that is installed misses nothing from there on. -/
theorem replies_arrive (channels uarts : List UInt8) (ops : List BridgeOp) {n : Nat} {p : Port}
    (hp : (after step (new channels uarts) ops).host.relay.ports n=some p) :
    let b := after step (new channels uarts) ops
    let replies := (b.uartFrames (b.host.relay.chOf n)).drop (b.host.since n)
    p.writer.sent <+: replies ∧ p.writer.written <+: p.writer.sent.flatten ∧
      (∀m q,m < n → b.host.relay.ports m=some q → b.host.relay.chOf m=b.host.relay.chOf n →
        b.host.since m+q.writer.sent.length ≤ b.host.since n) ∧
      (b.host.slot (b.host.relay.chOf n)=some n → Settled b.exporter b.up b.host.relay →
        p.writer.Idle →
        (∀u,b.exporter.ports (b.host.relay.chOf n)=some u → u.reader.readable=false) →
        p.writer.written=replies.flatten) := by
  intro b replies
  have hs := sound_after channels uarts ops
  obtain ⟨-,hpiece⟩ := hs.serves.hands.piece n p hp
  have harr := (Relay.arrived_prefix hs.forwards hs.up (b.host.relay.chOf n)).trans
    (framesOn_uart hs _).1
  refine ⟨hpiece.trans (harr.drop _),?_,?_,?_⟩
  · have hpre := p.writer.writtenPrefix
    rwa [List.flatMap_id] at hpre
  · intro m q hmn hq hc
    exact hs.serves.apart m n q hmn hq (by rw [hp]; rfl) hc
  · intro hslot hset hidle hu
    have hwhole := hs.serves.hands.whole _ n p hslot hp hidle.1
    have hlink := hs.up
    rw [hset.link,List.append_nil] at hlink
    rw [hidle.written_eq,hwhole,List.flatMap_id,
      Relay.arrived_eq hs.forwards hlink hset.writer hset.reader,
      (framesOn_uart hs _).2 hset.writer.1 hu]

/-- The UART sends a frame to one connection, which hangs up, and then a frame to the next one. -/
def twoListeners : List BridgeOp :=
  [.host (.accept 3),.host (.install 3),
    .exporter (.read 3 [0x7E,5,0x10,0,0,0x7E]),.exporter (.forward 3),.exporter (.forward 3),
    .exporter .usbFeed,.exporterWrites 9,.hostReads 9,.host (.own .usbFrame),
    .host (.own .usbFrame),.host (.own (.feed 0)),.host (.own (.write 0 9)),.host (.own (.readEnd 0)),.host (.select 3),.host (.clear 3),
    .host (.accept 3),.host (.install 3),
    .exporter (.read 3 [6,0x11,9,0,0,0x7E]),.exporter (.forward 3),.exporter (.forward 3),
    .exporter .usbFeed,.exporterWrites 9,.hostReads 9,.host (.own .usbFrame),
    .host (.own .usbFrame),.host (.own (.feed 1)),.host (.own (.write 1 9))]

theorem replies_arrive_twoListeners :
    ∃p,(after step (new [3] [3]) twoListeners).host.relay.ports 1=some p ∧
      p.writer.written=[6,0x11,9,0,0,0x7E] ∧
      p.writer.written=
        (((after step (new [3] [3]) twoListeners).uartFrames 3).drop 1).flatten := by
  have hwritten : ((after step (new [3] [3]) twoListeners).host.relay.ports 1).map
      (fun p => (p.writer.written,p.writer.alive,p.writer.out,p.writer.queue))=
        some ([6,0x11,9,0,0,0x7E],true,[],[]) := by decide +kernel
  have hchan : (after step (new [3] [3]) twoListeners).host.relay.chOf 1=3 := by decide +kernel
  have hsince : (after step (new [3] [3]) twoListeners).host.since 1=1 := by decide +kernel
  have hread : ((after step (new [3] [3]) twoListeners).exporter.ports 3).all
      (fun u => !u.reader.readable)=true := by decide +kernel
  obtain ⟨p,hp,hall⟩ := Option.map_eq_some_iff.mp hwritten
  simp only [Prod.mk.injEq] at hall
  obtain ⟨-,-,-,hidle⟩ := replies_arrive [3] [3] twoListeners hp
  rw [hchan,hsince] at hidle
  have hset := hidle (by decide +kernel)
    ⟨⟨by decide +kernel,by decide +kernel,by decide +kernel⟩,by decide +kernel,by decide +kernel⟩
    ⟨hall.2.1,hall.2.2.1,hall.2.2.2⟩ (fun u hu => by simpa [hu] using hread)
  exact ⟨p,hp,hall.1,hset⟩

end Bridge

end Serialmux.Windlass

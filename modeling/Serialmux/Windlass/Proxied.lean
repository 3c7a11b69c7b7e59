import Serialmux.Framework.Interleave
import Serialmux.Framework.Machine
import Serialmux.Windlass.Hosting

namespace Serialmux.Windlass

open Framework

namespace Proxy

variable {τ : Type} (anchor : Anchor τ)

/-- Both processes are in order, and the link between them holds what one has written and the other
has not read. -/
structure Sound (x : Proxy τ) : Prop where
  host : x.host.Serves
  exporter : x.exporter.Sends
  down : x.exporter.usbReader.taken++x.down=x.host.usbWriter.written
  up : x.host.usbReader.taken++x.up=x.exporter.usbWriter.written
  hostAdmits : x.host.usbWriter.Admits PayloadTunnelFrame.fits
  exporterAdmits : x.exporter.usbWriter.Admits PayloadTunnelFrame.fits

variable {x : Proxy τ}

theorem Sound.new {channels uarts : List UInt8} (hc : ctrlCh∉channels) (hn : uarts.Nodup)
    (hu : ctrlCh∉uarts) : Sound (new channels uarts : Proxy τ) :=
  ⟨.new hc,.new hn hu,rfl,rfl,.new,.new⟩

theorem Sound.step (hs : Sound x) (op : ProxyOp) : Sound (x.step anchor op).1 := by
  obtain ⟨host,exporter,down,up,ha,hb⟩ := hs
  cases op with
  | host op =>
    obtain ⟨ht,hw,hadmits⟩ := x.host.step_link anchor op
    exact ⟨host.step anchor op,exporter,down.trans hw.symm,(congrArg (·++x.up) ht).trans up,
      hadmits ha,hb⟩
  | exporter op =>
    obtain ⟨ht,hw,hadmits⟩ := x.exporter.step_link op
    exact ⟨host,exporter.step op,(congrArg (·++x.down) ht).trans down,up.trans hw.symm,ha,
      hadmits hb⟩
  | hostWrites n =>
    obtain ⟨ht,hw,hadmits⟩ := x.host.usbWrite_link n
    have hlink : x.exporter.usbReader.taken++(x.down++(x.host.usbWrite n).2)=
        (x.host.usbWrite n).1.usbWriter.written := by
      rw [← List.append_assoc,down,hw]
    exact ⟨host.usbWrite n,exporter,hlink,(congrArg (·++x.up) ht).trans up,hadmits ha,hb⟩
  | exporterReads n =>
    obtain ⟨ht,hw⟩ := x.exporter.usbRead_link x.down n
    have hlink : x.host.usbReader.taken++x.up=(x.exporter.usbRead x.down n).1.usbWriter.written := by
      rw [hw]
      exact up
    refine ⟨host,exporter.usbRead x.down n,ht.trans down,hlink,ha,?_⟩
    change (x.exporter.usbRead x.down n).1.usbWriter.Admits _
    rw [hw]
    exact hb
  | exporterWrites n =>
    obtain ⟨ht,hw,hadmits⟩ := x.exporter.usbWrite_link n
    have hlink : x.host.usbReader.taken++(x.up++(x.exporter.usbWrite n).2)=
        (x.exporter.usbWrite n).1.usbWriter.written := by
      rw [← List.append_assoc,up,hw]
    exact ⟨host,exporter.usbWrite n,(congrArg (·++x.down) ht).trans down,hlink,ha,hadmits hb⟩
  | hostReads n =>
    obtain ⟨ht,-⟩ := x.host.usbRead_link x.up n
    exact ⟨host.usbRead x.up n,exporter,down,ht.trans up,ha,hb⟩

theorem sound_after {channels uarts : List UInt8} (hc : ctrlCh∉channels) (hn : uarts.Nodup)
    (hu : ctrlCh∉uarts) (ops : List ProxyOp) :
    Sound (after (step anchor) (new channels uarts) ops) :=
  after_of_step (step anchor) (fun _ op hs => hs.step anchor op) (Sound.new hc hn hu) ops

/-- Nothing is on its way from the writer of one process to the reader of the other. -/
structure Settled (w : PayloadWriter) (link : List UInt8) (r : PayloadReader) : Prop where
  writer : w.Idle
  link : link=[]
  reader : r.readable=false

theorem Settled.given_eq {w : PayloadWriter} {link : List UInt8} {r : PayloadReader}
    (h : Settled w link r) (ha : w.Admits PayloadTunnelFrame.fits)
    (hlink : r.taken++link=w.written) : r.given=w.sent := by
  rw [h.link,List.append_nil] at hlink
  exact PayloadWriter.given_eq ha hlink h.writer h.reader

/-- What the gatherer has been given about a channel is the beginning of the channel's transfer. -/
theorem Sound.gathered_prefix (hs : Sound x) (c : UInt8) :
    ∃done,x.host.gatherer=gatherDictionary x.host.watched done ∧
      done.filter (fun p => mcuChOf p=some c) <+: (x.exporter.dicts c).elim [] (transfer c) ∧
      (Settled x.exporter.usbWriter x.up x.host.usbReader → x.exporter.startup=.running →
        x.host.control=[] →
          done.filter (fun p => mcuChOf p=some c)=(x.exporter.dicts c).elim [] (transfer c)) := by
  obtain ⟨done,hg,hd⟩ := hs.host.gathered
  have hall := hs.exporter.dictionary c
  rw [aboutOf_append] at hall
  refine ⟨done,hg,?_,?_⟩
  · have hdone : done.filter (fun p => mcuChOf p=some c) <+: aboutOf c x.host.usbReader.given := by
      unfold aboutOf
      rw [← hd,List.filter_append]
      exact List.prefix_append _ _
    have hgiven := PayloadWriter.given_prefix hs.exporterAdmits hs.up
    have hsent : aboutOf c x.host.usbReader.given <+: aboutOf c x.exporter.usbWriter.sent :=
      ((hgiven.filter _).map _).filter _
    rw [← hall]
    exact (hdone.trans hsent).trans (List.prefix_append _ _)
  · intro hset hrun hempty
    have hgiven := hset.given_eq hs.exporterAdmits hs.up
    rw [hrun] at hall
    rw [hempty,List.append_nil] at hd
    rw [hd,hgiven,← hall]
    exact (List.append_nil _).symm

/-- Only dictionaries that the exporter has fetched are published. -/
theorem Sound.published (hs : Sound x) {c : UInt8} {d : List UInt8}
    (hd : d∈x.host.gatherer.publishedFor c) : x.exporter.dicts c=some d := by
  obtain ⟨done,hg,hpre,-⟩ := hs.gathered_prefix c
  rw [hg] at hd
  rw [publishedFor_fetched _ c (publishedFor_watched _ _ done hd) done _ hpre] at hd
  split_ifs at hd
  · exact Option.mem_toList.mp hd
  · exact absurd hd List.not_mem_nil

theorem Sound.publishes (hs : Sound x) (hset : Settled x.exporter.usbWriter x.up x.host.usbReader)
    (hrun : x.exporter.startup=.running) (hempty : x.host.control=[]) {c : UInt8}
    (hc : c∈x.host.channels) : x.host.gatherer.publishedFor c=(x.exporter.dicts c).toList := by
  obtain ⟨done,hg,hpre,hall⟩ := hs.gathered_prefix c
  have hw : x.host.watched c=true := decide_eq_true hc
  rw [hg,publishedFor_fetched _ c hw done _ hpre,if_pos (hall hset hrun hempty)]

/-- Over every run of the two processes: each connection is served with the dictionary that was
fetched from the MCU of its own channel; and every dictionary that was fetched is published once the
exporter is up and nothing is on the way. -/
theorem dictionaries_served {channels uarts : List UInt8} (hc : ctrlCh∉channels)
    (hn : uarts.Nodup) (hu : ctrlCh∉uarts) (ops : List ProxyOp) :
    let x := after (step anchor) (new channels uarts) ops
    (∀n cl,x.host.clients n=some cl → x.exporter.dicts cl.chId=some cl.dictionary) ∧
    (∀c d,x.host.task c=.listening d → x.exporter.dicts c=some d) ∧
    (Settled x.exporter.usbWriter x.up x.host.usbReader → x.exporter.startup=.running →
      x.host.control=[] → ∀c∈x.host.channels,
        x.host.gatherer.publishedFor c=(x.exporter.dicts c).toList) := by
  intro x
  have hs := sound_after anchor hc hn hu ops
  refine ⟨?_,?_,?_⟩
  · exact fun n cl hn => hs.published (hs.host.clients n cl hn).called
  · exact fun c d hd => hs.published (hs.host.learned c d hd)
  · exact fun hset hrun hempty c hmem => hs.publishes hset hrun hempty hmem

/-- An MCU's dictionary comes up, a connection sends one command, and the MCU answers. -/
def oneSession : List ProxyOp :=
  [.exporter (.connect (some [7,8])),.exporter .sendFrame,.exporter .sendFrame,.exporter .sendFrame,
    .exporter (.connect none),.exporter .usbRecv,.exporterWrites 9,.exporter .usbRecv,
    .exporterWrites 3,.exporterWrites 9,.hostReads 20,.host .usbFrame,.host .usbFrame,
    .host .usbFrame,.host .gather,.host .gather,.host (.learn 3),.host (.accept 3),
    .host (.conn 0 .register),.host (.conn 0 (.socketRead (some [6,0x10,0x0A,0xD5,0x21,0x7E]))),
    .host (.conn 0 .recv),.host (.conn 0 .send),.host .usbRecv,.hostWrites 2,.hostWrites 9,
    .exporterReads 20,.exporter .usbFrame,.exporter .usbFrame,.exporter (.recv 3),
    .exporter (.transportSend 3),.exporter (.payload 3 [5,6]),.exporter .usbRecv,.exporterWrites 9,
    .hostReads 20,.host .usbFrame,.host .usbFrame]

theorem dictionaries_served_oneSession :
    let x := after (step Connection.commandAnchor) (new [3] [3]) oneSession
    x.exporter.dicts 3=some [7,8] ∧ (x.host.clients 0).map (·.dictionary)=some [7,8] ∧
      x.host.gatherer.publishedFor 3=[[7,8]] := by
  intro x
  obtain ⟨hclients,-,hall⟩ := dictionaries_served Connection.commandAnchor
    (by decide : ctrlCh∉[3]) (by decide : ([3] : List UInt8).Nodup) (by decide) oneSession
  have hcl : (x.host.clients 0).map (fun cl => (cl.chId,cl.dictionary))=some (3,[7,8]) := by
    decide +kernel
  obtain ⟨cl,hcl,hch⟩ := Option.map_eq_some_iff.mp hcl
  obtain ⟨hid,hdict⟩ := Prod.mk.injEq .. ▸ hch
  have hown := hclients 0 cl hcl
  rw [hid,hdict] at hown
  have hpub := hall ⟨⟨by decide +kernel,by decide +kernel,by decide +kernel⟩,by decide +kernel,
    by decide +kernel⟩ (by decide +kernel) (by decide +kernel) 3 (by decide +kernel)
  rw [hown] at hpub
  refine ⟨hown,?_,hpub⟩
  rw [hcl,Option.map_some,hdict]

/-- What entered the USB writer's queue for a channel, with the connection of each payload. -/
def enteredFor (h : SmartHost τ) (c : UInt8) : List (Nat × List UInt8) :=
  (h.entered.filter (·.2.chId=c)).map (fun e => (e.1,e.2.payload))

theorem enteredFor_sent (hs : x.host.Serves) (c : UInt8) :
    (enteredFor x.host c).map (·.2)=payloadsOf c x.host.usbWriter.sent := by
  rw [payloadsOf,← hs.sent,List.filter_map,enteredFor,List.map_map,List.map_map]
  rfl

theorem enteredFor_client (hs : x.host.Serves) {n : Nat} {cl : Client τ}
    (hn : x.host.clients n=some cl) :
    ((enteredFor x.host cl.chId).filter (·.1=n)).map (·.2)=cl.conn.usbOut.map (·.payload) := by
  have hown : (x.host.entered.filter (·.2.chId=cl.chId)).filter (·.1=n)=
      x.host.entered.filter (·.1=n) := by
    rw [List.filter_filter]
    refine List.filter_congr ?_
    intro e he
    obtain ⟨q,hq,hch⟩ := hs.known e he
    by_cases hen : e.1=n
    · rw [hen] at hq
      obtain rfl := Option.some.inj (hn.symm.trans hq)
      simp [hen,hch]
    · simp [hen]
  rw [← (hs.clients n cl hn).order,← hown,enteredFor,List.filter_map,List.map_map,List.map_map]
  rfl

theorem enteredFor_known (hs : x.host.Serves) {c : UInt8} {n : Nat}
    (hne : ((enteredFor x.host c).filter (·.1=n)).map (·.2)≠[]) :
    ∃cl,x.host.clients n=some cl ∧ cl.chId=c := by
  obtain ⟨p,hp⟩ := List.exists_mem_of_ne_nil _ hne
  obtain ⟨e,he,-⟩ := List.mem_map.mp hp
  obtain ⟨he,hen⟩ := List.mem_filter.mp he
  obtain ⟨f,hf,rfl⟩ := List.mem_map.mp he
  obtain ⟨hf,hfc⟩ := List.mem_filter.mp hf
  obtain ⟨cl,hcl,hch⟩ := hs.known f hf
  rw [of_decide_eq_true hen] at hcl
  exact ⟨cl,hcl,hch.symm.trans (of_decide_eq_true hfc)⟩

/-- Klipper → MCU, over every run: what the transport of an MCU is given is made of what the
connections of its channel dispatched, each connection's in order and from its first on; and it is
all of it once nothing is on the way. -/
theorem dispatched_arrive {channels uarts : List UInt8} (hc : ctrlCh∉channels)
    (hn : uarts.Nodup) (hu : ctrlCh∉uarts) (ops : List ProxyOp) {c : UInt8} {m : McuTasks}
    (hm : (after (step anchor) (new channels uarts) ops).exporter.mcus c=some m) :
    let x := after (step anchor) (new channels uarts) ops
    ∃(sent : Nat → List (List UInt8)) (queue : List (List UInt8)),
      Interleaves sent queue ∧ m.commands.written <+: queue ∧
      (∀n,sent n≠[] → ∃cl,x.host.clients n=some cl ∧ cl.chId=c ∧
        sent n <+: cl.conn.dispatched) ∧
      (Settled x.host.usbWriter x.down x.exporter.usbReader → m.commands.Idle →
        m.commands.written=queue ∧
        ∀n cl,x.host.clients n=some cl → cl.chId=c → cl.conn.forwarder.hand=[] →
          cl.conn.toExporter=[] → sent n=cl.conn.dispatched) := by
  intro x
  have hs := sound_after anchor hc hn hu ops
  obtain ⟨hpre,hall⟩ := hs.exporter.commands c m hm
  have hqueue := enteredFor_sent hs.host c
  have hwritten := m.commands.writtenPrefix
  have hcodes : m.commands.sent.flatMap (fun payload => [payload])=m.commands.sent :=
    List.flatMap_singleton' _
  rw [hcodes] at hwritten
  refine ⟨_,_,Interleaves.of_tagged (enteredFor x.host c),?_,?_,?_⟩
  · rw [hqueue]
    have hgiven := PayloadWriter.given_prefix hs.hostAdmits hs.down
    exact (hwritten.trans hpre).trans ((hgiven.filter _).map _)
  · intro n hne
    obtain ⟨cl,hcl,rfl⟩ := enteredFor_known hs.host hne
    refine ⟨cl,hcl,rfl,?_⟩
    rw [enteredFor_client hs.host hcl]
    have hsent := (hs.host.clients n cl hcl).sent.map (·.payload)
    rwa [List.map_map,List.map_id''] at hsent
    exact fun _ => rfl
  · intro hset hidle
    refine ⟨?_,?_⟩
    · rw [hidle.written_eq,hcodes,hall hidle.1,hqueue,hset.given_eq hs.hostAdmits hs.down]
    · rintro n cl hcl rfl hhand hempty
      have hacc := (hs.host.clients n cl hcl).accounted hset.writer.1
      unfold Connection.Accounted at hacc
      rw [hhand,hempty,List.append_nil,List.map_nil,List.append_nil] at hacc
      rw [enteredFor_client hs.host hcl,← hacc,List.map_map,List.map_id'']
      exact fun _ => rfl

theorem dispatched_arrive_oneSession :
    ∃m,(after (step Connection.commandAnchor) (new [3] [3]) oneSession).exporter.mcus 3=some m ∧
      m.commands.written=[[0x0A]] ∧
      ∃(sent : Nat → List (List UInt8)) (queue : List (List UInt8)),Interleaves sent queue ∧
        m.commands.written=queue := by
  have hwritten : ((after (step Connection.commandAnchor) (new [3] [3]) oneSession).exporter.mcus
      3).map (fun m => (m.commands.written,m.commands.alive,m.commands.out,m.commands.queue))=
        some ([[0x0A]],true,[],[]) := by decide +kernel
  obtain ⟨m,hm,hall⟩ := Option.map_eq_some_iff.mp hwritten
  simp only [Prod.mk.injEq] at hall
  obtain ⟨sent,queue,hqueue,-,-,hidle⟩ := dispatched_arrive Connection.commandAnchor (by decide)
    (by decide) (by decide) oneSession hm
  have hset := hidle ⟨⟨by decide +kernel,by decide +kernel,by decide +kernel⟩,by decide +kernel,
    by decide +kernel⟩ ⟨hall.2.1,hall.2.2.1,hall.2.2.2⟩
  exact ⟨m,hm,hall.1,sent,queue,hqueue,hset.1⟩

/-- The payloads that the transport of an MCU has handed out. -/
def heard (x : Proxy τ) (c : UInt8) : List (List UInt8) :=
  (x.exporter.mcus c).elim [] (·.heard)

theorem Sound.heard (hs : Sound x) {c : UInt8} (hc : c≠ctrlCh) :
    x.host.arrived c <+: x.heard c ∧
      (Settled x.exporter.usbWriter x.up x.host.usbReader → x.host.arrived c=x.heard c) := by
  have harr : x.host.arrived c <+: payloadsOf c x.exporter.usbWriter.sent :=
    ((PayloadWriter.given_prefix hs.exporterAdmits hs.up).filter _).map _
  have hall : Settled x.exporter.usbWriter x.up x.host.usbReader →
      x.host.arrived c=payloadsOf c x.exporter.usbWriter.sent := by
    intro hset
    exact congrArg (payloadsOf c) (hset.given_eq hs.exporterAdmits hs.up)
  unfold Proxy.heard
  cases hm : x.exporter.mcus c with
  | none =>
    rw [hs.exporter.known c hc hm] at harr hall
    exact ⟨harr,hall⟩
  | some m =>
    obtain ⟨hpre,heq⟩ := hs.exporter.order c m hm
    exact ⟨harr.trans hpre,fun hset => (hall hset).trans (heq hset.writer.1)⟩

end Proxy

end Serialmux.Windlass

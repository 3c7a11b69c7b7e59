import Serialmux.Windlass.Proxy

namespace Serialmux.Windlass

open Framework

/-- The codec accepts the frame. -/
def PayloadTunnelFrame.fits (pf : PayloadTunnelFrame) : Bool := pf.payload.length ≤ 255

theorem PayloadTunnelCodec.reads_bytes {pf : PayloadTunnelFrame} (h : pf.fits) (ys : List UInt8) :
    decoder.move () (bytes pf++ys)=some ⟨(),some pf,(bytes pf).length⟩ := by
  have hfits : pf.payload.length ≤ 255 := of_decide_eq_true h
  have hbytes : bytes pf=image pf := by rw [bytes,encode_fits hfits,List.nil_append]
  rw [hbytes]
  exact move_frame hfits ys

namespace PayloadWriter

theorem recv_sent (w : PayloadWriter) : w.recv.sent=w.sent := by
  unfold recv
  split_ifs
  · rfl
  · exact w.feed_sent

theorem recv_written (w : PayloadWriter) : w.recv.written=w.written := by
  unfold recv
  split_ifs
  · rfl
  · exact w.feed_written

theorem recv_alive (w : PayloadWriter) (h : w.recv.alive=true) : w.alive=true := by
  unfold recv at h
  split_ifs at h
  · cases h
  · rwa [WriterTask.feed_alive] at h

/-- The codec refuses a frame that does not fit before anything of it is written. -/
theorem recv_admits {w : PayloadWriter} (h : w.Admits PayloadTunnelFrame.fits) :
    w.recv.Admits PayloadTunnelFrame.fits := by
  unfold recv
  split_ifs with hrefuse
  · exact h.stop
  · refine h.feed ?_
    intro hout pf hpf
    by_contra hno
    refine hrefuse ⟨hout,?_⟩
    rw [Option.mem_def.mp hpf]
    unfold PayloadTunnelFrame.fits at hno
    simpa using hno

/-- What comes out of the link is the beginning of what entered the queue. -/
theorem given_prefix {w : PayloadWriter} {r : PayloadReader} {link : List UInt8}
    (h : w.Admits PayloadTunnelFrame.fits) (hlink : r.taken++link=w.written) : r.given <+: w.sent := by
  obtain ⟨gone,hpre,hok,hwritten⟩ := h.gone_codes
  have htaken : r.taken <+: w.written := ⟨link,hlink⟩
  have hgiven := given_prefix_sent id rfl
    (fun pf hpf => PayloadTunnelCodec.reads_bytes (hok pf hpf)) (htaken.trans hwritten)
  rw [List.map_id] at hgiven
  exact hgiven.trans hpre

theorem given_eq {w : PayloadWriter} {r : PayloadReader} (h : w.Admits PayloadTunnelFrame.fits)
    (hlink : r.taken=w.written) (hidle : w.Idle) (hr : r.readable=false) : r.given=w.sent := by
  have hgiven := given_eq_sent id rfl
    (fun pf hpf => PayloadTunnelCodec.reads_bytes (h.all hidle pf hpf))
    (hlink.trans hidle.written_eq) hr
  rwa [List.map_id] at hgiven

end PayloadWriter

/-- What a step of a task leaves alone at the USB device: the bytes that the link has taken and given,
and that a frame which does not fit is never written. -/
structure LinkKept (w w' : PayloadWriter) (r r' : PayloadReader) : Prop where
  taken : r'.taken=r.taken
  written : w'.written=w.written
  admits : w.Admits PayloadTunnelFrame.fits → w'.Admits PayloadTunnelFrame.fits

theorem LinkKept.same {w : PayloadWriter} {r r' : PayloadReader} (ht : r'.taken=r.taken) :
    LinkKept w w r r' := ⟨ht,rfl,id⟩

theorem LinkKept.sends {w w' : PayloadWriter} {r : PayloadReader} {pf : PayloadTunnelFrame}
    (hw : w.send pf=some w') : LinkKept w w' r r where
  taken := rfl
  written := (WriterTask.send_eq hw).2.2.2
  admits h := h.send hw

/-- The payloads of a channel among some frames. -/
def payloadsOf (c : UInt8) (frames : List PayloadTunnelFrame) : List (List UInt8) :=
  (frames.filter (·.chId=c)).map (·.payload)

@[simp] theorem payloadsOf_append (c : UInt8) (fs gs : List PayloadTunnelFrame) :
    payloadsOf c (fs++gs)=payloadsOf c fs++payloadsOf c gs := by
  rw [payloadsOf,List.filter_append,List.map_append]
  rfl

theorem payloadsOf_own (c : UInt8) (p : List UInt8) : payloadsOf c [⟨c,p⟩]=[p] := by
  simp [payloadsOf]

theorem payloadsOf_other {c : UInt8} {pf : PayloadTunnelFrame} (h : pf.chId≠c) :
    payloadsOf c [pf]=[] := by
  simp [payloadsOf,h]

/-- The control payloads about a channel. -/
def aboutOf (c : UInt8) (frames : List PayloadTunnelFrame) : List (List UInt8) :=
  (ctrlPayloads frames).filter (fun p => mcuChOf p=some c)

theorem aboutOf_append (c : UInt8) (fs gs : List PayloadTunnelFrame) :
    aboutOf c (fs++gs)=aboutOf c fs++aboutOf c gs := by
  simp [aboutOf,ctrlPayloads]

theorem aboutOf_data {c : UInt8} {pf : PayloadTunnelFrame} (h : pf.chId≠ctrlCh) :
    aboutOf c [pf]=[] := by
  simp [aboutOf,ctrlPayloads,h]

/-- The control payloads of one transfer. -/
def transfer (c : UInt8) (dictionary : List UInt8) : List (List UInt8) :=
  dictFrags c dictionary++[[ctrlDictDone,c]]

theorem aboutOf_sendDictionary (c j : UInt8) (dictionary : List UInt8) :
    aboutOf c (sendDictionary j dictionary)=if j=c then transfer c dictionary else [] := by
  have hctrl : ctrlPayloads (sendDictionary j dictionary)=transfer j dictionary := by
    rw [ctrlPayloads,List.filter_eq_self.mpr ?_,sendDictionary_payloads]
    · rfl
    · intro pf hpf
      simp [(mem_sendDictionary hpf).1]
  have hch : ∀p∈transfer j dictionary,mcuChOf p=some j := by
    intro p hp
    have hmap := sendDictionary_payloads j dictionary
    have hmem : p∈(sendDictionary j dictionary).map (·.payload) := by
      rw [hmap]
      exact hp
    obtain ⟨pf,hpf,rfl⟩ := List.mem_map.mp hmem
    exact (mem_sendDictionary hpf).2.1
  rw [aboutOf,hctrl]
  split_ifs with hj
  · subst hj
    exact List.filter_eq_self.mpr (fun p hp => by simp [hch p hp])
  · exact List.filter_eq_nil_iff.mpr (fun p hp => by simp [hch p hp,hj])

namespace Startup

/-- What `send_dictionary` has still to send. -/
def pending : Startup → List PayloadTunnelFrame
  | .sending _ frames _ => frames
  | _ => []

/-- The channels whose tasks are not spawned yet, and those whose dictionary is not fetched yet. -/
def unspawned : Startup → List UInt8
  | .opening todo => todo
  | .sending c _ todo => c::todo
  | _ => []

def unfetched : Startup → List UInt8
  | .opening todo => todo
  | .sending _ _ todo => todo
  | _ => []

end Startup

namespace SmartExporter

/-- What enters the queue of the USB writer and what comes out of the demux: every MCU's payloads in
order, and all of them while the USB writer is there, every fetched dictionary as one transfer, and every command to its own MCU. -/
structure Sends (x : SmartExporter) : Prop where
  order : ∀c m,x.mcus c=some m → payloadsOf c x.usbWriter.sent <+: m.heard ∧
    (x.usbWriter.alive=true → payloadsOf c x.usbWriter.sent=m.heard)
  known : ∀c,c≠ctrlCh → x.mcus c=none → payloadsOf c x.usbWriter.sent=[]
  dictionary : ∀c,aboutOf c (x.usbWriter.sent++x.startup.pending)=(x.dicts c).elim [] (transfer c)
  commands : ∀c m,x.mcus c=some m → m.commands.sent <+: payloadsOf c x.usbReader.given ∧
    (m.commands.alive=true → m.commands.sent=payloadsOf c x.usbReader.given)
  data : ∀c m,x.mcus c=some m → c≠ctrlCh
  pending : ∀pf∈x.startup.pending,pf.chId=ctrlCh
  unspawned : x.startup.unspawned.Nodup ∧ ∀c∈x.startup.unspawned,c≠ctrlCh ∧ x.mcus c=none
  unfetched : ∀c∈x.startup.unfetched,x.dicts c=none
  waiting : x.startup≠.running → x.usbWriter.alive=true ∧ x.usbReader.given=[]

variable {x : SmartExporter} {c : UInt8} {m m' : McuTasks}

theorem Sends.new {channels : List UInt8} (hn : channels.Nodup) (hc : ctrlCh∉channels) :
    Sends (runSmartExporter channels) where
  order _ _ h := by cases h
  known _ _ _ := rfl
  dictionary _ := rfl
  commands _ _ h := by cases h
  data _ _ h := by cases h
  pending _ h := absurd h List.not_mem_nil
  unspawned := ⟨hn,fun _ h => ⟨fun hctrl => hc (hctrl ▸ h),rfl⟩⟩
  unfetched _ _ := rfl
  waiting _ := ⟨rfl,rfl⟩

theorem setMcu_self (x : SmartExporter) (c : UInt8) (m : McuTasks) :
    (x.setMcu c m).mcus c=some m := Function.update_self ..

theorem setMcu_other (x : SmartExporter) (m : McuTasks) {j : UInt8} (h : j≠c) :
    (x.setMcu c m).mcus j=x.mcus j := Function.update_of_ne h ..

/-- What holds of the changed tasks and of the others holds of all. -/
theorem setMcu_forall {P : UInt8 → McuTasks → Prop} (hself : P c m')
    (hother : ∀j q,j≠c → x.mcus j=some q → P j q) : ∀j q,(x.setMcu c m').mcus j=some q → P j q := by
  intro j q hq
  by_cases hj : j=c
  · subst hj
    rw [setMcu_self] at hq
    obtain rfl := Option.some.inj hq
    exact hself
  · rw [setMcu_other x m' hj] at hq
    exact hother j q hj hq

theorem setMcu_none (hm : x.mcus c=some m) {j : UInt8} (hj : (x.setMcu c m').mcus j=none) :
    x.mcus j=none := by
  by_cases hjc : j=c
  · subst hjc
    rw [setMcu_self] at hj
    cases hj
  · rwa [setMcu_other x m' hjc] at hj

/-- A channel that is not spawned is none of those that are. -/
theorem setMcu_unspawned (h : Sends x) (hm : x.mcus c=some m) {j : UInt8}
    (hj : j∈x.startup.unspawned) : (x.setMcu c m').mcus j=none := by
  obtain ⟨-,hnone⟩ := h.unspawned.2 j hj
  have hjc : j≠c := by
    rintro rfl
    rw [hm] at hnone
    cases hnone
  rwa [setMcu_other x m' hjc]

/-- A change of the tasks of one MCU that sends nothing. -/
theorem Sends.setMcu (h : Sends x) (hm : x.mcus c=some m)
    (ho : payloadsOf c x.usbWriter.sent <+: m'.heard ∧
      (x.usbWriter.alive=true → payloadsOf c x.usbWriter.sent=m'.heard))
    (hc : m'.commands.sent <+: payloadsOf c x.usbReader.given ∧
      (m'.commands.alive=true → m'.commands.sent=payloadsOf c x.usbReader.given)) :
    Sends (x.setMcu c m') where
  order := setMcu_forall ho (fun j q _ hq => h.order j q hq)
  known j hj hnone := h.known j hj (setMcu_none hm hnone)
  dictionary := h.dictionary
  commands := setMcu_forall hc (fun j q _ hq => h.commands j q hq)
  data := setMcu_forall (h.data c m hm) (fun j q _ hq => h.data j q hq)
  pending := h.pending
  unspawned := ⟨h.unspawned.1,fun j hj => ⟨(h.unspawned.2 j hj).1,setMcu_unspawned h hm hj⟩⟩
  unfetched := h.unfetched
  waiting := h.waiting

/-- A frame of channel `c` joins the queue. -/
theorem payloadsOf_sent {w w' : PayloadWriter} {pf : PayloadTunnelFrame} (hw : w.send pf=some w')
    (j : UInt8) : payloadsOf j w'.sent=payloadsOf j w.sent++payloadsOf j [pf] := by
  rw [(WriterTask.send_eq hw).2.2.1,payloadsOf_append]

theorem Sends.payload (h : Sends x) (hm : x.mcus c=some m) (p : List UInt8) :
    Sends (x.payload c p m) := by
  obtain ⟨hpre,hall⟩ := h.order c m hm
  have hcmd := h.commands c m hm
  have hdata := h.data c m hm
  unfold SmartExporter.payload
  split_ifs
  · split
    · rename_i w hw
      obtain ⟨ha,-⟩ := WriterTask.send_eq hw
      have heq := hall ha
      have hown : payloadsOf c w.sent=m.heard++[p] := by
        rw [payloadsOf_sent hw,payloadsOf_own,heq]
      have hother : ∀j,j≠c → payloadsOf j w.sent=payloadsOf j x.usbWriter.sent := by
        intro j hj
        rw [payloadsOf_sent hw,payloadsOf_other (Ne.symm hj),List.append_nil]
      refine ⟨?_,?_,?_,?_,?_,h.pending,?_,h.unfetched,?_⟩
      · refine setMcu_forall ⟨⟨[],(List.append_nil _).trans hown⟩,fun _ => hown⟩ ?_
        intro j q hj hq
        change payloadsOf j w.sent <+: q.heard ∧ (_ → payloadsOf j w.sent=q.heard)
        rw [hother j hj]
        exact ⟨(h.order j q hq).1,fun _ => (h.order j q hq).2 ha⟩
      · intro j hj hnone
        have hjc : j≠c := by
          rintro rfl
          have hfalse : x.mcus j=none := setMcu_none hm hnone
          rw [hm] at hfalse
          cases hfalse
        change payloadsOf j w.sent=[]
        rw [hother j hjc]
        exact h.known j hj (setMcu_none hm hnone)
      · intro j
        have hab : aboutOf j (w.sent++x.startup.pending)=
            aboutOf j (x.usbWriter.sent++x.startup.pending) := by
          rw [(WriterTask.send_eq hw).2.2.1]
          have hnone : aboutOf j [⟨c,p⟩]=[] := aboutOf_data hdata
          simp only [aboutOf_append,hnone,List.append_nil]
        exact hab.trans (h.dictionary j)
      · exact setMcu_forall hcmd (fun j q _ hq => h.commands j q hq)
      · exact setMcu_forall hdata (fun j q _ hq => h.data j q hq)
      · exact ⟨h.unspawned.1,fun j hj => ⟨(h.unspawned.2 j hj).1,setMcu_unspawned h hm hj⟩⟩
      · intro hs
        exact ⟨(WriterTask.send_eq hw).2.1,(h.waiting hs).2⟩
    · rename_i hw
      have hdead := mt (WriterTask.send_isSome_iff x.usbWriter ⟨c,p⟩).mpr (by simp [hw])
      exact h.setMcu hm ⟨hpre.trans (List.prefix_append _ _),fun ha => absurd ha hdead⟩ hcmd
  · exact h

theorem Sends.startup (h : Sends x) (s : Startup) (hp : s.pending=x.startup.pending)
    (hu : s.unspawned=x.startup.unspawned) (hf : s.unfetched=x.startup.unfetched)
    (hw : s≠.running → x.startup≠.running) : Sends {x with startup := s} where
  order := h.order
  known := h.known
  dictionary c := by
    change aboutOf c (x.usbWriter.sent++s.pending)=_
    rw [hp]
    exact h.dictionary c
  commands := h.commands
  data := h.data
  pending := by
    change ∀pf∈s.pending,_
    rw [hp]
    exact h.pending
  unspawned := by
    change s.unspawned.Nodup ∧ ∀c∈s.unspawned,_
    rw [hu]
    exact h.unspawned
  unfetched := by
    change ∀c∈s.unfetched,_
    rw [hf]
    exact h.unfetched
  waiting hs := h.waiting (hw hs)

/-- A process that gives up while it opens a UART has no transfer under way. -/
theorem Sends.ended (h : Sends x) (hp : x.startup.pending=[]) (hs : x.startup≠.running) :
    Sends {x with startup := .ended} where
  order := h.order
  known := h.known
  dictionary c := by
    have hall := h.dictionary c
    rw [hp] at hall
    exact hall
  commands := h.commands
  data := h.data
  pending _ h := absurd h List.not_mem_nil
  unspawned := ⟨List.nodup_nil,fun _ h => absurd h List.not_mem_nil⟩
  unfetched _ h := absurd h List.not_mem_nil
  waiting _ := h.waiting hs

theorem Sends.connect (h : Sends x) (dictionary : Option (List UInt8)) :
    Sends (x.connect dictionary) := by
  unfold SmartExporter.connect
  split
  · rename_i hs
    refine h.startup .running ?_ ?_ ?_ (fun hne => absurd rfl hne)
    · rw [hs]
      rfl
    · rw [hs]
      rfl
    · rw [hs]
      rfl
  · rename_i c todo hs
    have hp : x.startup.pending=[] := by rw [hs]; rfl
    have hrun : x.startup≠.running := by rw [hs]; simp
    have hun : x.startup.unspawned=c::todo := by rw [hs]; rfl
    have hfe : x.startup.unfetched=c::todo := by rw [hs]; rfl
    split
    · exact h.ended hp hrun
    · rename_i d
      obtain ⟨hnodup,hnone⟩ := h.unspawned
      rw [hun] at hnodup hnone
      have hfetch := h.unfetched
      rw [hfe] at hfetch
      refine ⟨h.order,h.known,?_,h.commands,h.data,?_,⟨hnodup,hnone⟩,?_,fun _ => h.waiting hrun⟩
      · intro j
        have hold := h.dictionary j
        rw [hp,List.append_nil] at hold
        change aboutOf j (x.usbWriter.sent++sendDictionary c d)=
          (Function.update x.dicts c (some d) j).elim [] (transfer j)
        rw [aboutOf_append,hold,aboutOf_sendDictionary]
        by_cases hj : j=c
        · subst hj
          rw [hfetch j List.mem_cons_self,Function.update_self,if_pos rfl]
          rfl
        · rw [Function.update_of_ne hj,if_neg (Ne.symm hj),List.append_nil]
      · intro pf hpf
        exact (mem_sendDictionary hpf).1
      · intro j hj
        have hjc : j≠c := by
          rintro rfl
          exact (List.nodup_cons.mp hnodup).1 hj
        change Function.update x.dicts c (some d) j=none
        rw [Function.update_of_ne hjc]
        exact hfetch j (List.mem_cons_of_mem _ hj)
  · exact h

theorem Sends.sendFrame (h : Sends x) : Sends x.sendFrame := by
  unfold SmartExporter.sendFrame
  split
  · rename_i c pf frames todo hs
    have hrun : x.startup≠.running := by rw [hs]; simp
    obtain ⟨halive,hgiven⟩ := h.waiting hrun
    have hctrl : pf.chId=ctrlCh := h.pending pf (by rw [hs]; exact List.mem_cons_self)
    have hun : x.startup.unspawned=c::todo := by rw [hs]; rfl
    have hfe : x.startup.unfetched=todo := by rw [hs]; rfl
    split
    · rename_i w hw
      have hdata : ∀j,j≠ctrlCh → payloadsOf j w.sent=payloadsOf j x.usbWriter.sent := by
        intro j hj
        rw [payloadsOf_sent hw,payloadsOf_other (by rw [hctrl]; exact Ne.symm hj),List.append_nil]
      refine ⟨?_,?_,?_,h.commands,h.data,?_,?_,?_,?_⟩
      · intro j q hq
        change payloadsOf j w.sent <+: _ ∧ (_ → payloadsOf j w.sent=_)
        rw [hdata j (h.data j q hq)]
        exact ⟨(h.order j q hq).1,fun _ => (h.order j q hq).2 halive⟩
      · intro j hj hnone
        exact (hdata j hj).trans (h.known j hj hnone)
      · intro j
        have hold := h.dictionary j
        rw [hs] at hold
        change aboutOf j (w.sent++frames)=_
        rw [(WriterTask.send_eq hw).2.2.1,List.append_assoc]
        exact hold
      · intro g hg
        exact h.pending g (by rw [hs]; exact List.mem_cons_of_mem _ hg)
      · have hold := h.unspawned
        rw [hun] at hold
        exact hold
      · have hold := h.unfetched
        rw [hfe] at hold
        exact hold
      · exact fun _ => ⟨(WriterTask.send_eq hw).2.1,hgiven⟩
    · rename_i hw
      have hsome := (WriterTask.send_isSome_iff x.usbWriter pf).mpr halive
      rw [hw] at hsome
      cases hsome
  · rename_i c todo hs
    have hrun : x.startup≠.running := by rw [hs]; simp
    obtain ⟨halive,hgiven⟩ := h.waiting hrun
    obtain ⟨hnodup,hnone⟩ := h.unspawned
    have hun : x.startup.unspawned=c::todo := by rw [hs]; rfl
    rw [hun] at hnodup hnone
    obtain ⟨hctrl,hmc⟩ := hnone c List.mem_cons_self
    have hnil := h.known c hctrl hmc
    refine ⟨?_,?_,?_,?_,?_,fun _ hg => absurd hg List.not_mem_nil,?_,?_,fun _ => ⟨halive,hgiven⟩⟩
    · refine setMcu_forall ⟨⟨[],(List.append_nil _).trans hnil⟩,fun _ => hnil⟩ ?_
      exact fun j q _ hq => h.order j q hq
    · intro j hj hjn
      by_cases hjc : j=c
      · subst hjc
        exact hnil
      · have hother : x.mcus j=none := (setMcu_other x .new hjc).symm.trans hjn
        exact h.known j hj hother
    · intro j
      have hold := h.dictionary j
      rw [hs] at hold
      exact hold
    · refine setMcu_forall ?_ (fun j q _ hq => h.commands j q hq)
      change ([] : List (List UInt8)) <+: payloadsOf c x.usbReader.given ∧
        (_ → []=payloadsOf c x.usbReader.given)
      rw [hgiven]
      exact ⟨List.nil_prefix,fun _ => rfl⟩
    · exact setMcu_forall hctrl (fun j q _ hq => h.data j q hq)
    · refine ⟨(List.nodup_cons.mp hnodup).2,?_⟩
      intro j hj
      obtain ⟨hj₁,hj₂⟩ := hnone j (List.mem_cons_of_mem _ hj)
      have hjc : j≠c := by
        rintro rfl
        exact (List.nodup_cons.mp hnodup).1 hj
      exact ⟨hj₁,(setMcu_other x .new hjc).trans hj₂⟩
    · have hold := h.unfetched
      rw [hs] at hold
      exact hold
  · exact h

/-- A command that comes out of the demux joins the queue of its MCU. -/
theorem Sends.demux (h : Sends x) (hrun : x.startup=.running) : Sends x.demux := by
  obtain ⟨-,-,hgiven,-⟩ := x.usbReader.next_eq PayloadTunnelCodec.codec
    PayloadTunnelCodec.codec_implements
  unfold SmartExporter.demux PayloadReader.nextFrame
  generalize x.usbReader.next PayloadTunnelCodec.codec
    PayloadTunnelCodec.codec_implements=res at *
  obtain ⟨item,reader⟩ := res
  have hg : reader.given=x.usbReader.given++item.toList := hgiven
  -- A frame for another channel leaves the commands as they are, and so does one without a queue.
  have hread : (∀pf∈item,∀m,x.mcus pf.chId=some m → m.commands.alive=false) →
      Sends {x with usbReader := reader} := by
    intro hdead
    refine ⟨h.order,h.known,h.dictionary,?_,h.data,h.pending,h.unspawned,h.unfetched,
      fun hs => absurd hrun hs⟩
    intro j q hq
    obtain ⟨hpre,hall⟩ := h.commands j q hq
    change q.commands.sent <+: payloadsOf j reader.given ∧
      (_ → q.commands.sent=payloadsOf j reader.given)
    rw [hg,payloadsOf_append]
    refine ⟨hpre.trans (List.prefix_append _ _),?_⟩
    intro ha
    cases item with
    | none => simpa [payloadsOf] using hall ha
    | some pf =>
      have hne : pf.chId≠j := by
        rintro rfl
        rw [hdead pf rfl q hq] at ha
        cases ha
      rw [Option.toList_some,payloadsOf_other hne,List.append_nil]
      exact hall ha
  cases item with
  | none => exact hread (fun pf hpf => by cases hpf)
  | some pf =>
    have hown : ∀pf'∈some pf,pf'=pf := fun pf' hpf' => (Option.some.inj hpf').symm
    dsimp only
    split_ifs with hctrl
    · refine hread ?_
      intro pf' hpf' m hm
      obtain rfl := hown pf' hpf'
      exact absurd hctrl (h.data _ m hm)
    · unfold onMcu
      dsimp only
      split
      · rename_i hnone
        refine hread ?_
        intro pf' hpf' m hm
        obtain rfl := hown pf' hpf'
        rw [hnone] at hm
        cases hm
      · rename_i m hm
        split
        · rename_i w hw
          obtain ⟨ha,-,hsent,-⟩ := WriterTask.send_eq hw
          have hnew : w.sent=payloadsOf pf.chId reader.given := by
            rw [hsent,hg,payloadsOf_append,Option.toList_some,(h.commands _ m hm).2 ha]
            exact congrArg _ (payloadsOf_own _ _).symm
          refine ⟨?_,?_,h.dictionary,?_,?_,h.pending,?_,h.unfetched,fun hs => absurd hrun hs⟩
          · exact setMcu_forall (h.order _ m hm) (fun j q _ hq => h.order j q hq)
          · exact fun j hj hnone => h.known j hj (setMcu_none (x := {x with usbReader := reader}) hm hnone)
          · refine setMcu_forall ⟨⟨[],(List.append_nil _).trans hnew⟩,fun _ => hnew⟩ ?_
            intro j q hj hq
            change q.commands.sent <+: payloadsOf j reader.given ∧
              (_ → q.commands.sent=payloadsOf j reader.given)
            rw [hg,payloadsOf_append,Option.toList_some,payloadsOf_other (Ne.symm hj),
              List.append_nil]
            exact h.commands j q hq
          · exact setMcu_forall (h.data _ m hm) (fun j q _ hq => h.data j q hq)
          · exact ⟨h.unspawned.1,fun j hj => ⟨(h.unspawned.2 j hj).1,setMcu_unspawned h hm hj⟩⟩
        · rename_i hw
          refine hread ?_
          intro pf' hpf' m' hm'
          obtain rfl := hown pf' hpf'
          obtain rfl := Option.some.inj (hm.symm.trans hm')
          have hdead := mt (WriterTask.send_isSome_iff m.commands pf'.payload).mpr (by simp [hw])
          simpa using hdead

/-- A change of the USB tasks that neither sends nor hands out a frame. -/
theorem Sends.usb (h : Sends x) {w : PayloadWriter} {r : PayloadReader}
    (hw : w.sent=x.usbWriter.sent) (ha : w.alive=true → x.usbWriter.alive=true)
    (hr : r.given=x.usbReader.given) (hs : x.startup=.running) :
    Sends {x with usbWriter := w, usbReader := r} where
  order := by
    intro j q hq
    change payloadsOf j w.sent <+: _ ∧ (_ → payloadsOf j w.sent=_)
    rw [hw]
    exact ⟨(h.order j q hq).1,fun hlive => (h.order j q hq).2 (ha hlive)⟩
  known := by
    intro j hj hnone
    change payloadsOf j w.sent=[]
    rw [hw]
    exact h.known j hj hnone
  dictionary := by
    intro j
    change aboutOf j (w.sent++_)=_
    rw [hw]
    exact h.dictionary j
  commands := by
    intro j q hq
    change _ <+: payloadsOf j r.given ∧ (_ → _=payloadsOf j r.given)
    rw [hr]
    exact h.commands j q hq
  data := h.data
  pending := h.pending
  unspawned := h.unspawned
  unfetched := h.unfetched
  waiting hne := absurd hs hne

theorem Sends.step (h : Sends x) (op : ExporterOp) : Sends (x.step op) := by
  have honMcu : ∀c (f : McuTasks → SmartExporter),(∀m,x.mcus c=some m → Sends (f m)) →
      Sends (x.onMcu c f) := by
    intro c f hf
    unfold onMcu
    split
    · exact h
    · rename_i m hm
      exact hf m hm
  have hup : ∀x',(x.startup=.running → Sends x') → Sends (if x.Up then x' else x) := by
    intro x' hx'
    split_ifs with hrun
    · exact hx' hrun.1
    · exact h
  unfold SmartExporter.step
  by_cases halive : x.Alive
  · rw [if_pos halive]
    cases op with
    | connect dictionary => exact h.connect dictionary
    | sendFrame => exact h.sendFrame
    | payload c p => exact honMcu c _ (fun m hm => h.payload hm p)
    | payloadEnd c =>
      exact honMcu c _ (fun m hm => h.setMcu hm (h.order c m hm) (h.commands c m hm))
    | recv c =>
      refine honMcu c _ (fun m hm => h.setMcu hm (h.order c m hm) ?_)
      dsimp only
      rw [WriterTask.feed_sent,WriterTask.feed_alive]
      exact h.commands c m hm
    | transportSend c =>
      refine honMcu c _ (fun m hm => h.setMcu hm (h.order c m hm) ?_)
      dsimp only
      rw [WriterTask.write_sent,WriterTask.write_alive]
      exact h.commands c m hm
    | transportError c =>
      refine honMcu c _ (fun m hm => h.setMcu hm (h.order c m hm) ⟨(h.commands c m hm).1,?_⟩)
      exact fun hfalse => absurd hfalse Bool.false_ne_true
    | usbRecv => exact hup _ (fun hs => h.usb x.usbWriter.recv_sent x.usbWriter.recv_alive rfl hs)
    | usbWriteEnd =>
      exact hup _ (fun hs => h.usb rfl (fun ha => absurd ha Bool.false_ne_true) rfl hs)
    | usbFrame => exact hup _ h.demux
    | usbEnd => exact hup _ (fun hs => h.usb rfl id rfl hs)
  · rw [if_neg halive]
    exact h

theorem Sends.usbWrite (h : Sends x) (n : Nat) : Sends (x.usbWrite n).1 := by
  unfold SmartExporter.usbWrite
  split_ifs with hrun
  · exact h.usb (x.usbWriter.write_sent n) (fun ha => by simpa using ha) rfl hrun.1
  · exact h

theorem Sends.usbRead (h : Sends x) (link : List UInt8) (n : Nat) : Sends (x.usbRead link n).1 := by
  unfold SmartExporter.usbRead
  split_ifs with hrun
  · exact h.usb rfl id (x.usbReader.pull_eq link n).2 hrun.1
  · exact h

theorem step_link (x : SmartExporter) (op : ExporterOp) :
    LinkKept x.usbWriter (x.step op).usbWriter x.usbReader (x.step op).usbReader := by
  have honMcu : ∀c (f : McuTasks → SmartExporter),
      (∀m,LinkKept x.usbWriter (f m).usbWriter x.usbReader (f m).usbReader) →
      LinkKept x.usbWriter (x.onMcu c f).usbWriter x.usbReader (x.onMcu c f).usbReader := by
    intro c f hf
    unfold onMcu
    split
    · exact .same rfl
    · exact hf _
  have hup : ∀x' : SmartExporter,
      LinkKept x.usbWriter x'.usbWriter x.usbReader x'.usbReader →
      LinkKept x.usbWriter (if x.Up then x' else x).usbWriter x.usbReader
        (if x.Up then x' else x).usbReader := by
    intro x' hx'
    split_ifs
    · exact hx'
    · exact .same rfl
  unfold SmartExporter.step
  by_cases halive : x.Alive
  · rw [if_pos halive]
    cases op with
    | connect dictionary =>
      unfold SmartExporter.connect
      dsimp only
      split <;> [exact .same rfl; (split <;> exact .same rfl); exact .same rfl]
    | sendFrame =>
      unfold SmartExporter.sendFrame
      dsimp only
      split
      · split
        · rename_i w hw
          exact .sends hw
        · exact .same rfl
      · exact .same rfl
      · exact .same rfl
    | payload c p =>
      refine honMcu c _ (fun m => ?_)
      unfold SmartExporter.payload
      split_ifs
      · split
        · rename_i w hw
          exact .sends hw
        · exact .same rfl
      · exact .same rfl
    | payloadEnd c => exact honMcu c _ (fun m => .same rfl)
    | recv c => exact honMcu c _ (fun m => .same rfl)
    | transportSend c => exact honMcu c _ (fun m => .same rfl)
    | transportError c => exact honMcu c _ (fun m => .same rfl)
    | usbRecv => exact hup _ ⟨rfl,x.usbWriter.recv_written,PayloadWriter.recv_admits⟩
    | usbWriteEnd => exact hup _ ⟨rfl,rfl,WriterTask.Admits.stop⟩
    | usbFrame =>
      refine hup _ ?_
      obtain ⟨-,htaken,-,-⟩ := x.usbReader.next_eq PayloadTunnelCodec.codec
        PayloadTunnelCodec.codec_implements
      unfold SmartExporter.demux PayloadReader.nextFrame onMcu
      dsimp only
      split
      · exact .same htaken
      · split_ifs
        · exact .same htaken
        · split
          · exact .same htaken
          · split <;> exact .same htaken
    | usbEnd => exact hup _ (.same rfl)
  · rw [if_neg halive]
    exact .same rfl

theorem usbWrite_link (x : SmartExporter) (n : Nat) :
    (x.usbWrite n).1.usbReader.taken=x.usbReader.taken ∧
      (x.usbWrite n).1.usbWriter.written=x.usbWriter.written++(x.usbWrite n).2 ∧
      (x.usbWriter.Admits PayloadTunnelFrame.fits →
        (x.usbWrite n).1.usbWriter.Admits PayloadTunnelFrame.fits) := by
  unfold SmartExporter.usbWrite
  split_ifs
  · exact ⟨rfl,x.usbWriter.write_written n,fun h => h.write n⟩
  · exact ⟨rfl,(List.append_nil _).symm,id⟩

theorem usbRead_link (x : SmartExporter) (link : List UInt8) (n : Nat) :
    (x.usbRead link n).1.usbReader.taken++(x.usbRead link n).2=x.usbReader.taken++link ∧
      (x.usbRead link n).1.usbWriter=x.usbWriter := by
  unfold SmartExporter.usbRead
  split_ifs
  · exact ⟨x.usbReader.pull_taken link n,rfl⟩
  · exact ⟨rfl,rfl⟩

end SmartExporter

end Serialmux.Windlass

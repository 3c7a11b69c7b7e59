import Serialmux.Windlass.Exporting

namespace Serialmux.Windlass

open Framework

section Connection

variable {τ : Type} (anchor : Anchor τ) (chId : UInt8) (dictionary : List UInt8)

namespace Connection

/-- The slot is open only while the handler relays or waits to clear it. -/
def Slotted (s : Connection τ) : Prop :=
  s.slotOpen=true → s.phase=.relaying ∨ s.phase=.cleaning

/-- What a step that neither sends a frame nor is handed a payload does to a connection. -/
structure Goes (s s' : Connection τ) : Prop where
  usbOut : s'.usbOut=s.usbOut
  dispatched : s.dispatched <+: s'.dispatched
  fromMcu : s'.fromMcu <:+ s.fromMcu
  slotOpen : s'.slotOpen=true → s.slotOpen=true
  slotted : s.Slotted → s'.Slotted
  starting : s'.phase=.starting ↔ s.phase=.starting
  returned : s.phase=.returned → s'.phase=.returned

variable {s s' : Connection τ}

theorem Goes.same (hu : s'.usbOut=s.usbOut) (hd : s.dispatched <+: s'.dispatched)
    (hm : s'.fromMcu <:+ s.fromMcu) (hs : s'.slotOpen=s.slotOpen) (hp : s'.phase=s.phase) :
    Goes s s' where
  usbOut := hu
  dispatched := hd
  fromMcu := hm
  slotOpen h := hs.symm.trans h
  slotted h := by
    unfold Slotted at h ⊢
    rwa [hs,hp]
  starting := by rw [hp]
  returned h := hp.trans h

theorem Goes.refl (s : Connection τ) : Goes s s :=
  .same rfl (List.prefix_refl _) (List.suffix_refl _) rfl rfl

theorem Goes.cleans (h : s.phase=.relaying) : Goes s {s with phase := .cleaning} where
  usbOut := rfl
  dispatched := List.prefix_refl _
  fromMcu := List.suffix_refl _
  slotOpen := id
  slotted _ _ := .inr rfl
  starting := by simp [h]
  returned hr := by
    rw [h] at hr
    cases hr

/-- What the encoder changes is of no interest to the slot. -/
theorem encodeAll_slot (s : Connection τ) (payloads : List (List UInt8)) :
    (s.encodeAll anchor payloads).fromMcu=s.fromMcu ∧
      (s.encodeAll anchor payloads).slotOpen=s.slotOpen := by
  induction payloads generalizing s with
  | nil => exact ⟨rfl,rfl⟩
  | cons p payloads ih => exact ih _

theorem onBytes_goes (s : Connection τ) (bytes : List UInt8) :
    Goes s (s.onBytes anchor dictionary bytes) := by
  unfold onBytes
  obtain ⟨hp,-,-,hd,hu⟩ := encodeAll_frame anchor _ _
  obtain ⟨hm,hs⟩ := encodeAll_slot anchor _ _
  refine .same hu ?_ ?_ hs hp
  · rw [hd]
    exact List.prefix_append _ _
  · rw [hm]
    exact List.suffix_refl _

theorem onSocketRead_goes (s : Connection τ) (result : Option (List UInt8)) :
    Goes s (s.onSocketRead anchor dictionary result) := by
  unfold onSocketRead
  split_ifs with hr
  · split
    · exact .cleans hr
    · exact .cleans hr
    · exact onBytes_goes anchor dictionary s _
  · exact .refl s

theorem onMcuPayload_goes (s : Connection τ) : Goes s (s.onMcuPayload anchor) := by
  unfold onMcuPayload
  by_cases hr : s.phase=.relaying
  · rw [if_pos hr]
    cases hq : s.fromMcu with
    | nil =>
      dsimp only
      by_cases hopen : s.slotOpen=true
      · rw [if_pos hopen]
        exact .refl s
      · rw [if_neg hopen,← hq]
        exact .cleans hr
    | cons p rest =>
      obtain ⟨hp,-,-,hd,hu⟩ := encodeAll_frame anchor {s with fromMcu := rest} [p]
      obtain ⟨hm,hs⟩ := encodeAll_slot anchor {s with fromMcu := rest} [p]
      refine .same hu ?_ ?_ hs hp
      · rw [hd]
      · rw [hm,hq]
        exact List.suffix_cons _ _
  · rw [if_neg hr]
    exact .refl s

theorem unregister_goes (s : Connection τ) : Goes s s.unregister := by
  unfold unregister
  split_ifs with hc
  · refine ⟨rfl,List.prefix_refl _,List.suffix_refl _,?_,?_,?_,fun _ => rfl⟩
    · exact fun h => absurd h Bool.false_ne_true
    · exact fun _ h => absurd h Bool.false_ne_true
    · simp [hc]
  · exact .refl s

theorem step_goes (s : Connection τ) {e : ConnEvent} (hsend : e≠.send) (hreg : e≠.register)
    (hdemux : ∀p,e≠.demux p) : Goes s (s.step anchor chId dictionary e) := by
  have hsame : ∀s' : Connection τ,s'.usbOut=s.usbOut → s'.dispatched=s.dispatched →
      s'.fromMcu=s.fromMcu → s'.slotOpen=s.slotOpen → s'.phase=s.phase → Goes s s' := by
    intro s' hu hd hm hs hp
    exact .same hu (by rw [hd]) (by rw [hm]) hs hp
  cases e with
  | register => exact absurd rfl hreg
  | socketRead result => exact onSocketRead_goes anchor dictionary s result
  | mcuPayload => exact onMcuPayload_goes anchor s
  | demux p => exact absurd rfl (hdemux p)
  | unregister => exact unregister_goes s
  | recv =>
    change Goes s s.recv
    unfold recv
    split
    · exact hsame _ rfl rfl rfl rfl rfl
    · exact .refl s
  | send => exact absurd rfl hsend
  | cancelForwarder =>
    change Goes s s.cancelForwarder
    unfold cancelForwarder
    split_ifs
    · exact hsame _ rfl rfl rfl rfl rfl
    · exact .refl s
  | write ok =>
    change Goes s (s.write ok)
    unfold write
    split
    · split_ifs
      · exact hsame _ rfl rfl rfl rfl rfl
      · exact hsame _ rfl rfl rfl rfl rfl
    · exact .refl s
  | cancelWriter =>
    change Goes s s.cancelWriter
    unfold cancelWriter
    split_ifs
    · exact hsame _ rfl rfl rfl rfl rfl
    · exact .refl s

end Connection

end Connection

section Gatherer

variable (watchTxs : UInt8 → Bool) (chId : UInt8)

/-- What is published stays published. -/
theorem publishedFor_onPayload (self : Gatherer) (payload : List UInt8) :
    self.publishedFor chId <+: (self.onPayload watchTxs payload).publishedFor chId := by
  have hgrows : ∀more : List (UInt8 × List UInt8),
      self.publishedFor chId <+:
        (Gatherer.mk self.dicts (self.published++more)).publishedFor chId := by
    intro more
    simp only [Gatherer.publishedFor,List.filter_append,List.map_append]
    exact List.prefix_append _ _
  unfold Gatherer.onPayload
  split
  · split_ifs
    · exact List.prefix_refl _
    · exact hgrows _
    · exact List.prefix_refl _
    · exact List.prefix_refl _
  · exact List.prefix_refl _

/-- Nothing is published for a channel without a watch sender. -/
theorem publishedFor_watched (payloads : List (List UInt8)) {d : List UInt8}
    (hd : d∈(gatherDictionary watchTxs payloads).publishedFor chId) : watchTxs chId=true := by
  by_contra hw
  have hnone : ∀(v : View) (ps : List (List UInt8)),
      (ps.foldl (viewStep (watchTxs chId)) v).2=v.2 := by
    intro v ps
    induction ps generalizing v with
    | nil => rfl
    | cons p ps ih =>
      rw [List.foldl_cons,ih]
      unfold viewStep
      split
      · split_ifs <;> rfl
      · rfl
  rw [publishedFor_gather,hnone] at hd
  exact absurd hd List.not_mem_nil

/-- A transfer that is under way has published nothing, a complete one its dictionary. -/
theorem publishedFor_transfer (hw : watchTxs chId=true) (payloads : List (List UInt8))
    (dictionary : List UInt8)
    (hp : payloads.filter (fun p => mcuChOf p=some chId) <+: transfer chId dictionary) :
    (gatherDictionary watchTxs payloads).publishedFor chId=
      if payloads.filter (fun p => mcuChOf p=some chId)=transfer chId dictionary then [dictionary]
      else [] := by
  rw [publishedFor_gather,hw]
  split_ifs with hall
  · rw [hall]
    have ht := foldl_viewStep_transfer chId true ([],[]) dictionary
    exact congrArg Prod.snd ht
  · have hfrags : payloads.filter (fun p => mcuChOf p=some chId) <+: dictFrags chId dictionary := by
      rcases List.prefix_concat_iff.mp hp with h|h
      · exact absurd h hall
      · exact h
    obtain ⟨n,-,hn⟩ : ∃n,n ≤ (dictFrags chId dictionary).length ∧
        payloads.filter (fun p => mcuChOf p=some chId)=(dictFrags chId dictionary).take n :=
      ⟨_,hfrags.length_le,List.prefix_iff_eq_take.mp hfrags⟩
    rw [hn,dictFrags,← List.map_take]
    have hf := foldl_viewStep_frags chId true ([],[]) ((chunksOf dictFragMax dictionary).take n)
    exact congrArg Prod.snd hf

/-- The same where the dictionary may not have been fetched at all. -/
theorem publishedFor_fetched (hw : watchTxs chId=true) (payloads : List (List UInt8))
    (fetched : Option (List UInt8))
    (hp : payloads.filter (fun p => mcuChOf p=some chId) <+: fetched.elim [] (transfer chId)) :
    (gatherDictionary watchTxs payloads).publishedFor chId=
      if payloads.filter (fun p => mcuChOf p=some chId)=fetched.elim [] (transfer chId) then
        fetched.toList
      else [] := by
  cases fetched with
  | some d => exact publishedFor_transfer watchTxs chId hw payloads d hp
  | none =>
    have hnil : payloads.filter (fun p => mcuChOf p=some chId)=[] := List.prefix_nil.mp hp
    have hnone : []≠transfer chId [] := by simp [transfer]
    rw [publishedFor_transfer watchTxs chId hw payloads [] (by rw [hnil]; exact List.nil_prefix),hnil,
      if_neg hnone]
    rfl

end Gatherer

section Host

variable {τ : Type} (anchor : Anchor τ)

/-- What holds of connection `n` in the host: its frames are in the USB writer's queue, it was called
with a published dictionary, and it was handed a piece of what came in for its channel. -/
structure Client.Served (h : SmartHost τ) (n : Nat) (cl : Client τ) : Prop where
  order : (h.entered.filter (·.1=n)).map (·.2)=cl.conn.usbOut
  sent : cl.conn.usbOut <+: cl.conn.dispatched.map (⟨cl.chId,·⟩)
  accounted : h.usbWriter.alive=true → cl.conn.Accounted cl.chId
  called : cl.dictionary∈h.gatherer.publishedFor cl.chId
  slotted : cl.conn.Slotted
  active : cl.conn.phase≠.returned → ∃d,h.task cl.chId=.serving d n
  piece : cl.since+cl.handed.length ≤ (h.arrived cl.chId).length ∧
    cl.handed <+: (h.arrived cl.chId).drop cl.since
  whole : cl.conn.slotOpen=true → cl.handed=(h.arrived cl.chId).drop cl.since
  early : cl.conn.phase=.starting → cl.handed=[] ∧ cl.conn.fromMcu=[] ∧ cl.since=0
  queue : cl.conn.fromMcu <:+ cl.handed

/-- What the host may change around a connection. What comes in while its slot is closed is not for
it. -/
theorem Client.Served.host {h h' : SmartHost τ} {n : Nat} {cl : Client τ} (hs : cl.Served h n)
    (he : (h'.entered.filter (·.1=n)).map (·.2)=(h.entered.filter (·.1=n)).map (·.2))
    (hw : h'.usbWriter.alive=true → h.usbWriter.alive=true)
    (hg : ∀c,h.gatherer.publishedFor c <+: h'.gatherer.publishedFor c)
    (ht : ∀d,h.task cl.chId=.serving d n → ∃d',h'.task cl.chId=.serving d' n)
    (hr : h.arrived cl.chId <+: h'.arrived cl.chId)
    (ho : cl.conn.slotOpen=true → h'.arrived cl.chId=h.arrived cl.chId) : cl.Served h' n where
  order := he.trans hs.order
  sent := hs.sent
  accounted ha := hs.accounted (hw ha)
  called := (hg _).subset hs.called
  slotted := hs.slotted
  active hne := (hs.active hne).elim ht
  piece := by
    obtain ⟨hlen,hpre⟩ := hs.piece
    obtain ⟨more,hmore⟩ := hr
    rw [← hmore,List.length_append,List.drop_append_of_le_length (by omega)]
    exact ⟨by omega,hpre.trans (List.prefix_append _ _)⟩
  whole hopen := by
    rw [ho hopen]
    exact hs.whole hopen
  early := hs.early
  queue := hs.queue

namespace SmartHost

/-- The host is in order: its connections are served, and those of one channel follow one another. -/
structure Serves (h : SmartHost τ) : Prop where
  data : ctrlCh∉h.channels
  sent : h.entered.map (·.2)=h.usbWriter.sent
  known : ∀e∈h.entered,∃cl,h.clients e.1=some cl ∧ e.2.chId=cl.chId
  gathered : ∃done,h.gatherer=gatherDictionary h.watched done ∧
    done++h.control=ctrlPayloads h.usbReader.given
  learned : ∀c d,h.task c=.listening d → d∈h.gatherer.publishedFor c
  serving : ∀c d n,h.task c=.serving d n →
    ∃cl,h.clients n=some cl ∧ cl.chId=c ∧ cl.dictionary=d
  fresh : ∀n,h.next ≤ n → h.clients n=none
  newest : ∀c d n,h.task c=.serving d n → ∀m cl,n < m → h.clients m=some cl → cl.chId≠c
  apart : ∀m n cl cl',m < n → h.clients m=some cl → h.clients n=some cl' → cl.chId=cl'.chId →
    cl'.conn.phase≠.starting → cl.since+cl.handed.length ≤ cl'.since
  clients : ∀n cl,h.clients n=some cl → cl.Served h n

variable {h : SmartHost τ} {n : Nat} {cl cl' : Client τ} {c : UInt8}

theorem Serves.new {channels : List UInt8} (hc : ctrlCh∉channels) :
    Serves (runSmartHost channels : SmartHost τ) where
  data := hc
  sent := rfl
  known _ h := absurd h List.not_mem_nil
  gathered := ⟨[],rfl,rfl⟩
  learned _ _ h := by cases h
  serving _ _ _ h := by cases h
  fresh _ _ := rfl
  newest _ _ _ h := by cases h
  apart _ _ _ _ _ h := by cases h
  clients _ _ h := by cases h

theorem setClient_self (h : SmartHost τ) (n : Nat) (cl : Client τ) :
    (h.setClient n cl).clients n=some cl := Function.update_self ..

theorem setClient_other (h : SmartHost τ) (cl : Client τ) {m : Nat} (hm : m≠n) :
    (h.setClient n cl).clients m=h.clients m := Function.update_of_ne hm ..

/-- What holds of the changed connection and of the others holds of all. -/
theorem setClient_forall {P : Nat → Client τ → Prop} (hself : P n cl')
    (hother : ∀m q,m≠n → h.clients m=some q → P m q) :
    ∀m q,(h.setClient n cl').clients m=some q → P m q := by
  intro m q hq
  by_cases hm : m=n
  · subst hm
    rw [setClient_self] at hq
    obtain rfl := Option.some.inj hq
    exact hself
  · rw [setClient_other h cl' hm] at hq
    exact hother m q hm hq

/-- A channel that has a connection is one that the command line has named. -/
theorem Serves.channel (hs : Serves h) (hn : h.clients n=some cl) :
    cl.chId∈h.channels ∧ cl.chId≠ctrlCh := by
  obtain ⟨done,hg,-⟩ := hs.gathered
  have hd := (hs.clients n cl hn).called
  rw [hg] at hd
  have hmem : cl.chId∈h.channels := of_decide_eq_true (publishedFor_watched _ _ done hd)
  refine ⟨hmem,?_⟩
  intro hctrl
  exact hs.data (hctrl ▸ hmem)

/-- The slot of a channel is open for one connection at most, the newest. -/
theorem Serves.closed (hs : Serves h) {m : Nat} (hmn : m < n) (hm : h.clients m=some cl)
    (hn : h.clients n=some cl') (hc : cl.chId=cl'.chId) : cl.conn.phase=.returned := by
  by_contra hne
  obtain ⟨d,hd⟩ := (hs.clients m cl hm).active hne
  exact hs.newest _ d m hd n cl' hmn hn hc.symm

/-- What a step may change of the connection that takes it. -/
structure Steps (h : SmartHost τ) (cl cl' : Client τ) : Prop where
  chId : cl'.chId=cl.chId
  dictionary : cl'.dictionary=cl.dictionary
  returned : cl.conn.phase=.returned → cl'.since=cl.since ∧ cl'.handed=cl.handed
  since : cl'.since=cl.since ∧ (cl.conn.phase=.starting → cl'.conn.phase=.starting) ∨
    cl'.since=(h.arrived cl.chId).length

/-- A connection changes, and what is behind the USB device with it. -/
theorem Serves.change (hs : Serves h) (hn : h.clients n=some cl) (hst : Steps h cl cl')
    {w : PayloadWriter} {r : PayloadReader} {entered : List (Nat × PayloadTunnelFrame)}
    (hsent : entered.map (·.2)=w.sent)
    (hknown : ∀e∈entered,e∈h.entered ∨ e.1=n ∧ e.2.chId=cl.chId)
    (hctrl : ctrlPayloads r.given=ctrlPayloads h.usbReader.given)
    (hself : cl'.Served {h with usbWriter := w, usbReader := r, entered := entered} n)
    (hother : ∀m q,m≠n → h.clients m=some q →
      q.Served {h with usbWriter := w, usbReader := r, entered := entered} m) :
    Serves ({h with usbWriter := w, usbReader := r, entered := entered}.setClient n cl') := by
  set h' : SmartHost τ := {h with usbWriter := w, usbReader := r, entered := entered} with hh
  have hsame : ∀m,(h'.setClient n cl').clients m=none ↔ h.clients m=none := by
    intro m
    by_cases hm : m=n
    · subst hm
      rw [setClient_self,hn]
      simp
    · rw [setClient_other h' cl' hm]
  refine ⟨hs.data,hsent,?_,?_,hs.learned,?_,?_,?_,?_,?_⟩
  · intro e he
    rcases hknown e he with hold|⟨hen,hch⟩
    · obtain ⟨q,hq,hch⟩ := hs.known e hold
      by_cases hen : e.1=n
      · rw [hen] at hq ⊢
        obtain rfl := Option.some.inj (hn.symm.trans hq)
        exact ⟨cl',setClient_self h' n cl',hch.trans hst.chId.symm⟩
      · exact ⟨q,(setClient_other h' cl' hen).trans hq,hch⟩
    · rw [hen]
      exact ⟨cl',setClient_self h' n cl',hch.trans hst.chId.symm⟩
  · obtain ⟨done,hg,hd⟩ := hs.gathered
    exact ⟨done,hg,hd.trans hctrl.symm⟩
  · intro c d m hm
    obtain ⟨q,hq,hch,hd⟩ := hs.serving c d m hm
    by_cases hmn : m=n
    · subst hmn
      obtain rfl := Option.some.inj (hn.symm.trans hq)
      exact ⟨cl',setClient_self h' m cl',hst.chId.trans hch,hst.dictionary.trans hd⟩
    · exact ⟨q,(setClient_other h' cl' hmn).trans hq,hch,hd⟩
  · intro m hm
    exact (hsame m).mpr (hs.fresh m hm)
  · intro c d m hm
    have hall : ∀j q,(h'.setClient n cl').clients j=some q → m < j → q.chId≠c := by
      refine setClient_forall ?_ (fun j q _ hq hlt => hs.newest c d m hm j q hlt hq)
      intro hlt
      rw [hst.chId]
      exact hs.newest c d m hm n cl hlt hn
    exact fun j q hlt hq => hall j q hq hlt
  · intro i j q q' hij hi hj hch hph
    by_cases hin : i=n
    · subst hin
      rw [setClient_self] at hi
      obtain rfl := Option.some.inj hi
      have hne : j≠i := Nat.ne_of_gt hij
      rw [setClient_other h' cl' hne] at hj
      have hret := hs.closed hij hn hj (hst.chId.symm.trans hch)
      obtain ⟨h₁,h₂⟩ := hst.returned hret
      rw [h₁,h₂]
      exact hs.apart i j cl q' hij hn hj (hst.chId.symm.trans hch) hph
    · rw [setClient_other h' cl' hin] at hi
      by_cases hjn : j=n
      · subst hjn
        rw [setClient_self] at hj
        obtain rfl := Option.some.inj hj
        rw [hst.chId] at hch
        rcases hst.since with ⟨hsince,hstart⟩|hsince
        · rw [hsince]
          exact hs.apart i j q cl hij hi hn hch (fun h => hph (hstart h))
        · rw [hsince,← hch]
          exact (hs.clients i q hi).piece.1
      · rw [setClient_other h' cl' hjn] at hj
        exact hs.apart i j q q' hij hi hj hch hph
  · have hset : ∀m (q : Client τ),q.Served h' m → q.Served (h'.setClient n cl') m :=
      fun m q hq => hq.host rfl id (fun _ => List.prefix_refl _) (fun d hd => ⟨d,hd⟩)
        (List.prefix_refl _) (fun _ => rfl)
    exact setClient_forall (hset n cl' hself) (fun m q hm hq => hset m q (hother m q hm hq))

theorem Serves.setClient (hs : Serves h) (hn : h.clients n=some cl) (hst : Steps h cl cl')
    (hserved : cl'.Served h n) : Serves (h.setClient n cl') :=
  hs.change hn hst hs.sent (fun _ he => .inl he) rfl hserved (fun m q _ hq => hs.clients m q hq)

/-- What the gatherer or the USB tasks do between them, where no frame is sent or handed out. -/
theorem Serves.idle {h' : SmartHost τ} (hs : Serves h) (hch : h'.channels=h.channels)
    (he : h'.entered=h.entered) (hsent : h'.usbWriter.sent=h.usbWriter.sent)
    (ha : h'.usbWriter.alive=true → h.usbWriter.alive=true) (ht : h'.task=h.task)
    (hcl : h'.clients=h.clients) (hn : h'.next=h.next)
    (hg : ∀c,h.gatherer.publishedFor c <+: h'.gatherer.publishedFor c)
    (hgather : ∃done,h'.gatherer=gatherDictionary h'.watched done ∧
      done++h'.control=ctrlPayloads h'.usbReader.given)
    (hr : ∀c∈h.channels,h.arrived c <+: h'.arrived c)
    (ho : ∀n cl,h.clients n=some cl → cl.conn.slotOpen=true →
      h'.arrived cl.chId=h.arrived cl.chId) : Serves h' where
  data := by
    rw [hch]
    exact hs.data
  sent := by
    rw [he,hsent]
    exact hs.sent
  known := by
    rw [he,hcl]
    exact hs.known
  gathered := hgather
  learned := by
    rw [ht]
    exact fun c d hd => (hg c).subset (hs.learned c d hd)
  serving := by
    rw [ht,hcl]
    exact hs.serving
  fresh := by
    rw [hn,hcl]
    exact hs.fresh
  newest := by
    rw [ht,hcl]
    exact hs.newest
  apart := by
    rw [hcl]
    exact hs.apart
  clients := by
    rw [hcl]
    intro n cl hn
    refine (hs.clients n cl hn).host (by rw [he]) ha hg ?_ (hr _ (hs.channel hn).1) (ho n cl hn)
    intro d hd
    rw [ht]
    exact ⟨d,hd⟩

theorem Serves.gather (hs : Serves h) : Serves h.gather := by
  unfold SmartHost.gather
  cases hc : h.control with
  | nil => exact hs
  | cons payload rest =>
    obtain ⟨done,hg,hd⟩ := hs.gathered
    refine hs.idle rfl rfl rfl id rfl rfl rfl
      (fun c => publishedFor_onPayload _ c _ payload) ⟨done++[payload],?_,?_⟩
      (fun _ _ => List.prefix_refl _) (fun _ _ _ _ => rfl)
    · change h.gatherer.onPayload h.watched payload=gatherDictionary h.watched (done++[payload])
      rw [hg,gatherDictionary,gatherDictionary,List.foldl_append]
      rfl
    · rw [hc] at hd
      change done++[payload]++rest=_
      rw [List.append_assoc]
      exact hd

/-- The task of a channel goes on to listen; its connections have returned. -/
theorem Serves.listen (hs : Serves h) {d : List UInt8} (hd : d∈h.gatherer.publishedFor c)
    (hret : ∀n cl,h.clients n=some cl → cl.chId=c → cl.conn.phase=.returned) :
    Serves {h with task := Function.update h.task c (.listening d)} where
  data := hs.data
  sent := hs.sent
  known := hs.known
  gathered := hs.gathered
  learned := by
    intro j e hj
    by_cases hjc : j=c
    · subst hjc
      have hself : SmartTask.listening d=.listening e := (Function.update_self ..).symm.trans hj
      obtain rfl := SmartTask.listening.inj hself
      exact hd
    · exact hs.learned j e ((Function.update_of_ne hjc ..).symm.trans hj)
  serving := by
    intro j e n hj
    by_cases hjc : j=c
    · subst hjc
      have hself : SmartTask.listening d=.serving e n := (Function.update_self ..).symm.trans hj
      cases hself
    · exact hs.serving j e n ((Function.update_of_ne hjc ..).symm.trans hj)
  fresh := hs.fresh
  newest := by
    intro j e n hj
    by_cases hjc : j=c
    · subst hjc
      have hself : SmartTask.listening d=.serving e n := (Function.update_self ..).symm.trans hj
      cases hself
    · exact hs.newest j e n ((Function.update_of_ne hjc ..).symm.trans hj)
  apart := hs.apart
  clients := by
    intro n cl hn
    have hserved := hs.clients n cl hn
    by_cases hc : cl.chId=c
    · have hphase := hret n cl hn hc
      exact ⟨hserved.order,hserved.sent,hserved.accounted,hserved.called,hserved.slotted,
        fun hne => absurd hphase hne,hserved.piece,hserved.whole,hserved.early,hserved.queue⟩
    · refine hserved.host rfl id (fun _ => List.prefix_refl _) ?_ (List.prefix_refl _) (fun _ => rfl)
      exact fun e he => ⟨e,(Function.update_of_ne hc ..).trans he⟩

theorem Serves.learn (hs : Serves h) (c : UInt8) : Serves (h.learn c) := by
  unfold SmartHost.learn
  split
  · rename_i d hwait hd
    refine hs.listen (List.mem_of_getLast? hd) ?_
    intro n cl hn hc
    by_contra hne
    obtain ⟨e,he⟩ := (hs.clients n cl hn).active hne
    rw [hc,hwait] at he
    cases he
  · exact hs

theorem Serves.served (hs : Serves h) (c : UInt8) : Serves (h.served c) := by
  unfold SmartHost.served
  split
  · rename_i d n hserving
    split_ifs with hret
    · obtain ⟨cl,hn,hch,hdict⟩ := hs.serving c d n hserving
      have hphase : cl.conn.phase=.returned := by
        rw [hn] at hret
        exact of_decide_eq_true hret
      refine hs.listen ?_ ?_
      · rw [← hdict,← hch]
        exact (hs.clients n cl hn).called
      · intro m q hm hmc
        by_contra hne
        obtain ⟨e,he⟩ := (hs.clients m q hm).active hne
        rw [hmc,hserving] at he
        obtain ⟨-,rfl⟩ := SmartTask.serving.inj he
        obtain rfl := Option.some.inj (hn.symm.trans hm)
        exact hne hphase
    · exact hs
  · exact hs

theorem Serves.accept (hs : Serves h) (c : UInt8) : Serves (h.accept anchor c) := by
  unfold SmartHost.accept
  split
  · rename_i d hlisten
    have hpub := hs.learned c d hlisten
    have hidle : ∀n cl,h.clients n=some cl → cl.chId=c → cl.conn.phase=.returned := by
      intro n cl hn hc
      by_contra hne
      obtain ⟨e,he⟩ := (hs.clients n cl hn).active hne
      rw [hc,hlisten] at he
      cases he
    have hold : ∀n cl,h.clients n=some cl → n < h.next := by
      intro n cl hn
      by_contra hge
      rw [hs.fresh n (Nat.le_of_not_lt hge)] at hn
      cases hn
    have htask : ∀j e n,Function.update h.task c (.serving d h.next) j=.serving e n →
        j=c ∧ e=d ∧ n=h.next ∨ j≠c ∧ h.task j=.serving e n := by
      intro j e n hj
      by_cases hjc : j=c
      · subst hjc
        rw [Function.update_self] at hj
        obtain ⟨rfl,rfl⟩ := SmartTask.serving.inj hj
        exact .inl ⟨rfl,rfl,rfl⟩
      · rw [Function.update_of_ne hjc] at hj
        exact .inr ⟨hjc,hj⟩
    let new : Client τ := ⟨c,d,.new anchor,0,[]⟩
    have hnone : h.entered.filter (·.1=h.next)=[] := by
      refine List.filter_eq_nil_iff.mpr ?_
      intro e he hn
      obtain ⟨q,hq,-⟩ := hs.known e he
      have hlt := hold e.1 q hq
      rw [of_decide_eq_true hn] at hlt
      exact absurd hlt (Nat.lt_irrefl _)
    refine ⟨hs.data,hs.sent,?_,hs.gathered,?_,?_,?_,?_,?_,?_⟩
    · intro e he
      obtain ⟨q,hq,hch⟩ := hs.known e he
      exact ⟨q,(setClient_other h new (Nat.ne_of_lt (hold _ q hq))).trans hq,hch⟩
    · intro j e hj
      by_cases hjc : j=c
      · subst hjc
        have hself : SmartTask.serving d h.next=.listening e :=
          (Function.update_self ..).symm.trans hj
        cases hself
      · exact hs.learned j e ((Function.update_of_ne hjc ..).symm.trans hj)
    · intro j e n hj
      rcases htask j e n hj with ⟨rfl,rfl,rfl⟩|⟨-,hj⟩
      · exact ⟨new,setClient_self h h.next new,rfl,rfl⟩
      · obtain ⟨q,hq,hrest⟩ := hs.serving j e n hj
        exact ⟨q,(setClient_other h new (Nat.ne_of_lt (hold n q hq))).trans hq,hrest⟩
    · intro n hn
      have hne : n≠h.next := Nat.ne_of_gt hn
      exact (setClient_other h new hne).trans (hs.fresh n (Nat.le_of_lt hn))
    · intro j e n hj
      have hall : ∀m q,(h.setClient h.next new).clients m=some q → n < m → q.chId≠j := by
        rcases htask j e n hj with ⟨rfl,rfl,rfl⟩|⟨hjc,hj⟩
        · refine setClient_forall (fun hlt => absurd hlt (Nat.lt_irrefl _)) ?_
          intro m q _ hm hlt
          exact absurd hlt (Nat.not_lt_of_gt (hold m q hm))
        · refine setClient_forall (fun _ => Ne.symm hjc) ?_
          exact fun m q _ hm hlt => hs.newest j e n hj m q hlt hm
      exact fun m q hlt hm => hall m q hm hlt
    · intro i j q q' hij hi hj hch hph
      by_cases hjn : j=h.next
      · subst hjn
        have hself := setClient_self h h.next new
        obtain rfl := Option.some.inj (hself.symm.trans hj)
        exact absurd rfl hph
      · have hj' := (setClient_other h new hjn).symm.trans hj
        have hlt := hold j q' hj'
        have hin : i≠h.next := Nat.ne_of_lt (Nat.lt_trans hij hlt)
        exact hs.apart i j q q' hij ((setClient_other h new hin).symm.trans hi) hj' hch hph
    · refine setClient_forall ?_ ?_
      · refine ⟨?_,List.nil_prefix,fun _ => rfl,hpub,fun h => absurd h Bool.false_ne_true,
          fun _ => ⟨d,Function.update_self ..⟩,⟨Nat.zero_le _,List.nil_prefix⟩,
          fun h => absurd h Bool.false_ne_true,fun _ => ⟨rfl,rfl,rfl⟩,List.suffix_refl _⟩
        exact List.map_eq_nil_iff.mpr hnone
      · intro m q hm hq
        refine (hs.clients m q hq).host rfl id (fun _ => List.prefix_refl _) ?_ (List.prefix_refl _)
          (fun _ => rfl)
        intro e he
        have hqc : q.chId≠c := by
          intro hqc
          rw [hqc,hlisten] at he
          cases he
        exact ⟨e,(Function.update_of_ne hqc ..).trans he⟩
  · exact hs

/-- A step of a connection's own. -/
theorem Serves.goes (hs : Serves h) (hn : h.clients n=some cl) {s : Connection τ}
    (hg : Connection.Goes cl.conn s)
    (ha : cl.conn.Accounted cl.chId → s.Accounted cl.chId) :
    Serves (h.setClient n {cl with conn := s}) := by
  have hserved := hs.clients n cl hn
  refine hs.setClient hn ⟨rfl,rfl,fun _ => ⟨rfl,rfl⟩,.inl ⟨rfl,hg.starting.mpr⟩⟩ ?_
  refine ⟨hserved.order.trans hg.usbOut.symm,?_,fun hw => ha (hserved.accounted hw),hserved.called,
    hg.slotted hserved.slotted,fun hne => hserved.active (fun h => hne (hg.returned h)),
    hserved.piece,fun hopen => hserved.whole (hg.slotOpen hopen),?_,hg.fromMcu.trans hserved.queue⟩
  · rw [hg.usbOut]
    exact hserved.sent.trans (hg.dispatched.map _)
  · intro hstart
    obtain ⟨h₁,h₂,h₃⟩ := hserved.early (hg.starting.mp hstart)
    have hm := hg.fromMcu
    rw [h₂] at hm
    exact ⟨h₁,List.suffix_nil.mp hm,h₃⟩

/-- The handler takes the slot: what comes in from here on is for its connection. -/
theorem Serves.register (hs : Serves h) (hn : h.clients n=some cl) :
    Serves (h.onConn anchor n cl .register) := by
  have hserved := hs.clients n cl hn
  change Serves (h.setClient n ⟨cl.chId,cl.dictionary,cl.conn.register,_,cl.handed⟩)
  by_cases hstart : cl.conn.phase=.starting
  · obtain ⟨h₁,h₂,-⟩ := hserved.early hstart
    rw [if_pos hstart]
    have hreg : cl.conn.register={cl.conn with
        phase := .relaying, slotOpen := true, writing := true} := if_pos hstart
    rw [hreg]
    have hne : cl.conn.phase≠.returned := by
      rw [hstart]
      simp
    refine hs.setClient hn ⟨rfl,rfl,fun hret => absurd hret hne,.inr rfl⟩ ?_
    refine ⟨hserved.order,hserved.sent,hserved.accounted,hserved.called,fun _ => .inl rfl,
      fun _ => hserved.active hne,?_,?_,fun h => ?_,hserved.queue⟩
    · dsimp only
      rw [h₁]
      exact ⟨Nat.le_refl _,List.nil_prefix⟩
    · intro _
      dsimp only
      rw [h₁,List.drop_length]
    · cases h
  · rw [if_neg hstart]
    have hreg : cl.conn.register=cl.conn := if_neg hstart
    rw [hreg]
    exact hs.setClient hn ⟨rfl,rfl,fun _ => ⟨rfl,rfl⟩,.inl ⟨rfl,id⟩⟩ hserved

/-- The forwarder passes on what it holds. -/
theorem Serves.forward (hs : Serves h) (hn : h.clients n=some cl) : Serves (h.forward n cl) := by
  have hserved := hs.clients n cl hn
  unfold SmartHost.forward
  split
  · rename_i payload hhold
    have hstep : Steps h cl {cl with conn := cl.conn.send cl.chId} := by
      refine ⟨rfl,rfl,fun _ => ⟨rfl,rfl⟩,.inl ⟨rfl,?_⟩⟩
      rw [Connection.send,hhold]
      exact id
    split
    · rename_i w hw
      obtain ⟨halive,-,hsent,-⟩ := WriterTask.send_eq hw
      have hacc := (Connection.send_moves cl.chId cl.conn).accounted cl.chId
        (hserved.accounted halive)
      have hself : ((h.entered++[(n,PayloadTunnelFrame.mk cl.chId payload)]).filter (·.1=n)).map
          (·.2)=cl.conn.usbOut++[⟨cl.chId,payload⟩] := by
        rw [List.filter_append,List.map_append,hserved.order]
        simp
      refine hs.change hn hstep ?_ ?_ rfl ?_ ?_
      · rw [hsent,← hs.sent,List.map_append]
        rfl
      · intro e he
        rcases List.mem_append.mp he with he|he
        · exact .inl he
        · obtain rfl := List.mem_singleton.mp he
          exact .inr ⟨rfl,rfl⟩
      · have hpre : (cl.conn.send cl.chId).usbOut <+:
            (cl.conn.send cl.chId).dispatched.map (⟨cl.chId,·⟩) := ⟨_,hacc.symm⟩
        rw [Connection.send,hhold] at hacc hpre ⊢
        exact ⟨hself,hpre,fun _ => hacc,hserved.called,hserved.slotted,hserved.active,
          hserved.piece,hserved.whole,hserved.early,hserved.queue⟩
      · intro m q hm hq
        refine (hs.clients m q hq).host ?_ (fun _ => halive) (fun _ => List.prefix_refl _)
          (fun d hd => ⟨d,hd⟩) (List.prefix_refl _) (fun _ => rfl)
        rw [List.filter_append,List.map_append]
        simp [Ne.symm hm]
    · rename_i hw
      have hdead : h.usbWriter.alive≠true := by
        rw [Ne,← h.usbWriter.send_isSome_iff ⟨cl.chId,payload⟩,hw]
        simp
      refine hs.setClient hn ⟨rfl,rfl,fun _ => ⟨rfl,rfl⟩,.inl ⟨rfl,id⟩⟩ ?_
      exact ⟨hserved.order,hserved.sent,fun ha => absurd ha hdead,hserved.called,hserved.slotted,
        hserved.active,hserved.piece,hserved.whole,hserved.early,hserved.queue⟩
  · exact hs

/-- The connection with the open slot is the one that the task of its channel is serving. -/
theorem Serves.open (hs : Serves h) (hn : h.clients n=some cl) (hopen : cl.conn.slotOpen=true) :
    ∃d,h.task cl.chId=.serving d n := by
  have hserved := hs.clients n cl hn
  refine hserved.active ?_
  rcases hserved.slotted hopen with hphase|hphase
  · rw [hphase]
    simp
  · rw [hphase]
    simp

/-- A payload comes out of the link for a channel, and goes to its connection. -/
theorem Serves.hand (hs : Serves h) {r : PayloadReader} {pf : PayloadTunnelFrame}
    (hg : r.given=h.usbReader.given++[pf]) (hdata : pf.chId≠ctrlCh) :
    Serves (SmartHost.hand {h with usbReader := r} pf) := by
  have hctrl : ctrlPayloads r.given=ctrlPayloads h.usbReader.given := by
    change payloadsOf ctrlCh r.given=payloadsOf ctrlCh h.usbReader.given
    rw [hg,payloadsOf_append,payloadsOf_other hdata,List.append_nil]
  have hgrows : ∀c,h.arrived c <+: ({h with usbReader := r} : SmartHost τ).arrived c := by
    intro c
    change payloadsOf c h.usbReader.given <+: payloadsOf c r.given
    rw [hg,payloadsOf_append]
    exact List.prefix_append _ _
  have hother : ∀c,c≠pf.chId →
      ({h with usbReader := r} : SmartHost τ).arrived c=h.arrived c := by
    intro c hc
    change payloadsOf c r.given=payloadsOf c h.usbReader.given
    rw [hg,payloadsOf_append,payloadsOf_other (Ne.symm hc),List.append_nil]
  have hlost : (∀n cl,h.clients n=some cl → cl.conn.slotOpen=true → cl.chId≠pf.chId) →
      Serves {h with usbReader := r} := by
    intro hclosed
    obtain ⟨done,hdone,hd⟩ := hs.gathered
    exact hs.idle rfl rfl rfl id rfl rfl rfl (fun _ => List.prefix_refl _)
      ⟨done,hdone,hd.trans hctrl.symm⟩ (fun c _ => hgrows c)
      (fun n cl hn hopen => hother _ (hclosed n cl hn hopen))
  unfold SmartHost.hand
  dsimp only
  split
  · rename_i d n hserving
    obtain ⟨cl,hn,hch,hdict⟩ := hs.serving _ d n hserving
    have honly : ∀m q,h.clients m=some q → q.conn.slotOpen=true → q.chId=pf.chId → m=n := by
      intro m q hm hopen hq
      obtain ⟨e,he⟩ := hs.open hm hopen
      rw [hq,hserving] at he
      exact (SmartTask.serving.inj he).2.symm
    rw [hn]
    dsimp only
    split_ifs with hopen
    · have hserved := hs.clients n cl hn
      have hphase := hserved.slotted hopen
      have hconn : cl.conn.onDemux pf.payload=
          {cl.conn with fromMcu := cl.conn.fromMcu++[pf.payload]} := if_pos hopen
      have harrived : ({h with usbReader := r} : SmartHost τ).arrived cl.chId=
          h.arrived cl.chId++[pf.payload] := by
        change payloadsOf cl.chId r.given=payloadsOf cl.chId h.usbReader.given++[pf.payload]
        rw [hg,payloadsOf_append,hch]
        exact congrArg _ (payloadsOf_own _ _)
      have hwhole : cl.handed++[pf.payload]=
          (({h with usbReader := r} : SmartHost τ).arrived cl.chId).drop cl.since := by
        obtain ⟨hlen,-⟩ := hserved.piece
        rw [harrived,List.drop_append_of_le_length (by omega),hserved.whole hopen]
      let cl' : Client τ := {cl with
        conn := {cl.conn with fromMcu := cl.conn.fromMcu++[pf.payload]}
        handed := cl.handed++[pf.payload]}
      have hst : Steps h cl cl' := by
        refine ⟨rfl,rfl,?_,.inl ⟨rfl,id⟩⟩
        intro hret
        rw [hret] at hphase
        simp at hphase
      rw [hconn]
      refine hs.change hn hst hs.sent (fun _ he => .inl he) hctrl ?_ ?_
      · refine ⟨hserved.order,hserved.sent,hserved.accounted,hserved.called,hserved.slotted,
          hserved.active,⟨?_,⟨[],(List.append_nil _).trans hwhole⟩⟩,fun _ => hwhole,?_,?_⟩
        · have hlen := hserved.piece.1
          rw [harrived,List.length_append,List.length_append]
          exact Nat.add_le_add_right hlen 1
        · intro hstart
          rw [show cl.conn.phase=.starting from hstart] at hphase
          simp at hphase
        · obtain ⟨gone,hgone⟩ := hserved.queue
          exact ⟨gone,by rw [← List.append_assoc,hgone]⟩
      · intro m q hm hq
        refine (hs.clients m q hq).host rfl id (fun _ => List.prefix_refl _) (fun d hd => ⟨d,hd⟩)
          (hgrows _) ?_
        intro hqo
        exact hother _ (fun hqc => hm (honly m q hq hqo hqc))
    · refine hlost ?_
      intro m q hm hqo hqc
      obtain rfl := honly m q hm hqo hqc
      obtain rfl := Option.some.inj (hn.symm.trans hm)
      exact hopen hqo
  · rename_i hnot
    refine hlost ?_
    intro m q hm hqo hqc
    obtain ⟨d,hd⟩ := hs.open hm hqo
    rw [hqc] at hd
    exact hnot d m hd

theorem Serves.demux (hs : Serves h) : Serves h.demux := by
  obtain ⟨-,-,hgiven,-⟩ := h.usbReader.next_eq PayloadTunnelCodec.codec
    PayloadTunnelCodec.codec_implements
  unfold SmartHost.demux PayloadReader.nextFrame
  generalize h.usbReader.next PayloadTunnelCodec.codec
    PayloadTunnelCodec.codec_implements=res at *
  obtain ⟨item,r⟩ := res
  have hg : r.given=h.usbReader.given++item.toList := hgiven
  obtain ⟨done,hdone,hd⟩ := hs.gathered
  have hidle : ∀control,done++control=ctrlPayloads r.given →
      (∀c∈h.channels,payloadsOf c r.given=payloadsOf c h.usbReader.given) →
      Serves {h with usbReader := r, control := control} := by
    intro control hc hr
    refine hs.idle rfl rfl rfl id rfl rfl rfl (fun _ => List.prefix_refl _) ⟨done,hdone,hc⟩ ?_ ?_
    · exact fun c hmem => ⟨[],(List.append_nil _).trans (hr c hmem).symm⟩
    · exact fun n cl hn _ => hr _ (hs.channel hn).1
  cases item with
  | none =>
    rw [Option.toList_none,List.append_nil] at hg
    exact hidle h.control (by rw [hg]; exact hd) (fun c _ => by rw [hg])
  | some pf =>
    rw [Option.toList_some] at hg
    dsimp only
    by_cases hctrl : pf.chId=ctrlCh
    · rw [if_pos hctrl]
      refine hidle (h.control++[pf.payload]) ?_ ?_
      · have hown : payloadsOf ctrlCh [pf]=[pf.payload] := by
          rw [← hctrl]
          exact payloadsOf_own _ _
        change _=payloadsOf ctrlCh r.given
        rw [hg,payloadsOf_append,hown,← List.append_assoc,hd]
        rfl
      · intro c hc
        have hne : pf.chId≠c := by
          rintro rfl
          exact hs.data (hctrl ▸ hc)
        rw [hg,payloadsOf_append,payloadsOf_other hne,List.append_nil]
    · rw [if_neg hctrl]
      by_cases hch : pf.chId∈h.channels
      · rw [if_pos hch]
        exact hs.hand hg hctrl
      · rw [if_neg hch]
        refine hidle h.control ?_ ?_
        · change _=payloadsOf ctrlCh r.given
          rw [hg,payloadsOf_append,payloadsOf_other hctrl,List.append_nil]
          exact hd
        · intro c hc
          have hne : pf.chId≠c := by
            rintro rfl
            exact hch hc
          rw [hg,payloadsOf_append,payloadsOf_other hne,List.append_nil]

theorem Serves.onConn (hs : Serves h) (hn : h.clients n=some cl) (e : ConnEvent) :
    Serves (h.onConn anchor n cl e) := by
  have hown : e≠.send → e≠.register → (∀p,e≠.demux p) →
      Serves (h.setClient n {cl with conn := cl.conn.step anchor cl.chId cl.dictionary e}) := by
    intro hsend hreg hdemux
    exact hs.goes hn (Connection.step_goes anchor cl.chId cl.dictionary cl.conn hsend hreg hdemux)
      ((Connection.step_moves anchor cl.chId cl.dictionary cl.conn e).accounted cl.chId)
  cases e with
  | demux p => exact hs
  | send => exact hs.forward hn
  | register => exact hs.register anchor hn
  | socketRead result => exact hown (by simp) (by simp) (by simp)
  | mcuPayload => exact hown (by simp) (by simp) (by simp)
  | unregister => exact hown (by simp) (by simp) (by simp)
  | recv => exact hown (by simp) (by simp) (by simp)
  | cancelForwarder => exact hown (by simp) (by simp) (by simp)
  | write ok => exact hown (by simp) (by simp) (by simp)
  | cancelWriter => exact hown (by simp) (by simp) (by simp)

/-- A change of the USB tasks that neither sends nor hands out a frame. -/
theorem Serves.usb (hs : Serves h) {w : PayloadWriter} {r : PayloadReader}
    (hsent : w.sent=h.usbWriter.sent) (ha : w.alive=true → h.usbWriter.alive=true)
    (hr : r.given=h.usbReader.given) : Serves {h with usbWriter := w, usbReader := r} := by
  obtain ⟨done,hdone,hd⟩ := hs.gathered
  have harrived : ∀c,({h with usbWriter := w, usbReader := r} : SmartHost τ).arrived c=
      h.arrived c := by
    intro c
    change payloadsOf c r.given=payloadsOf c h.usbReader.given
    rw [hr]
  refine hs.idle rfl rfl hsent ha rfl rfl rfl (fun _ => List.prefix_refl _) ⟨done,hdone,?_⟩ ?_ ?_
  · change _=ctrlPayloads r.given
    rw [hr]
    exact hd
  · exact fun c _ => ⟨[],(List.append_nil _).trans (harrived c).symm⟩
  · exact fun n cl _ _ => harrived _

theorem Serves.step (hs : Serves h) (op : SmartHostOp) : Serves (h.step anchor op) := by
  unfold SmartHost.step
  split_ifs
  · exact hs
  · cases op with
    | gather => exact hs.gather
    | learn c => exact hs.learn c
    | accept c => exact hs.accept anchor c
    | served c => exact hs.served c
    | conn n e =>
      dsimp only
      split
      · exact hs
      · rename_i cl hn
        exact hs.onConn anchor hn e
    | usbRecv => exact hs.usb h.usbWriter.recv_sent h.usbWriter.recv_alive rfl
    | usbWriteEnd => exact hs.usb rfl (fun h => absurd h Bool.false_ne_true) rfl
    | usbFrame => exact hs.demux
    | usbEnd => exact hs.usb rfl id rfl

theorem Serves.usbWrite (hs : Serves h) (n : Nat) : Serves (h.usbWrite n).1 := by
  unfold SmartHost.usbWrite
  split_ifs
  · exact hs
  · refine hs.usb (h.usbWriter.write_sent n) ?_ rfl
    rw [WriterTask.write_alive]
    exact id

theorem Serves.usbRead (hs : Serves h) (link : List UInt8) (n : Nat) :
    Serves (h.usbRead link n).1 :=
  hs.usb rfl id (h.usbReader.pull_eq link n).2

theorem step_link (h : SmartHost τ) (op : SmartHostOp) :
    LinkKept h.usbWriter (h.step anchor op).usbWriter h.usbReader
      (h.step anchor op).usbReader := by
  unfold SmartHost.step
  split_ifs
  · exact .same rfl
  · cases op with
    | gather =>
      unfold SmartHost.gather
      dsimp only
      split <;> exact .same rfl
    | learn c =>
      unfold SmartHost.learn
      dsimp only
      split <;> exact .same rfl
    | accept c =>
      unfold SmartHost.accept
      dsimp only
      split <;> exact .same rfl
    | served c =>
      unfold SmartHost.served
      dsimp only
      split
      · split_ifs <;> exact .same rfl
      · exact .same rfl
    | conn n e =>
      dsimp only
      split
      · exact .same rfl
      · rename_i cl hn
        cases e with
        | send =>
          change LinkKept h.usbWriter (h.forward n cl).usbWriter h.usbReader
            (h.forward n cl).usbReader
          unfold SmartHost.forward
          split
          · split
            · rename_i w hw
              exact .sends hw
            · exact .same rfl
          · exact .same rfl
        | _ => exact .same rfl
    | usbRecv => exact ⟨rfl,h.usbWriter.recv_written,PayloadWriter.recv_admits⟩
    | usbWriteEnd => exact ⟨rfl,rfl,WriterTask.Admits.stop⟩
    | usbFrame =>
      obtain ⟨-,htaken,-,-⟩ := h.usbReader.next_eq PayloadTunnelCodec.codec
        PayloadTunnelCodec.codec_implements
      unfold SmartHost.demux PayloadReader.nextFrame SmartHost.hand
      dsimp only
      split
      · exact .same htaken
      · split_ifs
        · exact .same htaken
        · split
          · split
            · split_ifs <;> exact .same htaken
            · exact .same htaken
          · exact .same htaken
        · exact .same htaken
    | usbEnd => exact .same rfl

theorem usbWrite_link (h : SmartHost τ) (n : Nat) :
    (h.usbWrite n).1.usbReader.taken=h.usbReader.taken ∧
      (h.usbWrite n).1.usbWriter.written=h.usbWriter.written++(h.usbWrite n).2 ∧
      (h.usbWriter.Admits PayloadTunnelFrame.fits →
        (h.usbWrite n).1.usbWriter.Admits PayloadTunnelFrame.fits) := by
  unfold SmartHost.usbWrite
  split_ifs
  · exact ⟨rfl,(List.append_nil _).symm,id⟩
  · exact ⟨rfl,h.usbWriter.write_written n,fun h => h.write n⟩

theorem usbRead_link (h : SmartHost τ) (link : List UInt8) (n : Nat) :
    (h.usbRead link n).1.usbReader.taken++(h.usbRead link n).2=h.usbReader.taken++link ∧
      (h.usbRead link n).1.usbWriter=h.usbWriter :=
  ⟨h.usbReader.pull_taken link n,rfl⟩

end SmartHost

end Host

end Serialmux.Windlass

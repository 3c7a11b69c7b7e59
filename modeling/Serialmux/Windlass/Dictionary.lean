import Serialmux.Framework.Chunks
import Serialmux.Framework.Interleave
import Serialmux.Windlass.Framing

namespace Serialmux.Windlass

open Framework

/-- Channel id reserved for the control channel. -/
def ctrlCh : UInt8 := 0xFF

/-- Control payload type: dictionary fragment bytes. -/
def ctrlDictFrag : UInt8 := 0x01

/-- Control payload type: dictionary transfer complete for one MCU channel. -/
def ctrlDictDone : UInt8 := 0x02

/-- Maximum dictionary bytes per fragment: type and channel id take two of the 255 bytes. -/
def dictFragMax : Nat := 253

/-- The DICT_FRAG payloads of a dictionary. -/
def dictFrags (chId : UInt8) (dictionary : List UInt8) : List (List UInt8) :=
  (chunksOf dictFragMax dictionary).map (ctrlDictFrag::chId::·)

/-- The control frames for a dictionary, in the order in which they go to the USB writer. -/
def sendDictionary (chId : UInt8) (dictionary : List UInt8) : List PayloadTunnelFrame :=
  (dictFrags chId dictionary++[[ctrlDictDone,chId]]).map (⟨ctrlCh,·⟩)

/-- The USB writer task of the smart proxy. -/
def payloadWriter (queue : List PayloadTunnelFrame) : Except EncodeError (List UInt8) :=
  queue.foldlM (fun dst pf => PayloadTunnelCodec.encode pf dst) []

/-- The gatherer's accumulators `dicts`, and what it has sent on the watch channels so far. -/
structure Gatherer where
  dicts : UInt8 → Option (List UInt8)
  published : List (UInt8 × List UInt8)

namespace Gatherer

def new : Gatherer := ⟨fun _ => none,[]⟩

variable (watchTxs : UInt8 → Bool)

/-- One control payload. `watchTxs` tells the channels that have a watch sender. -/
def onPayload (self : Gatherer) (payload : List UInt8) : Gatherer :=
  match payload with
  | ctrlType::mcuChId::bytes =>
    if ctrlType=ctrlDictFrag then
      ⟨Function.update self.dicts mcuChId (some ((self.dicts mcuChId).getD []++bytes)),
        self.published⟩
    else if ctrlType=ctrlDictDone then
      ⟨Function.update self.dicts mcuChId none,
        if watchTxs mcuChId then self.published++[(mcuChId,(self.dicts mcuChId).getD [])]
        else self.published⟩
    -- Unknown control type.
    else self
  -- Control payload too short.
  | _ => self

end Gatherer

def gatherDictionary (watchTxs : UInt8 → Bool) (payloads : List (List UInt8)) : Gatherer :=
  payloads.foldl (Gatherer.onPayload watchTxs) .new

/-- The USB reader passes the payloads of the control channel to the gatherer. -/
def ctrlPayloads (frames : List PayloadTunnelFrame) : List (List UInt8) :=
  (frames.filter (fun pf => pf.chId=ctrlCh)).map (·.payload)

/-- The host's side of the transfer, from the reads of the link on. -/
def hostGather (watchTxs : UInt8 → Bool) (reads : List (List UInt8)) : Gatherer :=
  gatherDictionary watchTxs (ctrlPayloads (PayloadTunnelCodec.codec.framedRead () [] reads).1)

/-- The dictionaries published for a channel, in order. -/
def Gatherer.publishedFor (self : Gatherer) (chId : UInt8) : List (List UInt8) :=
  (self.published.filter (fun p => p.1=chId)).map Prod.snd

/-- The channel a control payload is about. -/
def mcuChOf : List UInt8 → Option UInt8
  | _::mcuChId::_ => some mcuChId
  | _ => none

section View

/-- What the gatherer holds for one channel: the bytes accumulated and the dictionaries out. -/
abbrev View := List UInt8 × List (List UInt8)

def Gatherer.view (self : Gatherer) (chId : UInt8) : View :=
  ((self.dicts chId).getD [],self.publishedFor chId)

/-- A control payload, as its own channel sees it. -/
def viewStep (watched : Bool) (v : View) (payload : List UInt8) : View :=
  match payload with
  | ctrlType::_::bytes =>
    if ctrlType=ctrlDictFrag then (v.1++bytes,v.2)
    else if ctrlType=ctrlDictDone then ([],if watched then v.2++[v.1] else v.2)
    else v
  | _ => v

variable (watchTxs : UInt8 → Bool) (chId : UInt8)

theorem view_onPayload (self : Gatherer) (payload : List UInt8) :
    (self.onPayload watchTxs payload).view chId=
      if mcuChOf payload=some chId then viewStep (watchTxs chId) (self.view chId) payload
      else self.view chId := by
  match payload with
  | [] => rfl
  | [_] => rfl
  | ctrlType::mcuChId::bytes =>
    have hkey : mcuChOf (ctrlType::mcuChId::bytes)=some chId ↔ mcuChId=chId := by simp [mcuChOf]
    simp only [hkey,Gatherer.onPayload,viewStep]
    by_cases hc : mcuChId=chId
    · subst hc
      rw [if_pos rfl]
      split_ifs <;> simp [Gatherer.view,Gatherer.publishedFor]
    · have hc' : chId≠mcuChId := Ne.symm hc
      rw [if_neg hc]
      split_ifs <;> simp [Gatherer.view,Gatherer.publishedFor,hc,hc']

/-- The channels do not meet in the gatherer: each sees its own payloads only. -/
theorem view_gather (self : Gatherer) (payloads : List (List UInt8)) :
    (payloads.foldl (Gatherer.onPayload watchTxs) self).view chId=
      (payloads.filter (fun p => mcuChOf p=some chId)).foldl (viewStep (watchTxs chId))
        (self.view chId) := by
  induction payloads generalizing self with
  | nil => rfl
  | cons payload payloads ih =>
    rw [List.foldl_cons,ih,view_onPayload,List.filter_cons]
    by_cases hc : mcuChOf payload=some chId
    · simp [hc]
    · simp [hc]

theorem publishedFor_gather (payloads : List (List UInt8)) :
    (gatherDictionary watchTxs payloads).publishedFor chId=
      ((payloads.filter (fun p => mcuChOf p=some chId)).foldl (viewStep (watchTxs chId))
        ([],[])).2 := by
  have h := view_gather watchTxs chId .new payloads
  exact congrArg Prod.snd h

theorem foldl_viewStep_frags (watched : Bool) (v : View) (chunks : List (List UInt8)) :
    (chunks.map (ctrlDictFrag::chId::·)).foldl (viewStep watched) v=(v.1++chunks.flatten,v.2) := by
  induction chunks generalizing v with
  | nil => simp
  | cons chunk chunks ih =>
    rw [List.map_cons,List.foldl_cons,ih,List.flatten_cons,← List.append_assoc]
    rfl

/-- A complete transfer publishes what had been accumulated before it, followed by its own
dictionary. -/
theorem foldl_viewStep_transfer (watched : Bool) (v : View) (dictionary : List UInt8) :
    ((dictFrags chId dictionary++[[ctrlDictDone,chId]]).foldl (viewStep watched) v)=
      ([],if watched then v.2++[v.1++dictionary] else v.2) := by
  rw [List.foldl_append,dictFrags,foldl_viewStep_frags,chunksOf_flatten (by decide)]
  rfl

end View

section Link

variable {queue : List PayloadTunnelFrame}

/-- Frames that fit are all accepted, and the link carries their images. -/
theorem payloadWriter_fits (h : ∀pf∈queue,pf.payload.length ≤ 255) :
    payloadWriter queue=.ok (queue.map PayloadTunnelCodec.image).flatten := by
  have haux (dst : List UInt8) : queue.foldlM (fun dst pf => PayloadTunnelCodec.encode pf dst) dst=
      .ok (dst++(queue.map PayloadTunnelCodec.image).flatten) := by
    induction queue generalizing dst with
    | nil =>
      rw [List.map_nil,List.flatten_nil,List.append_nil]
      rfl
    | cons pf queue ih =>
      obtain ⟨hpf,hrest⟩ := List.forall_mem_cons.mp h
      rw [List.foldlM_cons,PayloadTunnelCodec.encode_fits hpf,List.map_cons,List.flatten_cons,
        ← List.append_assoc]
      exact ih hrest _
  exact haux []

/-- The payload codec reads back what the writer wrote, however the link cuts it. -/
theorem framedRead_payloadWriter (h : ∀pf∈queue,pf.payload.length ≤ 255)
    {reads : List (List UInt8)}
    (hr : reads.flatten=(queue.map PayloadTunnelCodec.image).flatten) :
    (PayloadTunnelCodec.codec.framedRead () [] reads).1=queue := by
  have e := PayloadTunnelCodec.codec_implements.framedRead_encoded (s := ()) rfl
    PayloadTunnelCodec.image id (fun pf hpf => PayloadTunnelCodec.move_frame (h pf hpf)) hr
  rw [e,List.map_id]

end Link

section Transfer

theorem mem_sendDictionary {chId : UInt8} {dictionary : List UInt8} {pf : PayloadTunnelFrame}
    (h : pf∈sendDictionary chId dictionary) :
    pf.chId=ctrlCh ∧ mcuChOf pf.payload=some chId ∧ pf.payload.length ≤ 255 := by
  obtain ⟨payload,hp,rfl⟩ := List.mem_map.mp h
  rcases List.mem_append.mp hp with hp|hp
  · obtain ⟨chunk,hc,rfl⟩ := List.mem_map.mp hp
    have hlen := (mem_chunksOf (by decide) hc).2
    refine ⟨rfl,rfl,?_⟩
    simp only [dictFragMax] at hlen
    simp only [List.length_cons]
    omega
  · obtain rfl := List.mem_singleton.mp hp
    exact ⟨rfl,rfl,by simp⟩

theorem sendDictionary_payloads (chId : UInt8) (dictionary : List UInt8) :
    (sendDictionary chId dictionary).map (·.payload)=
      dictFrags chId dictionary++[[ctrlDictDone,chId]] := by
  rw [sendDictionary,List.map_map]
  exact List.map_id _

/-- The senders of the exporter: one transfer for each channel that has a dictionary, and whatever
sends data frames. -/
def exporterSenders (dicts : UInt8 → Option (List UInt8)) (data : List PayloadTunnelFrame) :
    Option UInt8 → List PayloadTunnelFrame
  | none => data
  | some chId => (dicts chId).elim [] (sendDictionary chId)

theorem exporterSenders_some (dicts : UInt8 → Option (List UInt8))
    (data : List PayloadTunnelFrame) (chId : UInt8) :
    exporterSenders dicts data (some chId)=(dicts chId).elim [] (sendDictionary chId) := rfl

/-- The transfer a frame belongs to. -/
def transferOf (pf : PayloadTunnelFrame) : Option UInt8 :=
  if pf.chId=ctrlCh then mcuChOf pf.payload else none

theorem filter_ctrlPayloads (frames : List PayloadTunnelFrame) (chId : UInt8) :
    (ctrlPayloads frames).filter (fun p => mcuChOf p=some chId)=
      (frames.filter (fun pf => transferOf pf=some chId)).map (·.payload) := by
  induction frames with
  | nil => rfl
  | cons pf frames ih =>
    by_cases hc : pf.chId=ctrlCh
    · by_cases hm : mcuChOf pf.payload=some chId
      · simpa [ctrlPayloads,transferOf,hc,hm] using ih
      · simpa [ctrlPayloads,transferOf,hc,hm] using ih
    · simpa [ctrlPayloads,transferOf,hc] using ih

/-- Every control frame of the transfers is accepted by the codec. From the bytes, in any reads, the
host publishes for each channel it watches the dictionary of the channel, once, and nothing else. -/
theorem dictionaries_arrive (dicts : UInt8 → Option (List UInt8)) (data : List PayloadTunnelFrame)
    (hdata : ∀pf∈data,pf.chId≠ctrlCh ∧ pf.payload.length ≤ 255) (queue : List PayloadTunnelFrame)
    (hqueue : Interleaves (exporterSenders dicts data) queue) (watchTxs : UInt8 → Bool) :
    (∀pf∈queue,pf.chId=ctrlCh → ∀dst,∃out,PayloadTunnelCodec.encode pf dst=.ok out) ∧
    ∃bytes,payloadWriter queue=.ok bytes ∧
      ∀reads : List (List UInt8),reads.flatten=bytes → ∀chId,
        (hostGather watchTxs reads).publishedFor chId=
          if watchTxs chId then (dicts chId).toList else [] := by
  have hsent : ∀sender,∀pf∈exporterSenders dicts data sender,
      transferOf pf=sender ∧ pf.payload.length ≤ 255 := by
    intro sender pf hpf
    match sender with
    | none => exact ⟨if_neg (hdata pf hpf).1,(hdata pf hpf).2⟩
    | some chId =>
      rw [exporterSenders_some] at hpf
      cases hd : dicts chId with
      | none => simp [hd] at hpf
      | some dictionary =>
        rw [hd] at hpf
        obtain ⟨hctrl,hch,hlen⟩ := mem_sendDictionary hpf
        exact ⟨by rw [transferOf,if_pos hctrl,hch],hlen⟩
  have hfits : ∀pf∈queue,pf.payload.length ≤ 255 := by
    intro pf hpf
    obtain ⟨sender,hs⟩ := hqueue.mem pf hpf
    exact (hsent sender pf hs).2
  refine ⟨?_,_,payloadWriter_fits hfits,?_⟩
  · intro pf hpf _ dst
    exact ⟨_,PayloadTunnelCodec.encode_fits (hfits pf hpf) dst⟩
  · intro reads hr chId
    have hown := hqueue.filter transferOf (fun s pf hpf => (hsent s pf hpf).1) (some chId)
    rw [hostGather,framedRead_payloadWriter hfits hr,publishedFor_gather,filter_ctrlPayloads,hown,
      exporterSenders_some]
    cases dicts chId with
    | none => simp
    | some dictionary =>
      have ht := foldl_viewStep_transfer chId (watchTxs chId) ([],[]) dictionary
      rw [Option.elim_some,sendDictionary_payloads,ht]
      rfl

/-- Two transfers, the second of an empty dictionary, around a data frame. -/
theorem dictionaries_arrive_two :
    (hostGather (fun chId => chId==0 || chId==1)
        [[0xFF,3,1],[0,0x2A,1,1,7,0xFF,2,2],[1,0xFF,2,2,0]]).publishedFor 0=[[0x2A]] := by
  have h := dictionaries_arrive (fun chId => if chId=0 then some [0x2A] else if chId=1 then some []
    else none) [⟨1,[7]⟩] (by decide) [⟨0xFF,[1,0,0x2A]⟩,⟨1,[7]⟩,⟨0xFF,[2,1]⟩,⟨0xFF,[2,0]⟩] ?_
    (fun chId => chId==0 || chId==1)
  · obtain ⟨bytes,hbytes,hpub⟩ := h.2
    obtain rfl := Except.ok.inj hbytes
    exact hpub _ (by decide) 0
  · refine .take (some 0) rfl (.take none rfl (.take (some 1) rfl (.take (some 0) rfl (.done ?_))))
    intro sender
    match sender with
    | none => rfl
    | some chId =>
      by_cases h0 : chId=0
      · subst h0
        rfl
      by_cases h1 : chId=1
      · subst h1
        rfl
      simp [Function.update,exporterSenders,h0,h1]

theorem flatten_take_frags (dictionary : List UInt8) (n : Nat) :
    ((chunksOf dictFragMax dictionary).take n).flatten=[] ↔ n=0 ∨ dictionary=[] := by
  constructor
  · intro h
    by_contra hne
    obtain ⟨hn,hd⟩ := not_or.mp hne
    obtain ⟨k,rfl⟩ := Nat.exists_eq_succ_of_ne_zero hn
    -- The first fragment of a dictionary that has one is not empty.
    rw [chunksOf_cons (by decide) hd,List.take_succ_cons,List.flatten_cons,List.append_eq_nil_iff,
      List.take_eq_nil_iff] at h
    rcases h.1 with h|h
    · exact absurd h (by decide)
    · exact hd h
  · intro h
    rcases h with rfl|rfl
    · rfl
    · rw [chunksOf_nil,List.take_nil]
      rfl

/-- A transfer after one that was cut off. Whatever other channels send in between, the channel gets
the new dictionary exactly when nothing of the old one had come through. -/
theorem restarted_transfer (watchTxs : UInt8 → Bool) (chId : UInt8) (hw : watchTxs chId=true)
    (old dictionary : List UInt8) (n : Nat) (payloads : List (List UInt8))
    (hp : payloads.filter (fun p => mcuChOf p=some chId)=
      (dictFrags chId old).take n++(sendDictionary chId dictionary).map (·.payload)) :
    (gatherDictionary watchTxs payloads).publishedFor chId=[dictionary] ↔ n=0 ∨ old=[] := by
  have hcut := foldl_viewStep_frags chId true ([],[]) ((chunksOf dictFragMax old).take n)
  have ht := foldl_viewStep_transfer chId true (((chunksOf dictFragMax old).take n).flatten,[])
    dictionary
  rw [publishedFor_gather,hp,hw,sendDictionary_payloads,List.foldl_append,dictFrags,← List.map_take,
    hcut,List.nil_append,ht]
  have hiff : ((chunksOf dictFragMax old).take n).flatten++dictionary=dictionary ↔
      n=0 ∨ old=[] := List.append_left_eq_self.trans (flatten_take_frags old n)
  simpa using hiff

theorem restarted_transfer_first :
    (gatherDictionary (fun _ => true) [[1,4,9],[1,3,0x2A],[2,3]]).publishedFor 3=[[0x2A]] :=
  (restarted_transfer (fun _ => true) 3 rfl [7] [0x2A] 0 [[1,4,9],[1,3,0x2A],[2,3]]
    (by decide)).mpr (.inl rfl)

/-- An exporter that dies after its first fragment and starts again: the host publishes the
fragment twice. -/
theorem restart_doubles_fragment :
    (gatherDictionary (fun _ => true)
        ((dictFrags 3 [0x2A]).take 1++(sendDictionary 3 [0x2A]).map (·.payload))).publishedFor 3≠
      [[0x2A]] := by
  decide

end Transfer

end Serialmux.Windlass

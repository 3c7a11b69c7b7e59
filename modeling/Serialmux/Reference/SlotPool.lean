import Serialmux.Framework.Machine
import Serialmux.Framework.RoundRobin
import Serialmux.Channel.Tcp
import Serialmux.Reference.Channels

namespace Serialmux.Reference

open Framework Protocol Channel

/-- What happens to the slots of a source: a client asks for one, and holds it unless the rest of
its accept fails; a connection is closed. -/
inductive PoolCall
  | alloc (client : Option Nat)
  | close (slot : Slot)

inductive PoolReply
  | slot (k : Slot)
  | exhausted
  | closed
  | fault
  deriving DecidableEq

def PoolReply.ofSearch : Option Slot → PoolReply
  | none => .exhausted
  | some k => .slot k

section Rust

/-- The slots of a Rust source. A slot that is handed out stays free where there is no client. -/
def portPool (s : TcpSourceChannel) : PoolCall → TcpSourceChannel × PoolReply
  | .alloc client =>
    let conns := match s.allocSlot.1,client with
      | some k,some stream => Function.update s.conns k (some (.opened stream false))
      | _,_ => s.conns
    ({s.allocSlot.2 with conns := conns},.ofSearch s.allocSlot.1)
  | .close k => ({s with conns := Function.update s.conns k none},.closed)

/-- Where the search goes on after the slots that were handed out: behind the last of them. -/
def cursorAfter : Nat → List PoolReply → Nat
  | cursor,[] => cursor
  | _,.slot k::rs => cursorAfter (k.val+1) rs
  | cursor,_::rs => cursorAfter cursor rs

def Vacant (s : TcpSourceChannel) (k : Slot) : Prop := s.conns k=none

/-- The search stops at the first free slot or passes all it was to look at. -/
theorem probe_cases (conns : Slot → Option Channel.TcpConn) (tries cursor : Nat) :
    (∃i<tries,TcpSourceChannel.probe conns tries cursor=(some (place cursor i),cursor+i+1) ∧
      conns (place cursor i)=none ∧ ∀j < i,conns (place cursor j)≠none) ∨
    (TcpSourceChannel.probe conns tries cursor=(none,cursor+tries) ∧
      ∀j<tries,conns (place cursor j)≠none) := by
  induction tries generalizing cursor with
  | zero => exact .inr ⟨rfl,nofun⟩
  | succ tries ih =>
    have hshift (j : Nat) : (place (cursor+1) j : Slot)=place cursor (j+1) := by
      rw [place,place,Nat.add_assoc,Nat.add_comm 1]
    by_cases h0 : conns (place cursor 0)=none
    · exact .inl ⟨0,Nat.succ_pos _,if_pos h0,h0,nofun⟩
    have hstep : TcpSourceChannel.probe conns (tries+1) cursor=
        TcpSourceChannel.probe conns tries (cursor+1) := if_neg h0
    have hall {l : Nat} (h : ∀j<l,conns (place (cursor+1) j)≠none) :
        ∀j<l+1,conns (place cursor j)≠none := by
      intro j hj
      cases j with
      | zero => exact h0
      | succ j => exact hshift j ▸ h j (by omega)
    rw [hstep]
    rcases ih (cursor+1) with ⟨i,hi,hp,hfree,hbefore⟩|⟨hp,hnone⟩
    · refine .inl ⟨i+1,by omega,?_,hshift i ▸ hfree,hall hbefore⟩
      rw [hp,hshift,show cursor+1+i+1=cursor+(i+1)+1 by omega]
    · refine .inr ⟨?_,hall hnone⟩
      rw [hp,show cursor+1+tries=cursor+(tries+1) by omega]

/-- `alloc_slot` finds the first free slot from its cursor on, and its cursor then stands behind that
slot; a search without success makes a full turn. -/
theorem allocSlot_searched (s : TcpSourceChannel) :
    Searched (Vacant s) s.nextSlot s.allocSlot.1 ∧ s.allocSlot.2.conns=s.conns ∧
    s.allocSlot.2.nextSlot%maxTcpConns=
      (s.allocSlot.1.elim s.nextSlot (fun k => k.val+1))%maxTcpConns := by
  rcases probe_cases s.conns maxTcpConns s.nextSlot with ⟨i,hi,hp,hfree,hbefore⟩|⟨hp,hnone⟩
  · have hval : (place s.nextSlot i : Slot).val=(s.nextSlot+i)%maxTcpConns := rfl
    have hsearch : Searched (Vacant s) s.nextSlot (some (place s.nextSlot i)) :=
      searched_some hi hfree hbefore
    rw [TcpSourceChannel.allocSlot,hp]
    refine ⟨hsearch,rfl,?_⟩
    rw [Option.elim_some,hval,Nat.mod_add_mod]
  · have hsearch : Searched (Vacant s) s.nextSlot none := searched_none hnone
    rw [TcpSourceChannel.allocSlot,hp]
    refine ⟨hsearch,rfl,?_⟩
    rw [Option.elim_none,Nat.add_mod_right]

/-- A free slot stays free until it is handed out. -/
theorem portPool_vacant {s : TcpSourceChannel} {m : Slot} (h : Vacant s m) (call : PoolCall)
    (hm : (portPool s call).2≠.slot m) : Vacant (portPool s call).1 m := by
  cases call with
  | close k =>
    by_cases hk : m=k
    · rw [hk]
      exact Function.update_self ..
    · exact (Function.update_of_ne hk ..).trans h
  | alloc client =>
    simp only [portPool,PoolReply.ofSearch] at hm
    unfold Vacant portPool
    cases hr : s.allocSlot.1 with
    | none => exact h
    | some k =>
      have hk : m≠k := by
        intro he
        rw [hr,he] at hm
        exact hm rfl
      cases client with
      | none => exact h
      | some stream => exact (Function.update_of_ne hk ..).trans h

/-- The cursor stands behind the slot that was handed out last, up to whole turns. -/
theorem portPool_cursor (s : TcpSourceChannel) (call : PoolCall) :
    (portPool s call).1.nextSlot%maxTcpConns=
      cursorAfter s.nextSlot [(portPool s call).2]%maxTcpConns := by
  cases call with
  | close k => rfl
  | alloc client =>
    refine (allocSlot_searched s).2.2.trans ?_
    simp only [portPool]
    cases s.allocSlot.1 with
    | none => rfl
    | some k => rfl

theorem cursorAfter_congr {c c' : Nat} (h : c%maxTcpConns=c'%maxTcpConns) (rs : List PoolReply) :
    cursorAfter c rs%maxTcpConns=cursorAfter c' rs%maxTcpConns := by
  induction rs generalizing c c' with
  | nil => exact h
  | cons r rs ih =>
    cases r with
    | slot k => rfl
    | exhausted => exact ih h
    | closed => exact ih h
    | fault => exact ih h

theorem cursorAfter_cons (c : Nat) (r : PoolReply) (rs : List PoolReply) :
    cursorAfter c (r::rs)=cursorAfter (cursorAfter c [r]) rs := by
  cases r with
  | slot k => rfl
  | exhausted => rfl
  | closed => rfl
  | fault => rfl

theorem portPool_run_cursor (s : TcpSourceChannel) (calls : List PoolCall) :
    (after portPool s calls).nextSlot%maxTcpConns=
      cursorAfter s.nextSlot (outs portPool s calls)%maxTcpConns := by
  induction calls generalizing s with
  | nil => rfl
  | cons call calls ih =>
    rw [after_cons,ih,outs_cons,cursorAfter_cons]
    exact cursorAfter_congr (portPool_cursor s call) _

/-- Between two times that a slot is handed out, every other slot that was free is. -/
theorem portPool_turn {s : TcpSourceChannel} {k m : Slot} (calls : List PoolCall) (hm : Vacant s m)
    (hmk : ahead s.nextSlot m<ahead s.nextSlot k) (hnext : (after portPool s calls).allocSlot.1=some k) :
    .slot m∈outs portPool s calls := by
  induction calls generalizing s with
  | nil =>
    have hle := hnext ▸ (allocSlot_searched s).1
    exact absurd (hle.2 m hm) (Nat.not_le.mpr hmk)
  | cons call calls ih =>
    rw [outs_cons]
    by_cases hout : (portPool s call).2=.slot m
    · exact hout ▸ List.mem_cons_self
    have hvacant := portPool_vacant hm call hout
    have hcursor := portPool_cursor s call
    refine List.mem_cons_of_mem _ (ih hvacant ?_ hnext)
    rw [ahead_congr hcursor,ahead_congr hcursor]
    cases call with
    | close j => exact hmk
    | alloc client =>
      have hsearch := (allocSlot_searched s).1
      simp only [portPool] at hout ⊢
      cases hr : s.allocSlot.1 with
      | none => exact hmk
      | some j =>
        rw [hr] at hsearch hout
        exact (hsearch.turn hm (fun he => hout (congrArg PoolReply.slot he)) hmk).2

end Rust

section C

/-- The slots of a C source. Without memory for the buffer its fd is closed again. -/
def refPool (t : TcpSrc) : PoolCall → TcpSrc × PoolReply
  | .alloc client =>
    match srcAllocCid t with
    | none => (t,.fault)
    | some none => (t,.exhausted)
    | some (some (t,cid)) =>
      let c := {t.conns cid with
        fd := client, watch := .fresh, connecting := false, txbuf := client.map (fun _ => [])}
      ({t with conns := Function.update t.conns cid c},.slot cid)
  | .close k => ({t with conns := Function.update t.conns k (tcpConnCloseFd (t.conns k))},.closed)

/-- `src_alloc_cid` finds the first free slot from its cursor on, and sets its cursor behind it. -/
theorem srcAllocCid_searched (t : TcpSrc) :
    ∃r,Searched (fun k => (t.conns k).fd=none) t.nextCid r ∧
      srcAllocCid t=some (r.map (fun k => ({t with nextCid := (k.val+1)%maxTcpConns},k))) := by
  unfold srcAllocCid
  cases hfind : (List.range maxTcpConns).find?
      (fun i => (t.conns (Fin.ofNat maxTcpConns (t.nextCid+i))).fd=none) with
  | none =>
    refine ⟨none,searched_none (fun j hj hfree => ?_),rfl⟩
    have hnone := List.find?_eq_none.mp hfind j (List.mem_range.mpr hj)
    exact hnone (decide_eq_true hfree)
  | some i =>
    obtain ⟨hfree,hi,hbefore⟩ := List.find?_range_eq_some.mp hfind
    refine ⟨some (place t.nextCid i),?_,?_⟩
    · refine searched_some (List.mem_range.mp hi) (of_decide_eq_true hfree) (fun j hj h => ?_)
      have hno : decide ((t.conns (place t.nextCid j)).fd=none)=false :=
        Bool.not_eq_true' _ ▸ hbefore j hj
      exact absurd h (of_decide_eq_false hno)
    · have hcid (k : Slot) : (k.val+1)%maxTcpConns<2^16 :=
        (Nat.mod_lt _ (by decide : 0 < maxTcpConns)).trans (by decide)
      exact Option.bind_eq_some_iff.mpr ⟨(),if_pos (hcid _),rfl⟩

/-- The two channels have the same free slots and search from the same place. -/
structure Tracks (s : TcpSourceChannel) (t : TcpSrc) : Prop where
  vacant : ∀k,Vacant s k ↔ (t.conns k).fd=none
  cursor : t.nextCid=s.nextSlot%maxTcpConns

theorem tcpConnCloseFd_fd (c : TcpConn) : (tcpConnCloseFd c).fd=none := by
  unfold tcpConnCloseFd
  split_ifs with h
  · exact h
  · rfl

theorem Tracks.step {s : TcpSourceChannel} {t : TcpSrc} (h : Tracks s t) (call : PoolCall) :
    (portPool s call).2=(refPool t call).2 ∧ Tracks (portPool s call).1 (refPool t call).1 := by
  cases call with
  | close k =>
    refine ⟨rfl,fun m => ?_,h.cursor⟩
    unfold Vacant portPool refPool
    by_cases hm : m=k
    · simp only [hm,Function.update_self,tcpConnCloseFd_fd]
    · simp only [Function.update_of_ne hm]
      exact h.vacant m
  | alloc client =>
    obtain ⟨hport,hconns,hcursor⟩ := allocSlot_searched s
    obtain ⟨r,href,halloc⟩ := srcAllocCid_searched t
    have hr : s.allocSlot.1=r := by
      refine hport.unique (href.congr h.vacant ?_)
      rw [h.cursor,Nat.mod_mod]
    rw [hr] at hcursor
    unfold refPool portPool
    rw [hr,halloc]
    cases r with
    | none =>
      refine ⟨rfl,h.vacant,?_⟩
      exact h.cursor.trans hcursor.symm
    | some k =>
      refine ⟨rfl,fun m => ?_,hcursor.symm⟩
      have hvacant := h.vacant m
      unfold Vacant at hvacant ⊢
      by_cases hm : m=k
      · have hfree := hvacant.mpr (hm ▸ href.1)
        cases client with
        | none => simpa [← hm] using hfree
        | some stream => simp [← hm]
      · cases client with
        | none => simpa [Function.update_of_ne hm] using hvacant
        | some stream => simpa [Function.update_of_ne hm] using hvacant

/-- A C source as `ch_init` leaves it. -/
def TcpSrc.empty : TcpSrc := ⟨false,false,0,fun _ => .zero⟩

theorem tracks_empty (chId : UInt8) : Tracks (.new chId) .empty := ⟨fun _ => ⟨fun _ => rfl,fun _ => rfl⟩,rfl⟩

/-- From an empty channel, after every history of allocations and closes: C and Rust have handed out
the same slots, and C's cursor is below the number of slots; the next search of Rust finds the first
free slot behind the one that was handed out last, or that there is none; and once a slot has been
handed out it is not handed out again before every other one that was free then. -/
theorem slots_fair (chId : UInt8) (calls : List PoolCall) :
    let s := after portPool (.new chId) calls
    outs refPool .empty calls=outs portPool (.new chId) calls ∧
    (after refPool .empty calls).nextCid < maxTcpConns ∧
    Searched (Vacant s) (cursorAfter 0 (outs portPool (.new chId) calls)) s.allocSlot.1 ∧
    ∀client k,(portPool s (.alloc client)).2=.slot k →
      ∀between,(after portPool (portPool s (.alloc client)).1 between).allocSlot.1=some k →
        ∀m≠k,Vacant (portPool s (.alloc client)).1 m →
          .slot m∈outs portPool (portPool s (.alloc client)).1 between := by
  intro s
  have hrun : Always (together portPool refPool) (fun _ _ => True) (.new chId,.empty) calls :=
    always_of_forall _ (fun _ _ => trivial)
  obtain ⟨houts,htracks⟩ := outs_of_lockstep (R := Tracks) (G := fun _ _ => True)
    (fun _ _ call h _ => h.step call) (tracks_empty chId) hrun
  have hcursor : s.nextSlot%maxTcpConns=
      cursorAfter 0 (outs portPool (.new chId) calls)%maxTcpConns := portPool_run_cursor _ calls
  refine ⟨houts.symm,?_,?_,?_⟩
  · rw [htracks.cursor]
    exact Nat.mod_lt _ (by decide)
  · exact (allocSlot_searched s).1.congr (fun _ => Iff.rfl) hcursor.symm
  · intro client k hk between hagain m hm hvacant
    refine portPool_turn between hvacant ?_ hagain
    have hnext := portPool_cursor s (.alloc client)
    rw [hk] at hnext
    have hbehind : (portPool s (.alloc client)).1.nextSlot%maxTcpConns=(k.val+1)%maxTcpConns := hnext
    rw [ahead_congr hbehind,ahead_congr hbehind]
    exact ahead_succ hm

/-- A client takes slot 0 and goes; the slot comes up again after all others, slot 9 among them. -/
theorem slots_fair_round :
    .slot 9∈outs portPool (portPool (.new 1) (.alloc (some 7))).1
      (.close 0::List.replicate 255 (.alloc none)) := by
  have hvacant : (portPool (.new 1) (.alloc (some 7))).1.conns 9=none := by decide +kernel
  exact (slots_fair 1 []).2.2.2 (some 7) 0 (by decide +kernel)
    (.close 0::List.replicate 255 (.alloc none)) (by decide +kernel) 9 (by decide) hvacant

end C

end Serialmux.Reference

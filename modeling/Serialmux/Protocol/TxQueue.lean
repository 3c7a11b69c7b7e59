import Serialmux.Framework.Ring
import Serialmux.Protocol.Frame

namespace Serialmux.Protocol

open Framework

/-- What a non-blocking `write()` answers: a count of accepted bytes, EAGAIN / EWOULDBLOCK, or a
real error. -/
inductive WriteResult where
  | wrote (n : Nat)
  | again
  | error
  deriving DecidableEq, Repr

/-- Outbound ring buffer for the CDC link. One cell stays free, so that head = tail means empty. -/
@[ext] structure TxQueue where
  buf : List UInt8
  head : Nat
  tail : Nat
  size : buf.length=linkTxbufSize
  headLt : head<linkTxbufSize
  tailLt : tail<linkTxbufSize

namespace TxQueue

def new : TxQueue :=
  ⟨List.replicate linkTxbufSize 0,0,0,List.length_replicate,by decide,by decide⟩

/-- Reset to empty. The stale bytes stay in the store. -/
def reset (q : TxQueue) : TxQueue := {q with head := 0, tail := 0, headLt := by decide, tailLt := by decide}

/-- Number of bytes currently queued. -/
def used (q : TxQueue) : Nat := (q.tail+linkTxbufSize-q.head)%linkTxbufSize

def isEmpty (q : TxQueue) : Bool := q.head==q.tail

/-- The test that makes `enqueue` drop a frame for lack of space. -/
def overflows (q : TxQueue) (data : List UInt8) : Bool := linkTxbufSize-1-q.used<data.length

private theorem copy_length (q : TxQueue) (data : List UInt8) (h : data.length≤linkTxbufSize) :
    (cyclicWrite q.buf q.tail data).length=linkTxbufSize := by
  have hs := q.size
  have ht := q.tailLt
  rw [cyclicWrite_length q.buf data (by omega) (by omega),hs]

/-- The copy of `data` into the store at tail; it splits at the end of the store. -/
def copyIn (q : TxQueue) (data : List UInt8) : List UInt8 :=
  if data.length≤linkTxbufSize-q.tail then splice q.buf q.tail data
  else splice (splice q.buf q.tail (data.take (linkTxbufSize-q.tail))) 0
    (data.drop (linkTxbufSize-q.tail))

theorem copyIn_eq (q : TxQueue) (data : List UInt8) :
    q.copyIn data=cyclicWrite q.buf q.tail data := by
  rw [copyIn,cyclicWrite,q.size]

/-- Enqueue `data` at the tail, whole or not at all. -/
def enqueue (q : TxQueue) (data : List UInt8) : TxQueue :=
  if data.length=0 then q
  else if h : q.overflows data then q
  else {
    buf := q.copyIn data
    head := q.head
    tail := (q.tail+data.length)%linkTxbufSize
    size := by
      rw [copyIn_eq]
      exact copy_length q data (by simp only [overflows,decide_eq_true_eq] at h; omega)
    headLt := q.headLt
    tailLt := Nat.mod_lt _ (by decide) }

/-- The contiguous segment from head that `drain_to_fd` offers to `write()`. -/
def avail (q : TxQueue) : Nat :=
  if q.head≤q.tail then q.tail-q.head else linkTxbufSize-q.head

/-- What a drain leaves, what it put on the link, and its result: `some empty`, or `none` for a
real write error. -/
structure Drained where
  queue : TxQueue
  written : List UInt8
  result : Option Bool

def advance (q : TxQueue) (n : Nat) : TxQueue :=
  {q with head := (q.head+n)%linkTxbufSize, headLt := Nat.mod_lt _ (by decide)}

/-- Write the next contiguous segment with a single `write()`, which accepts at most what it is
offered. -/
def drainToFd (q : TxQueue) (w : WriteResult) : Drained :=
  if q.isEmpty then ⟨q,[],some true⟩
  else
    match w with
    | .again => ⟨q,[],some false⟩
    | .error => ⟨q,[],none⟩
    | .wrote n =>
      let q' := q.advance (min n q.avail)
      ⟨q',(q.buf.drop q.head).take (min n q.avail),some q'.isEmpty⟩

/-- The queued bytes, oldest first: `used` cells read cyclically from head. -/
def contents (q : TxQueue) : List UInt8 := window q.buf q.head q.used

theorem used_lt (q : TxQueue) : q.used<linkTxbufSize := Nat.mod_lt _ (by decide)

theorem used_eq (q : TxQueue) :
    q.used=if q.head≤q.tail then q.tail-q.head else q.tail+linkTxbufSize-q.head := by
  have hh := q.headLt
  have ht := q.tailLt
  unfold used
  split_ifs with h
  · rw [show q.tail+linkTxbufSize-q.head=q.tail-q.head+linkTxbufSize by omega,Nat.add_mod_right,
      Nat.mod_eq_of_lt (by omega)]
  · exact Nat.mod_eq_of_lt (by omega)

@[simp] theorem contents_length (q : TxQueue) : q.contents.length=q.used :=
  window_length (by rw [q.size]; exact q.used_lt.le)

@[simp] theorem new_contents : new.contents=[] :=
  List.eq_nil_of_length_eq_zero (new.contents_length.trans (by decide))

@[simp] theorem reset_contents (q : TxQueue) : q.reset.contents=[] :=
  List.eq_nil_of_length_eq_zero (q.reset.contents_length.trans (by simp [used,reset]))

theorem isEmpty_iff (q : TxQueue) : q.isEmpty=true ↔ q.contents=[] := by
  rw [← List.length_eq_zero_iff,contents_length,used_eq,isEmpty,beq_iff_eq]
  have hh := q.headLt
  split_ifs with h <;> omega

/-- Head, tail and used agree: tail is head advanced by the queued bytes. -/
theorem tail_eq (q : TxQueue) : q.tail=(q.head+q.used)%linkTxbufSize := by
  have hh := q.headLt
  have ht := q.tailLt
  rw [used_eq]
  split_ifs with h
  · rw [Nat.add_sub_cancel' h,Nat.mod_eq_of_lt ht]
  · rw [show q.head+(q.tail+linkTxbufSize-q.head)=q.tail+linkTxbufSize by omega,
      Nat.add_mod_right,Nat.mod_eq_of_lt ht]

/-- Conversely the distance from head to tail is what `used` reports. -/
theorem used_of_tail (q : TxQueue) {n : Nat} (hn : n<linkTxbufSize)
    (h : q.tail=(q.head+n)%linkTxbufSize) : q.used=n := by
  have hh := q.headLt
  rw [used_eq,h]
  rcases Nat.lt_or_ge (q.head+n) linkTxbufSize with hw|hw
  · rw [Nat.mod_eq_of_lt hw,if_pos (Nat.le_add_right _ _),Nat.add_sub_cancel_left]
  · rw [Nat.mod_eq_sub_mod hw,Nat.mod_eq_of_lt (by omega),if_neg (by omega)]
    omega

theorem enqueue_overflow (q : TxQueue) (data : List UInt8) (h : q.overflows data=true) :
    q.enqueue data=q := by
  unfold enqueue
  split_ifs <;> rfl

/-- An enqueue that is not refused appends exactly its bytes. -/
theorem enqueue_contents (q : TxQueue) (data : List UInt8) (h : q.overflows data=false) :
    (q.enqueue data).contents=q.contents++data := by
  have hu := q.used_lt
  have hfit : q.used+data.length<linkTxbufSize := by
    simp only [overflows,decide_eq_false_iff_not] at h
    omega
  by_cases h0 : data.length=0
  · rw [enqueue,if_pos h0,List.eq_nil_of_length_eq_zero h0,List.append_nil]
  have hbuf : (q.enqueue data).buf=cyclicWrite q.buf q.tail data := by
    rw [enqueue,if_neg h0,dif_neg (by simp [h])]
    exact copyIn_eq q data
  have hhead : (q.enqueue data).head=q.head := by
    rw [enqueue,if_neg h0,dif_neg (by simp [h])]
  have htail : (q.enqueue data).tail=(q.tail+data.length)%linkTxbufSize := by
    rw [enqueue,if_neg h0,dif_neg (by simp [h])]
  have hused : (q.enqueue data).used=q.used+data.length := by
    apply used_of_tail _ hfit
    rw [htail,hhead,q.tail_eq,Nat.mod_add_mod,Nat.add_assoc]
  have hw := window_cyclicWrite q.buf data q.head q.used
    (by rw [q.size]; exact q.headLt) (by rw [q.size]; omega)
  rw [q.size,← q.tail_eq] at hw
  rw [contents,hbuf,hhead,hused,hw,contents]

theorem enqueue_used (q : TxQueue) (data : List UInt8) (h : q.overflows data=false) :
    (q.enqueue data).used=q.used+data.length := by
  rw [← contents_length,enqueue_contents q data h,List.length_append,contents_length]

theorem avail_le_used (q : TxQueue) : q.avail≤q.used ∧ q.head+q.avail≤linkTxbufSize := by
  have hh := q.headLt
  have ht := q.tailLt
  rw [used_eq,avail]
  split_ifs <;> omega

theorem advance_contents (q : TxQueue) {k : Nat} (hk : k≤q.used) :
    (q.advance k).contents=q.contents.drop k := by
  have hu := q.used_lt
  have hused : (q.advance k).used=q.used-k := by
    apply used_of_tail _ (by omega)
    have ht := q.tail_eq
    rw [advance,Nat.mod_add_mod,show q.head+k+(q.used-k)=q.head+q.used by omega]
    exact ht
  have hw := window_advance q.buf q.head q.used k
    (by rw [q.size]; exact hu.le) hk
  rw [q.size] at hw
  rw [contents,hused,contents,← hw]
  rfl

/-- Whatever `write()` answers, the bytes it took are the front of the queue and the others
stay. -/
theorem drainToFd_contents (q : TxQueue) (w : WriteResult) :
    (q.drainToFd w).written++(q.drainToFd w).queue.contents=q.contents := by
  unfold drainToFd
  split_ifs with h0
  · exact List.nil_append _
  match w with
  | .again => exact List.nil_append _
  | .error => exact List.nil_append _
  | .wrote n =>
    have ha := q.avail_le_used
    have hu := q.used_lt
    have hs := q.size
    have hseg := take_drop_eq_window q.buf q.head q.used (min n q.avail)
      (by omega) (by omega) (by omega)
    have hc := q.advance_contents (k := min n q.avail) (by omega)
    rw [← contents] at hseg
    simp only [hc,hseg,List.take_append_drop]

theorem drainToFd_result (q : TxQueue) (w : WriteResult) :
    (q.drainToFd w).result=some true ↔ (q.drainToFd w).queue.contents=[] := by
  unfold drainToFd
  split_ifs with h0
  · simpa using (q.isEmpty_iff).mp h0
  have hne : q.contents≠[] := fun h => h0 (q.isEmpty_iff.mpr h)
  match w with
  | .again => simpa using hne
  | .error => simpa using hne
  | .wrote n => simpa using (q.advance (min n q.avail)).isEmpty_iff

end TxQueue

end Serialmux.Protocol

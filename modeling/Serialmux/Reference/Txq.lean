import Serialmux.Framework.Checked
import Serialmux.Protocol.TxQueue

namespace Serialmux.Reference

open Framework Protocol

/-- Ring buffer of the C daemon. Nothing in its type bounds head and tail. -/
structure LinkTxq where
  buf : List UInt8
  head : Nat
  tail : Nat

/-- A ring that was memset to zero. -/
def LinkTxq.zero : LinkTxq := ⟨List.replicate linkTxbufSize 0,0,0⟩

def txqUsed (q : LinkTxq) : Option Nat := do
  let n ← sub? (q.tail+linkTxbufSize) q.head
  return n%linkTxbufSize

def txqEmpty (q : LinkTxq) : Bool := q.head==q.tail

/-- A memcpy into the array of the ring. -/
def LinkTxq.store (q : LinkTxq) (i : Nat) (data : List UInt8) : Option LinkTxq :=
  if i+data.length≤linkTxbufSize then some {q with buf := splice q.buf i data} else none

/-- The copy of `data` at tail, in one piece or in two. -/
def LinkTxq.fill (q : LinkTxq) (data : List UInt8) : Option LinkTxq := do
  let spaceToEnd ← sub? linkTxbufSize q.tail
  if data.length ≤ spaceToEnd then q.store q.tail data
  else
    let q ← q.store q.tail (data.take spaceToEnd)
    q.store 0 (data.drop spaceToEnd)

/-- No caller looks at the result, by which the source tells a push that found no space. -/
def txqPush (q : LinkTxq) (data : List UInt8) : Option LinkTxq := do
  let space ← sub? (linkTxbufSize-1) (← txqUsed q)
  if space<data.length then return q
  else
    let filled ← q.fill data
    return {filled with tail := (q.tail+data.length)%linkTxbufSize}

/-- The contiguous segment from head. -/
def LinkTxq.avail (q : LinkTxq) : Option Nat :=
  if q.head≤q.tail then sub? q.tail q.head else sub? linkTxbufSize q.head

/-- Writes the contiguous segment from head: the ring it leaves, and whether that is empty; `none`
is a real error of `write()`. -/
def txqDrain (q : LinkTxq) (w : WriteResult) : Option (LinkTxq × Option Bool) :=
  if txqEmpty q then some (q,some true)
  else do
    let avail ← q.avail
    guard (q.head+avail≤linkTxbufSize)
    match w with
    | .again => return (q,some false)
    | .error => return (q,none)
    | .wrote n =>
      let q := {q with head := (q.head+min n avail)%linkTxbufSize}
      return (q,some (txqEmpty q))

/-- The ring stores what the queue `t` stores, in the same cells. -/
structure LinkTxq.Rep (q : LinkTxq) (t : TxQueue) : Prop where
  buf : q.buf=t.buf
  head : q.head=t.head
  tail : q.tail=t.tail

namespace LinkTxq.Rep

variable {q : LinkTxq} {t : TxQueue}

theorem zero : Rep .zero .new := ⟨rfl,rfl,rfl⟩

theorem headLt (h : Rep q t) : q.head<linkTxbufSize := h.head ▸ t.headLt

theorem tailLt (h : Rep q t) : q.tail<linkTxbufSize := h.tail ▸ t.tailLt

theorem used (h : Rep q t) : txqUsed q=some t.used := by
  have hh := h.headLt
  rw [txqUsed,sub?_eq (by omega),h.head,h.tail]
  rfl

theorem empty (h : Rep q t) : txqEmpty q=t.isEmpty := by
  rw [txqEmpty,h.head,h.tail,TxQueue.isEmpty]

theorem fill (h : Rep q t) {data : List UInt8} (hfit : data.length≤linkTxbufSize) :
    q.fill data=some {q with buf := t.copyIn data} := by
  have ht := h.tailLt
  rw [LinkTxq.fill,sub?_eq ht.le,TxQueue.copyIn,← h.buf,← h.tail]
  simp only [Option.bind_eq_bind,Option.bind_some]
  split_ifs with hend
  · exact if_pos (by omega)
  · rw [store,if_pos (by rw [List.length_take]; omega)]
    exact if_pos (by rw [List.length_drop]; omega)

/-- A push is an `enqueue`. -/
theorem push (h : Rep q t) (data : List UInt8) :
    Yields (fun q' => Rep q' (t.enqueue data)) (txqPush q data) := by
  have hu := t.used_lt
  refine .next h.used (.next (sub?_eq (Nat.le_sub_one_of_lt hu)) ?_)
  split_ifs with hspace
  · rw [t.enqueue_overflow data (decide_eq_true hspace)]
    exact .some h
  refine .next (h.fill (by omega)) (.some ?_)
  have hroom : t.overflows data=false := decide_eq_false hspace
  by_cases h0 : data.length=0
  · have hnil := List.eq_nil_of_length_eq_zero h0
    rw [TxQueue.enqueue,if_pos h0,hnil]
    refine ⟨?_,h.head,?_⟩
    · simp [TxQueue.copyIn,splice]
    · rw [List.length_nil,Nat.add_zero,Nat.mod_eq_of_lt h.tailLt]
      exact h.tail
  · rw [TxQueue.enqueue,if_neg h0,dif_neg (by simp [hroom])]
    exact ⟨rfl,h.head,by rw [h.tail]⟩

theorem avail (h : Rep q t) : q.avail=some t.avail := by
  have hh := h.headLt
  rw [LinkTxq.avail,TxQueue.avail,← h.head,← h.tail]
  split_ifs with hle
  · exact sub?_eq hle
  · exact sub?_eq hh.le

/-- A drain is a `drain_to_fd`. -/
theorem drain (h : Rep q t) (w : WriteResult) :
    Yields (fun r => Rep r.1 (t.drainToFd w).queue ∧ r.2=(t.drainToFd w).result) (txqDrain q w) := by
  have hfits := t.avail_le_used.2
  have hempty := h.empty
  rw [txqDrain,TxQueue.drainToFd.eq_def,hempty]
  split_ifs with h0
  · exact .some ⟨h,rfl⟩
  rw [h.avail]
  refine Yields.check (by rw [h.head]; exact hfits) ?_
  cases w with
  | again => exact .some ⟨h,rfl⟩
  | error => exact .some ⟨h,rfl⟩
  | wrote n =>
    have hnext : Rep {q with head := (q.head+min n t.avail)%linkTxbufSize}
        (t.advance (min n t.avail)) := ⟨h.buf,by rw [h.head]; rfl,h.tail⟩
    exact .some ⟨hnext,congrArg some hnext.empty⟩

end LinkTxq.Rep

end Serialmux.Reference

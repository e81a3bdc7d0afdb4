import Mathlib.Data.List.Nodup
import Mathlib.Data.List.Perm.Subperm
import RtThread.Run
import RtThread.Kernel

/-! Ring block buffers (ringblk_buf.c). A block is named by its index in the block set. -/
namespace RtThread.RingBlock
open Transition

inductive Status where
  | unused | inited | put | get
  deriving DecidableEq

structure Blk where
  status : Status
  size : Nat
  buf : Nat
  deriving DecidableEq

structure BlkQueue where
  blocks : Nat
  blkNum : Nat
  deriving DecidableEq

structure Rbb where
  buf : Nat
  bufSize : Nat
  blkSet : Nat → Blk
  blkMaxNum : Nat
  blkList : List Nat

/-- Addition of a size to a pointer. -/
def add32 (a b : Nat) : Nat := (a + b) % 2 ^ 32

def rtRbbInit (buf bufSize : Nat) (blkSet : Nat → Blk) (blkMaxNum : Nat) : Rbb where
  buf := buf
  bufSize := bufSize
  blkSet := fun i => if i < blkMaxNum then { blkSet i with status := .unused } else blkSet i
  blkMaxNum := blkMaxNum
  blkList := []

def Rbb.setStatus (r : Rbb) (i : Nat) (status : Status) : Rbb :=
  { r with blkSet := Function.update r.blkSet i { r.blkSet i with status := status } }

def findEmptyBlkInSet (r : Rbb) : Option Nat :=
  (List.range r.blkMaxNum).find? (fun i => (r.blkSet i).status = .unused)

/-- The four assignments to the new block. -/
def Rbb.place (r : Rbb) (i buf size : Nat) : Rbb :=
  { r with blkList := r.blkList ++ [i], blkSet := Function.update r.blkSet i ⟨.inited, size, buf⟩ }

/-- rt_rbb_blk_alloc; an assertion that fails does not return. -/
def rtRbbBlkAlloc (r : Rbb) (blkSize : Nat) : Option (Rbb × Option Nat) :=
  if blkSize < 2 ^ 24 then
    match findEmptyBlkInSet r with
    | none => some (r, none)
    | some new =>
      if r.blkList.length < r.blkMaxNum then
        match r.blkList.head?, r.blkList.getLast? with
        | some h, some t =>
          let head := r.blkSet h
          let tail := r.blkSet t
          if head.buf ≤ tail.buf then
            let empty1 := sub32 (add32 r.buf r.bufSize) (add32 tail.buf tail.size)
            let empty2 := sub32 head.buf r.buf
            if blkSize ≤ empty1 then some (r.place new (add32 tail.buf tail.size) blkSize, some new)
            else if blkSize ≤ empty2 then some (r.place new r.buf blkSize, some new)
            else some (r, none)
          else
            let empty1 := sub32 head.buf (add32 tail.buf tail.size)
            if blkSize ≤ empty1 then some (r.place new (add32 tail.buf tail.size) blkSize, some new)
            else some (r, none)
        | _, _ => some (r.place new r.buf blkSize, some new)
      else some (r, none)
  else none

def rtRbbBlkPut (r : Rbb) (block : Nat) : Option Rbb :=
  if (r.blkSet block).status = .inited then some (r.setStatus block .put) else none

def rtRbbBlkGet (r : Rbb) : Rbb × Option Nat :=
  match r.blkList.find? (fun i => (r.blkSet i).status = .put) with
  | some i => (r.setStatus i .get, some i)
  | none => (r, none)

def rtRbbBlkFree (r : Rbb) (block : Nat) : Option Rbb :=
  if (r.blkSet block).status ≠ .unused then
    some (Rbb.setStatus { r with blkList := r.blkList.filter (· ≠ block) } block .unused)
  else none

/-- The end of a turn of the loop of rt_rbb_blk_queue_get. -/
def takeNode (r : Rbb) (node : Nat) : Rbb :=
  Rbb.setStatus { r with blkList := r.blkList.filter (· ≠ node) } node .get

/- rt_slist_remove leaves the link of the removed node as it is, so that the loop goes
through the nodes of the list at its start. -/
def queueGetLoop (queueDataLen : Nat) :
    Rbb → List Nat → Option Nat → Nat → BlkQueue → Rbb × Nat × BlkQueue
  | r, [], _, total, q => (r, total, q)
  | r, node :: rest, none, total, q =>
    if (r.blkSet node).status = .put then
      queueGetLoop queueDataLen (takeNode r node) rest (some node)
        (add32 total (r.blkSet node).size) ⟨node, 1⟩
    else queueGetLoop queueDataLen r rest none total q
  | r, node :: rest, some last, total, q =>
    if (r.blkSet node).status ≠ .put ∨ (r.blkSet last).buf > (r.blkSet node).buf ∨
        add32 total (r.blkSet node).size > queueDataLen then (r, total, q)
    else
      queueGetLoop queueDataLen (takeNode r node) rest (some node)
        (add32 total (r.blkSet node).size) { q with blkNum := q.blkNum + 1 }

/-- `q` is what the caller's queue structure holds before. -/
def rtRbbBlkQueueGet (r : Rbb) (queueDataLen : Nat) (q : BlkQueue) : Rbb × Nat × BlkQueue :=
  queueGetLoop queueDataLen r r.blkList none 0 q

/-- The blocks freed are neighbours in the block set; behind its end there are none. -/
def rtRbbBlkQueueFree (r : Rbb) (q : BlkQueue) : Option Rbb :=
  (List.range q.blkNum).foldlM
    (fun r i => if q.blocks + i < r.blkMaxNum then rtRbbBlkFree r (q.blocks + i) else none) r

/-- `queues` are the results of rt_rbb_blk_queue_get that have not been freed. -/
structure State where
  rbb : Rbb
  queues : List BlkQueue

inductive Event where
  | allocated (block : Option Nat)
  | put (block : Nat)
  | got (block : Option Nat)
  | freed (block : Nat)
  | queued (total : Nat) (q : BlkQueue)
  | queueFreed (q : BlkQueue)

inductive Action where
  | alloc (size : Nat)
  | put (block : Nat)
  | get
  | free (block : Nat)
  | queueGet (queueDataLen : Nat)
  | queueFree (q : BlkQueue)

def step (s : State) : Action → Option (State × List Event)
  | .alloc size =>
    if size = 0 then none
    else (rtRbbBlkAlloc s.rbb size).map (fun r => ({ s with rbb := r.1 }, [.allocated r.2]))
  | .put block =>
    if block < s.rbb.blkMaxNum then
      (rtRbbBlkPut s.rbb block).map (fun r => ({ s with rbb := r }, [.put block]))
    else none
  | .get =>
    let (r, block) := rtRbbBlkGet s.rbb
    some ({ s with rbb := r }, [.got block])
  | .free block =>
    if block < s.rbb.blkMaxNum then
      (rtRbbBlkFree s.rbb block).map (fun r => ({ s with rbb := r }, [.freed block]))
    else none
  | .queueGet queueDataLen =>
    let (r, total, q) := rtRbbBlkQueueGet s.rbb queueDataLen ⟨0, 0⟩
    some (⟨r, if q.blkNum = 0 then s.queues else q :: s.queues⟩, [.queued total q])
  | .queueFree q =>
    if q ∈ s.queues then
      (rtRbbBlkQueueFree s.rbb q).map (fun r => (⟨r, s.queues.erase q⟩, [.queueFreed q]))
    else none

/-- After rt_rbb_init with a buffer that lies inside of the address space. -/
structure Start (s : State) : Prop where
  init : ∃ buf bufSize blkSet n, s.rbb = rtRbbInit buf bufSize blkSet n ∧
    buf ≠ 0 ∧ bufSize < 2 ^ 32 ∧ buf + bufSize ≤ 2 ^ 32
  noQueue : s.queues = []

def machine : Machine State Action Event where
  start := Start
  step := step

def Rbb.stop (r : Rbb) (i : Nat) : Nat := (r.blkSet i).buf + (r.blkSet i).size

def Rbb.Live (r : Rbb) (i : Nat) : Prop := i < r.blkMaxNum ∧ (r.blkSet i).status ≠ .unused

def Rbb.Before (r : Rbb) (i j : Nat) : Prop := r.stop i ≤ (r.blkSet j).buf

/-- The blocks in use lie inside of the buffer and are disjoint. -/
structure Sound (r : Rbb) : Prop where
  inside : ∀ i, r.Live i → r.buf ≤ (r.blkSet i).buf ∧ r.stop i ≤ r.buf + r.bufSize
  disjoint : ∀ i j, r.Live i → r.Live j → i ≠ j → r.Before i j ∨ r.Before j i

/-- The `size` bytes from `p` on are free of the blocks that are in use but, taken off by
rt_rbb_blk_queue_get, not in the list. -/
def Clear (r : Rbb) (p size : Nat) : Prop :=
  ∀ i, r.Live i → i ∉ r.blkList → r.stop i ≤ p ∨ p + size ≤ (r.blkSet i).buf

/-- With an empty list the new block fits into the buffer and the front of the buffer is
clear. Otherwise the bytes behind the last block are, as far as the buffer or the first
block leaves that many, and else those at the front. -/
def Fits (r : Rbb) (size : Nat) : Prop :=
  match r.blkList.head?, r.blkList.getLast? with
  | some h, some t =>
    let bound := if (r.blkSet h).buf ≤ (r.blkSet t).buf then r.buf + r.bufSize else (r.blkSet h).buf
    if r.stop t + size ≤ bound then Clear r (r.stop t) size
    else (r.blkSet h).buf ≤ (r.blkSet t).buf → r.buf + size ≤ (r.blkSet h).buf → Clear r r.buf size
  | _, _ => size ≤ r.bufSize ∧ Clear r r.buf size

/-- A block is allocated only when there is a free one in the set. -/
def Guard (s : State) : Action → Prop
  | .alloc size => findEmptyBlkInSet s.rbb ≠ none → Fits s.rbb size
  | _ => True

variable {r r' : Rbb} {i j new p size : Nat} {s s' : State} {a : Action} {tr es : List Event}

/-- The list goes up through the buffer and may then go on in front of where it started. -/
structure Layout (r : Rbb) (hs ts : List Nat) : Prop where
  parts : r.blkList = hs ++ ts
  first : hs.Pairwise r.Before
  second : ts.Pairwise r.Before
  around : ∀ t ∈ ts, ∀ h ∈ hs, r.Before t h

structure Inv (r : Rbb) : Prop extends Sound r where
  nodup : r.blkList.Nodup
  listed : ∀ i ∈ r.blkList, r.Live i
  sized : ∀ i, r.Live i → 0 < (r.blkSet i).size
  layout : ∃ hs ts, Layout r hs ts
  space : r.bufSize < 2 ^ 32 ∧ r.buf + r.bufSize ≤ 2 ^ 32

/- Ascending blocks. -/

theorem Layout.ascending {hs ts : List Nat} (layout : Layout r hs ts) (one : hs = [] ∨ ts = []) :
    r.blkList.Pairwise r.Before := by
  rw [layout.parts]
  rcases one with rfl | rfl
  · exact layout.second
  · simpa using layout.first

theorem buf_le_stop (r : Rbb) (i : Nat) : (r.blkSet i).buf ≤ r.stop i := Nat.le_add_right _ _

theorem head_le {l : List Nat} (up : l.Pairwise r.Before) {h : Nat} (head : l.head? = some h)
    (member : i ∈ l) : (r.blkSet h).buf ≤ (r.blkSet i).buf := by
  obtain ⟨rest, rfl⟩ := List.head?_eq_some_iff.mp head
  rcases List.mem_cons.mp member with rfl | later
  · exact Nat.le_refl _
  · exact Nat.le_trans (buf_le_stop r h) ((List.pairwise_cons.mp up).1 i later)

theorem le_last {l : List Nat} (up : l.Pairwise r.Before) {t : Nat} (last : l.getLast? = some t)
    (member : i ∈ l) : r.stop i ≤ r.stop t := by
  obtain ⟨front, rfl⟩ := List.getLast?_eq_some_iff.mp last
  rcases List.mem_append.mp member with earlier | here
  · have before : r.Before i t := (List.pairwise_append.mp up).2.2 i earlier t (by simp)
    exact Nat.le_trans before (buf_le_stop r t)
  · cases List.mem_singleton.mp here
    exact Nat.le_refl _

/-- Whether the list has wrapped shows in its first and last block. -/
theorem wrapped_iff (inv : Inv r) {hs ts : List Nat} (layout : Layout r hs ts) {h t : Nat}
    (head : r.blkList.head? = some h) (last : r.blkList.getLast? = some t) :
    (r.blkSet h).buf ≤ (r.blkSet t).buf ↔ hs = [] ∨ ts = [] := by
  have memberH : h ∈ r.blkList := List.mem_of_head? head
  have memberT : t ∈ r.blkList := List.mem_of_getLast? last
  constructor
  · intro order
    by_contra both
    obtain ⟨someH, someT⟩ := not_or.mp both
    rw [layout.parts, List.head?_append_of_ne_nil _ someH] at head
    rw [layout.parts, List.getLast?_append_of_ne_nil _ someT] at last
    have before := layout.around t (List.mem_of_getLast? last) h (List.mem_of_head? head)
    have positive := inv.sized t (inv.listed t memberT)
    simp only [Rbb.Before, Rbb.stop] at before
    lia
  · intro one
    exact head_le (layout.ascending one) head memberT

theorem last_before_head (inv : Inv r) {h t : Nat} (head : r.blkList.head? = some h)
    (last : r.blkList.getLast? = some t) (order : ¬ (r.blkSet h).buf ≤ (r.blkSet t).buf) : r.Before t h := by
  obtain ⟨hs, ts, layout⟩ := inv.layout
  obtain ⟨someH, someT⟩ := not_or.mp (mt (wrapped_iff inv layout head last).mpr order)
  rw [layout.parts, List.head?_append_of_ne_nil _ someH] at head
  rw [layout.parts, List.getLast?_append_of_ne_nil _ someT] at last
  exact layout.around t (List.mem_of_getLast? last) h (List.mem_of_head? head)

/- The new block. -/

@[simp] theorem place_self : (r.place new p size).blkSet new = ⟨.inited, size, p⟩ := by
  simp [Rbb.place]

theorem place_other (other : i ≠ new) : (r.place new p size).blkSet i = r.blkSet i := by
  simp [Rbb.place, other]

theorem live_place (known : new < r.blkMaxNum) : (r.place new p size).Live i ↔ i = new ∨ r.Live i := by
  by_cases here : i = new
  · subst here
    simp [Rbb.Live, Rbb.place, known]
  · simp [Rbb.Live, here, Rbb.place]

theorem before_place (otherI : i ≠ new) (otherJ : j ≠ new) :
    (r.place new p size).Before i j ↔ r.Before i j := by
  simp only [Rbb.Before, Rbb.stop, place_other otherI, place_other otherJ]

theorem place_inv (inv : Inv r) (unused : ¬ r.Live new) (known : new < r.blkMaxNum) (positive : 0 < size)
    (inside : r.buf ≤ p ∧ p + size ≤ r.buf + r.bufSize) {hs ts : List Nat} (layout : Layout r hs ts)
    (below : ∀ t ∈ ts, r.stop t ≤ p) (above : ∀ h ∈ hs, p + size ≤ (r.blkSet h).buf)
    (clear : Clear r p size) : Inv (r.place new p size) := by
  have other : ∀ {i}, r.Live i → i ≠ new := by
    rintro i live rfl
    exact unused live
  have outside : ∀ i, r.Live i → r.stop i ≤ p ∨ p + size ≤ (r.blkSet i).buf := by
    intro i live
    by_cases member : i ∈ r.blkList
    · rw [layout.parts] at member
      rcases List.mem_append.mp member with high | low
      · exact .inr (above i high)
      · exact .inl (below i low)
    · exact clear i live member
  have listed : ∀ {i}, i ∈ hs ++ ts → i ≠ new := by
    intro i member
    rw [← layout.parts] at member
    exact other (inv.listed i member)
  have before_new : ∀ i, i ≠ new → ((r.place new p size).Before i new ↔ r.stop i ≤ p) := by
    intro i differs
    simp only [Rbb.Before, Rbb.stop, place_other differs, place_self]
  have new_before : ∀ i, i ≠ new → ((r.place new p size).Before new i ↔ p + size ≤ (r.blkSet i).buf) := by
    intro i differs
    simp only [Rbb.Before, Rbb.stop, place_other differs, place_self]
  refine ⟨⟨?_, ?_⟩, ?_, ?_, ?_, ⟨hs, ts ++ [new], ?_, ?_, ?_, ?_⟩, inv.space⟩
  · intro i live
    rcases (live_place known).mp live with rfl | live
    · simp only [Rbb.stop, place_self]
      exact inside
    · simp only [Rbb.stop, place_other (other live)]
      exact inv.inside i live
  · intro i j liveI liveJ differs
    rcases (live_place known).mp liveI with rfl | oldI
    · rcases (live_place known).mp liveJ with rfl | oldJ
      · exact absurd rfl differs
      · rw [before_new j (other oldJ), new_before j (other oldJ)]
        exact (outside j oldJ).symm
    · rcases (live_place known).mp liveJ with rfl | oldJ
      · rw [before_new i (other oldI), new_before i (other oldI)]
        exact outside i oldI
      · rw [before_place (other oldI) (other oldJ), before_place (other oldJ) (other oldI)]
        exact inv.disjoint i j oldI oldJ differs
  · change (r.blkList ++ [new]).Nodup
    rw [List.nodup_append]
    refine ⟨inv.nodup, List.nodup_singleton new, ?_⟩
    intro i member j single
    rw [List.mem_singleton.mp single]
    exact other (inv.listed i member)
  · intro i member
    rw [live_place known]
    rcases List.mem_append.mp member with old | here
    · exact .inr (inv.listed i old)
    · exact .inl (List.mem_singleton.mp here)
  · intro i live
    rcases (live_place known).mp live with rfl | live
    · rw [place_self]
      exact positive
    · rw [place_other (other live)]
      exact inv.sized i live
  · change r.blkList ++ [new] = hs ++ (ts ++ [new])
    rw [layout.parts, List.append_assoc]
  · apply layout.first.imp_of_mem
    intro i j memberI memberJ before
    exact (before_place (listed (by simp [memberI])) (listed (by simp [memberJ]))).mpr before
  · rw [List.pairwise_append]
    refine ⟨?_, List.pairwise_singleton _ _, ?_⟩
    · apply layout.second.imp_of_mem
      intro i j memberI memberJ before
      exact (before_place (listed (by simp [memberI])) (listed (by simp [memberJ]))).mpr before
    · intro t member j single
      rw [List.mem_singleton.mp single, before_new t (listed (by simp [member]))]
      exact below t member
  · intro t member h high
    rcases List.mem_append.mp member with old | here
    · rw [before_place (listed (by simp [old])) (listed (by simp [high]))]
      exact layout.around t old h high
    · rw [List.mem_singleton.mp here, new_before h (listed (by simp [high]))]
      exact above h high

/- Where the new block goes. -/

/-- The place rt_rbb_blk_alloc chooses, in exact arithmetic. -/
def spot (r : Rbb) (size : Nat) : Option Nat :=
  match r.blkList.head?, r.blkList.getLast? with
  | some h, some t =>
    let bound := if (r.blkSet h).buf ≤ (r.blkSet t).buf then r.buf + r.bufSize else (r.blkSet h).buf
    if r.stop t + size ≤ bound then some (r.stop t)
    else if (r.blkSet h).buf ≤ (r.blkSet t).buf ∧ r.buf + size ≤ (r.blkSet h).buf then some r.buf
    else none
  | _, _ => some r.buf

theorem fits_iff : Fits r size ↔
    ∀ p, spot r size = some p → Clear r p size ∧ (r.blkList = [] → size ≤ r.bufSize) := by
  unfold Fits spot
  cases list : r.blkList with
  | nil =>
    simp only [List.head?_nil, Option.some.injEq, forall_eq', forall_const]
    exact And.comm
  | cons h rest =>
    obtain ⟨t, last⟩ : ∃ t, (h :: rest).getLast? = some t := ⟨_, List.getLast?_cons⟩
    simp only [List.head?_cons, last, reduceCtorEq, false_implies, and_true]
    generalize (if (r.blkSet h).buf ≤ (r.blkSet t).buf then r.buf + r.bufSize else (r.blkSet h).buf) = bound
    by_cases behind : r.stop t + size ≤ bound
    · simp [behind]
    · by_cases front : (r.blkSet h).buf ≤ (r.blkSet t).buf ∧ r.buf + size ≤ (r.blkSet h).buf
      · simp [behind, front]
      · simp only [behind, if_false, front, reduceCtorEq, false_implies, implies_true, iff_true]
        intro order room
        exact absurd ⟨order, room⟩ front

theorem sub32_add32 {a b c d : Nat} (order : c + d ≤ a + b)
    (low : a + b < c + d + 2 ^ 32) : sub32 (add32 a b) (add32 c d) = a + b - (c + d) := by
  simp only [sub32, add32]
  lia

theorem length_lt (inv : Inv r) (unused : ¬ r.Live new) (known : new < r.blkMaxNum) :
    r.blkList.length < r.blkMaxNum := by
  have absent : new ∉ r.blkList := fun member => unused (inv.listed new member)
  have distinct : (new :: r.blkList).Nodup := List.nodup_cons.mpr ⟨absent, inv.nodup⟩
  have within : (new :: r.blkList) ⊆ List.range r.blkMaxNum := by
    intro i member
    rw [List.mem_range]
    rcases List.mem_cons.mp member with rfl | listed
    · exact known
    · exact (inv.listed i listed).1
  have count := (distinct.subperm within).length_le
  rw [List.length_cons, List.length_range] at count
  exact count

theorem findEmpty_spec (found : findEmptyBlkInSet r = some new) : new < r.blkMaxNum ∧ ¬ r.Live new := by
  have member := List.mem_of_find?_eq_some found
  have unused : decide ((r.blkSet new).status = .unused) = true :=
    List.find?_some (p := fun i => decide ((r.blkSet i).status = .unused)) found
  refine ⟨List.mem_range.mp member, fun live => live.2 (of_decide_eq_true unused)⟩

theorem alloc_eq (inv : Inv r) (positive : 0 < size) (small : size < 2 ^ 24) :
    rtRbbBlkAlloc r size = match findEmptyBlkInSet r with
      | none => some (r, none)
      | some new => match spot r size with
        | some p => some (r.place new p size, some new)
        | none => some (r, none) := by
  cases found : findEmptyBlkInSet r with
  | none => simp only [rtRbbBlkAlloc, small, if_true, found]
  | some new =>
    obtain ⟨known, unused⟩ := findEmpty_spec found
    have room := length_lt inv unused known
    simp only [rtRbbBlkAlloc, small, if_true, found, room, spot]
    cases head : r.blkList.head? with
    | none => rfl
    | some h =>
      cases last : r.blkList.getLast? with
      | none => rfl
      | some t =>
        obtain ⟨space, top⟩ := inv.space
        obtain ⟨lowH, highH⟩ := inv.inside h (inv.listed h (List.mem_of_head? head))
        obtain ⟨lowT, highT⟩ := inv.inside t (inv.listed t (List.mem_of_getLast? last))
        have lowStop := buf_le_stop r t
        have positiveH := inv.sized h (inv.listed h (List.mem_of_head? head))
        -- the pointer behind the last block, wherever a byte follows it
        have pointer : ∀ bound, bound ≤ 2 ^ 32 → r.stop t + size ≤ bound →
            add32 (r.blkSet t).buf (r.blkSet t).size = r.stop t := by
          intro bound limit fits
          exact Nat.mod_eq_of_lt (show r.stop t < 2 ^ 32 by lia)
        have front : size ≤ sub32 (r.blkSet h).buf r.buf ↔ r.buf + size ≤ (r.blkSet h).buf := by
          simp only [Rbb.stop] at highH
          simp only [sub32]
          lia
        by_cases order : (r.blkSet h).buf ≤ (r.blkSet t).buf
        · have empty1 := sub32_add32 (a := r.buf) (b := r.bufSize) (c := (r.blkSet t).buf)
            (d := (r.blkSet t).size) highT (by simp only [Rbb.stop] at lowStop; lia)
          have behind : size ≤ sub32 (add32 r.buf r.bufSize) (add32 (r.blkSet t).buf (r.blkSet t).size) ↔
              r.stop t + size ≤ r.buf + r.bufSize := by
            rw [empty1]
            simp only [Rbb.stop] at highT ⊢
            lia
          simp only [order, if_true, behind, front, true_and]
          split
          · rename_i fits
            simp only [pointer _ top fits]
          · split <;> rfl
        · have around := last_before_head inv head last order
          have exact : add32 (r.blkSet t).buf (r.blkSet t).size = r.stop t := by
            apply Nat.mod_eq_of_lt
            simp only [Rbb.Before, Rbb.stop] at around highH ⊢
            lia
          have behind : size ≤ sub32 (r.blkSet h).buf (r.stop t) ↔ r.stop t + size ≤ (r.blkSet h).buf := by
            simp only [Rbb.Before] at around
            simp only [Rbb.stop] at highH
            simp only [sub32]
            lia
          simp only [order, if_false, exact, behind, false_and]
          split <;> rfl

theorem spot_layout (inv : Inv r) (found : spot r size = some p)
    (first : r.blkList = [] → size ≤ r.bufSize) :
    (r.buf ≤ p ∧ p + size ≤ r.buf + r.bufSize) ∧ ∃ hs ts, Layout r hs ts ∧
      (∀ t ∈ ts, r.stop t ≤ p) ∧ ∀ h ∈ hs, p + size ≤ (r.blkSet h).buf := by
  obtain ⟨hs, ts, layout⟩ := inv.layout
  simp only [spot] at found
  split at found
  · rename_i h t head last
    have memberH : h ∈ r.blkList := List.mem_of_head? head
    have memberT : t ∈ r.blkList := List.mem_of_getLast? last
    have insideH := inv.inside h (inv.listed h memberH)
    have insideT := inv.inside t (inv.listed t memberT)
    have wrapped := wrapped_iff inv layout head last
    have lowT := buf_le_stop r t
    have lowH := buf_le_stop r h
    by_cases order : (r.blkSet h).buf ≤ (r.blkSet t).buf
    · have up := layout.ascending (wrapped.mp order)
      simp only [order, if_true, true_and] at found
      split at found
      · cases found
        refine ⟨⟨by lia, by lia⟩, [], r.blkList, ⟨rfl, .nil, up, by simp⟩, ?_, by simp⟩
        exact fun i member => le_last up last member
      · split at found
        · cases found
          refine ⟨⟨by lia, by lia⟩, r.blkList, [], ⟨by simp, up, .nil, by simp⟩, by simp, ?_⟩
          intro i member
          have low := head_le up head member
          lia
        · contradiction
    · obtain ⟨someH, someT⟩ := not_or.mp (mt wrapped.mpr order)
      have around := last_before_head inv head last order
      simp only [order, if_false, false_and] at found
      split at found
      · cases found
        simp only [Rbb.Before] at around
        refine ⟨⟨by lia, by lia⟩, hs, ts, layout, ?_, ?_⟩
        · rw [layout.parts, List.getLast?_append_of_ne_nil _ someT] at last
          exact fun i member => le_last layout.second last member
        · intro i member
          rw [layout.parts, List.head?_append_of_ne_nil _ someH] at head
          have low := head_le layout.first head member
          lia
      · contradiction
  · rename_i none
    have empty : r.blkList = [] := by
      cases list : r.blkList with
      | nil => rfl
      | cons h rest =>
        obtain ⟨t, last⟩ : ∃ t, r.blkList.getLast? = some t := by
          rw [list]
          exact ⟨_, List.getLast?_cons⟩
        exact absurd last (none h t (by rw [list]; rfl))
    have small := first empty
    cases found
    refine ⟨⟨Nat.le_refl _, by lia⟩, [], [], ⟨empty, .nil, .nil, by simp⟩, by simp, by simp⟩

/-- rt_rbb_blk_alloc keeps the blocks sound exactly under the guard. -/
theorem alloc_exact (inv : Inv r) (positive : 0 < size) {block : Option Nat}
    (taken : rtRbbBlkAlloc r size = some (r', block)) :
    (Sound r' ↔ (findEmptyBlkInSet r ≠ none → Fits r size)) ∧
      ((findEmptyBlkInSet r ≠ none → Fits r size) → Inv r') := by
  have small : size < 2 ^ 24 := by
    by_contra large
    simp only [rtRbbBlkAlloc, large, if_false, reduceCtorEq] at taken
  rw [alloc_eq inv positive small] at taken
  cases found : findEmptyBlkInSet r with
  | none =>
    simp only [found, Option.some.injEq, Prod.mk.injEq] at taken
    obtain ⟨rfl, rfl⟩ := taken
    simp [inv, inv.toSound]
  | some new =>
    obtain ⟨known, unused⟩ := findEmpty_spec found
    simp only [found, ne_eq, reduceCtorEq, not_false_eq_true, true_implies] at taken ⊢
    rw [fits_iff]
    cases chosen : spot r size with
    | none =>
      simp only [chosen, Option.some.injEq, Prod.mk.injEq] at taken
      obtain ⟨rfl, rfl⟩ := taken
      simp [inv, inv.toSound]
    | some p =>
      simp only [chosen, Option.some.injEq, Prod.mk.injEq] at taken
      obtain ⟨rfl, rfl⟩ := taken
      simp only [Option.some.injEq, forall_eq']
      have placed : (Clear r p size ∧ (r.blkList = [] → size ≤ r.bufSize)) → Inv (r.place new p size) := by
        rintro ⟨clear, first⟩
        obtain ⟨inside, hs, ts, layout, below, above⟩ := spot_layout inv chosen first
        exact place_inv inv unused known positive inside layout below above clear
      refine ⟨⟨?_, fun fits => (placed fits).toSound⟩, placed⟩
      intro sound
      have live : (r.place new p size).Live new := (live_place known).mpr (.inl rfl)
      constructor
      · intro i liveI off
        have other : i ≠ new := by
          rintro rfl
          exact unused liveI
        have apart := sound.disjoint i new ((live_place known).mpr (.inr liveI)) live other
        simpa only [Rbb.Before, Rbb.stop, place_other other, place_self] using apart
      · intro empty
        have front : p = r.buf := by
          simpa [spot, empty] using chosen.symm
        have inside := (sound.inside new live).2
        simp only [Rbb.stop, place_self, front] at inside
        change r.buf + size ≤ r.buf + r.bufSize at inside
        lia

/-- Blocks change their status or leave the list, and no block comes into use. -/
structure Shrinks (r r' : Rbb) : Prop where
  buf : r'.buf = r.buf
  bufSize : r'.bufSize = r.bufSize
  blkMaxNum : r'.blkMaxNum = r.blkMaxNum
  place : ∀ i, (r'.blkSet i).buf = (r.blkSet i).buf ∧ (r'.blkSet i).size = (r.blkSet i).size
  live : ∀ i, r'.Live i → r.Live i
  list : r'.blkList.Sublist r.blkList
  kept : ∀ i ∈ r'.blkList, r.Live i → r'.Live i

theorem Shrinks.refl (r : Rbb) : Shrinks r r :=
  ⟨rfl, rfl, rfl, fun _ => ⟨rfl, rfl⟩, fun _ => id, .refl _, fun _ _ => id⟩

theorem Shrinks.trans {m : Rbb} (first : Shrinks r m) (second : Shrinks m r') : Shrinks r r' where
  buf := second.buf.trans first.buf
  bufSize := second.bufSize.trans first.bufSize
  blkMaxNum := second.blkMaxNum.trans first.blkMaxNum
  place i := ⟨(second.place i).1.trans (first.place i).1, (second.place i).2.trans (first.place i).2⟩
  live i live := first.live i (second.live i live)
  list := second.list.trans first.list
  kept i member live := second.kept i member (first.kept i (second.list.subset member) live)

theorem Inv.shrinks (inv : Inv r) (shrinks : Shrinks r r') : Inv r' := by
  have stop : ∀ i, r'.stop i = r.stop i := by
    intro i
    simp only [Rbb.stop, shrinks.place i]
  have before : ∀ i j, r.Before i j → r'.Before i j := by
    intro i j
    simp only [Rbb.Before, stop, shrinks.place j, imp_self]
  refine ⟨⟨?_, ?_⟩, ?_, ?_, ?_, ?_, ?_⟩
  · intro i live
    rw [stop, shrinks.buf, shrinks.bufSize, (shrinks.place i).1]
    exact inv.inside i (shrinks.live i live)
  · intro i j liveI liveJ differs
    exact (inv.disjoint i j (shrinks.live i liveI) (shrinks.live j liveJ) differs).imp (before i j) (before j i)
  · exact inv.nodup.sublist shrinks.list
  · intro i member
    exact shrinks.kept i member (inv.listed i (shrinks.list.subset member))
  · intro i live
    rw [(shrinks.place i).2]
    exact inv.sized i (shrinks.live i live)
  · obtain ⟨hs, ts, layout⟩ := inv.layout
    have list := shrinks.list
    rw [layout.parts] at list
    obtain ⟨hs', ts', parts, first, second⟩ := List.sublist_append_iff.mp list
    refine ⟨hs', ts', parts, ?_, ?_, ?_⟩
    · exact (layout.first.sublist first).imp (before _ _)
    · exact (layout.second.sublist second).imp (before _ _)
    · intro t memberT h memberH
      exact before t h (layout.around t (second.subset memberT) h (first.subset memberH))
  · rw [shrinks.buf, shrinks.bufSize]
    exact inv.space

theorem setStatus_place (r : Rbb) (k i : Nat) (status : Status) :
    ((r.setStatus k status).blkSet i).buf = (r.blkSet i).buf ∧
      ((r.setStatus k status).blkSet i).size = (r.blkSet i).size := by
  by_cases here : i = k
  · subst here
    simp [Rbb.setStatus]
  · simp [Rbb.setStatus, here]

theorem setStatus_status (r : Rbb) (k i : Nat) (status : Status) :
    ((r.setStatus k status).blkSet i).status = if i = k then status else (r.blkSet i).status := by
  by_cases here : i = k
  · subst here
    simp [Rbb.setStatus]
  · simp [Rbb.setStatus, here]

theorem setStatus_shrinks {status : Status} {list : List Nat} (used : (r.blkSet i).status ≠ .unused)
    (part : list.Sublist r.blkList) (gone : status = .unused → i ∉ list) :
    Shrinks r (Rbb.setStatus { r with blkList := list } i status) where
  buf := rfl
  bufSize := rfl
  blkMaxNum := rfl
  place k := setStatus_place _ i k status
  live k live := by
    obtain ⟨known, live⟩ := live
    refine ⟨known, ?_⟩
    by_cases here : k = i
    · rw [here]
      exact used
    · rw [setStatus_status, if_neg here] at live
      exact live
  list := part
  kept k member live := by
    refine ⟨live.1, ?_⟩
    rw [setStatus_status]
    split
    · rename_i here
      intro unused
      rw [here] at member
      exact gone unused member
    · exact live.2

theorem free_shrinks {block : Nat} (taken : rtRbbBlkFree r block = some r') : Shrinks r r' := by
  obtain ⟨used, result⟩ := Option.ite_none_right_eq_some.mp taken
  cases result
  exact setStatus_shrinks used List.filter_sublist (fun _ => by simp)

theorem get_shrinks (r : Rbb) : Shrinks r (rtRbbBlkGet r).1 := by
  simp only [rtRbbBlkGet]
  split
  · rename_i i found
    have put : (r.blkSet i).status = .put :=
      of_decide_eq_true (List.find?_some (p := fun i => decide ((r.blkSet i).status = .put)) found)
    exact setStatus_shrinks (by simp [put]) (.refl _) (fun impossible => by contradiction)
  · exact .refl r

theorem takeNode_shrinks {node : Nat} (put : (r.blkSet node).status = .put) : Shrinks r (takeNode r node) :=
  setStatus_shrinks (by simp [put]) List.filter_sublist (fun impossible => by contradiction)

theorem queueGetLoop_shrinks (queueDataLen : Nat) (nodes : List Nat) (last : Option Nat) (total : Nat)
    (q : BlkQueue) (r : Rbb) : Shrinks r (queueGetLoop queueDataLen r nodes last total q).1 := by
  induction nodes generalizing r last total q with
  | nil => exact .refl r
  | cons node rest ih =>
    cases last with
    | none =>
      simp only [queueGetLoop]
      split
      · rename_i put
        exact (takeNode_shrinks put).trans (ih _ _ _ _)
      · exact ih _ _ _ _
    | some last =>
      simp only [queueGetLoop]
      split
      · exact .refl r
      · rename_i goes
        have put : (r.blkSet node).status = .put := not_not.mp (not_or.mp goes).1
        exact (takeNode_shrinks put).trans (ih _ _ _ _)

theorem queueFree_shrinks {q : BlkQueue} (taken : rtRbbBlkQueueFree r q = some r') : Shrinks r r' := by
  unfold rtRbbBlkQueueFree at taken
  generalize List.range q.blkNum = indices at taken
  induction indices generalizing r with
  | nil =>
    cases Option.some.inj taken
    exact .refl _
  | cons i rest ih =>
    obtain ⟨m, freed, more⟩ := Option.bind_eq_some_iff.mp taken
    obtain ⟨-, freed⟩ := Option.ite_none_right_eq_some.mp freed
    exact (free_shrinks freed).trans (ih more)

theorem step_exact (inv : Inv s.rbb) (taken : step s a = some (s', es)) :
    (Sound s'.rbb ↔ Guard s a) ∧ (Guard s a → Inv s'.rbb) := by
  have shrunk : Guard s a → Shrinks s.rbb s'.rbb → (Sound s'.rbb ↔ Guard s a) ∧ (Guard s a → Inv s'.rbb) := by
    intro guard shrinks
    have after := inv.shrinks shrinks
    exact ⟨⟨fun _ => guard, fun _ => after.toSound⟩, fun _ => after⟩
  cases a with
  | alloc size =>
    obtain ⟨positive, result⟩ := Option.ite_none_left_eq_some.mp taken
    obtain ⟨⟨r, block⟩, allocated, result⟩ := Option.map_eq_some_iff.mp result
    cases result
    exact alloc_exact inv (Nat.pos_of_ne_zero positive) allocated
  | put block =>
    obtain ⟨-, result⟩ := Option.ite_none_right_eq_some.mp taken
    obtain ⟨r, put, result⟩ := Option.map_eq_some_iff.mp result
    cases result
    obtain ⟨inited, result⟩ := Option.ite_none_right_eq_some.mp put
    cases result
    exact shrunk trivial (setStatus_shrinks (by simp [inited]) (.refl _) (fun impossible => by contradiction))
  | get =>
    cases taken
    exact shrunk trivial (get_shrinks s.rbb)
  | free block =>
    obtain ⟨-, result⟩ := Option.ite_none_right_eq_some.mp taken
    obtain ⟨r, freed, result⟩ := Option.map_eq_some_iff.mp result
    cases result
    exact shrunk trivial (free_shrinks freed)
  | queueGet queueDataLen =>
    cases taken
    exact shrunk trivial (queueGetLoop_shrinks queueDataLen s.rbb.blkList none 0 ⟨0, 0⟩ s.rbb)
  | queueFree q =>
    obtain ⟨-, result⟩ := Option.ite_none_right_eq_some.mp taken
    obtain ⟨r, freed, result⟩ := Option.map_eq_some_iff.mp result
    cases result
    exact shrunk trivial (queueFree_shrinks freed)

theorem start_inv (start : Start s) : Inv s.rbb := by
  obtain ⟨buf, bufSize, blkSet, n, isRbb, -, small, space⟩ := start.init
  have none : ∀ i, ¬ s.rbb.Live i := by
    rintro i ⟨known, live⟩
    rw [isRbb] at known live
    simp only [rtRbbInit] at known live
    rw [if_pos known] at live
    exact live rfl
  have empty : s.rbb.blkList = [] := by
    rw [isRbb]
    rfl
  refine ⟨⟨fun i live => absurd live (none i), fun i _ live => absurd live (none i)⟩, ?_, ?_, ?_, ?_, ?_⟩
  · rw [empty]
    exact .nil
  · simp [empty]
  · exact fun i live => absurd live (none i)
  · exact ⟨[], [], empty, .nil, .nil, by simp⟩
  · rw [isRbb]
    exact ⟨small, space⟩

theorem run_inv (run : RunWhere machine Guard tr s) : Inv s.rbb := by
  apply run.invariant (I := fun _ s => Inv s.rbb)
  · intro s start
    exact start_inv start
  · intro tr s a s' es _ inv guard taken
    exact (step_exact inv taken).2 guard

/-- In a run that meets the guard the blocks in use are sound, and they stay so in the next
step exactly if this step meets the guard. -/
theorem blocks_disjoint (run : RunWhere machine Guard tr s) :
    Sound s.rbb ∧ ∀ a s' es, step s a = some (s', es) → (Sound s'.rbb ↔ Guard s a) := by
  have inv := run_inv run
  exact ⟨inv.toSound, fun a s' es taken => (step_exact inv taken).1⟩

/-- A buffer of 100 bytes with four blocks. -/
def small : State := ⟨rtRbbInit 1000 100 (fun _ => ⟨.unused, 0, 0⟩) 4, []⟩

theorem small_start : Start small :=
  ⟨⟨1000, 100, _, 4, rfl, by decide, by decide, by decide⟩, rfl⟩

def guardChecked (s : State) : Action → Bool
  | .alloc size =>
    match spot s.rbb size with
    | none => true
    | some p => (s.rbb.blkList ≠ [] || size ≤ s.rbb.bufSize) &&
      (List.range s.rbb.blkMaxNum).all (fun i => (s.rbb.blkSet i).status = .unused ||
        i ∈ s.rbb.blkList || s.rbb.stop i ≤ p || p + size ≤ (s.rbb.blkSet i).buf)
  | _ => true

theorem guardChecked_sound (checked : guardChecked s a = true) : Guard s a := by
  cases a with
  | alloc size =>
    intro _
    rw [fits_iff]
    intro p chosen
    simp only [guardChecked, chosen, Bool.and_eq_true, Bool.or_eq_true, decide_eq_true_eq,
      List.all_eq_true, List.mem_range] at checked
    obtain ⟨first, clear⟩ := checked
    constructor
    · intro i live off
      have apart := clear i live.1
      simp only [live.2, off, false_or] at apart
      exact apart
    · intro empty
      simpa [empty] using first
  | _ => trivial

/-- The list wraps; while a queue of one block is outstanding, a block is allocated
elsewhere. -/
theorem blocks_disjoint_wrapped :
    ∃ s, s.rbb.blkList = [0, 2] ∧ (s.rbb.blkSet 1).status = .get ∧ Sound s.rbb ∧
      ∀ a s' es, step s a = some (s', es) → (Sound s'.rbb ↔ Guard s a) := by
  obtain ⟨tr, s, run, found⟩ := Run.reaches (M := machine.restrict guardChecked) small_start
    [.alloc 40, .alloc 40, .put 0, .put 1, .get, .free 0, .alloc 30, .put 0, .queueGet 100, .alloc 10]
    (fun s => decide (s.rbb.blkList = [0, 2] ∧ (s.rbb.blkSet 1).status = .get)) (by decide +kernel)
  obtain ⟨list, status⟩ := of_decide_eq_true found
  exact ⟨s, list, status, blocks_disjoint (.ofRestrict (fun _ _ _ _ => guardChecked_sound) run)⟩

/-- The block of an outstanding queue is handed out again; and a block larger than the
buffer is allocated from the empty list. -/
theorem blocks_overlap :
    (∃ tr s, Run machine tr s ∧ ¬ Sound s.rbb ∧ (s.rbb.blkSet 0).status = .get ∧
      (s.rbb.blkSet 1).status = .inited ∧ (s.rbb.blkSet 0).buf = (s.rbb.blkSet 1).buf) ∧
    ∃ tr s, Run machine tr s ∧ ¬ Sound s.rbb ∧ (s.rbb.blkSet 0).status = .inited ∧
      s.rbb.buf + s.rbb.bufSize < s.rbb.stop 0 := by
  constructor
  · obtain ⟨tr, s, run, found⟩ := Run.reaches (M := machine) small_start
      [.alloc 60, .put 0, .queueGet 60, .alloc 60]
      (fun s => decide (s.rbb.blkMaxNum = 4 ∧ (s.rbb.blkSet 0).size = 60 ∧ (s.rbb.blkSet 1).size = 60 ∧
        (s.rbb.blkSet 0).status = .get ∧ (s.rbb.blkSet 1).status = .inited ∧
        (s.rbb.blkSet 0).buf = (s.rbb.blkSet 1).buf)) (by decide +kernel)
    obtain ⟨number, first, second, get, inited, same⟩ := of_decide_eq_true found
    refine ⟨tr, s, run, ?_, get, inited, same⟩
    intro sound
    have apart := sound.disjoint 0 1 ⟨by lia, by simp [get]⟩ ⟨by lia, by simp [inited]⟩ (by decide)
    simp only [Rbb.Before, Rbb.stop] at apart
    lia
  · obtain ⟨tr, s, run, found⟩ := Run.reaches (M := machine) small_start [.alloc 200]
      (fun s => decide (s.rbb.blkMaxNum = 4 ∧ (s.rbb.blkSet 0).status = .inited ∧
        s.rbb.buf + s.rbb.bufSize < s.rbb.stop 0)) (by decide +kernel)
    obtain ⟨number, inited, outside⟩ := of_decide_eq_true found
    refine ⟨tr, s, run, ?_, inited, outside⟩
    intro sound
    have inside := sound.inside 0 ⟨by lia, by simp [inited]⟩
    lia

end RtThread.RingBlock

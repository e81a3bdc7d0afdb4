import RtThread.Intervals
import RtThread.RingBlock

/-! What rt_rbb_blk_queue_get takes, and the calls that read its queue. The blocks of a queue follow
each other in the list; the queue names them by their places in the block set. -/
namespace RtThread.RingBlock
open Transition

/-- Behind the end of the block set there is nothing to read. -/
def rtRbbBlkQueueLen (r : Rbb) (q : BlkQueue) : Option Nat :=
  (List.range q.blkNum).foldlM (fun total i =>
    if q.blocks + i < r.blkMaxNum then some (add32 total (r.blkSet (q.blocks + i)).size) else none) 0

def rtRbbBlkQueueBuf (r : Rbb) (q : BlkQueue) : Nat := (r.blkSet q.blocks).buf

def nextLenLoop (r : Rbb) : List Nat → Option Nat → Nat → Nat
  | [], _, dataLen => dataLen
  | node :: rest, none, dataLen =>
    if (r.blkSet node).status = .put then nextLenLoop r rest (some node) (add32 dataLen (r.blkSet node).size)
    else nextLenLoop r rest none dataLen
  | node :: rest, some last, dataLen =>
    if (r.blkSet node).status ≠ .put ∨ (r.blkSet last).buf > (r.blkSet node).buf then dataLen
    else nextLenLoop r rest (some node) (add32 dataLen (r.blkSet node).size)

def rtRbbNextBlkQueueLen (r : Rbb) : Nat := nextLenLoop r r.blkList none 0

def Rbb.run (r : Rbb) (i : Nat) : Intervals.Run := ((r.blkSet i).buf, (r.blkSet i).size)

/-- A call has taken the block `i`. -/
def Taken (r r' : Rbb) (i : Nat) : Prop := (r.blkSet i).status = .put ∧ (r'.blkSet i).status = .get

/-- A queue of `total` bytes that is got from `r` and leaves `r'`. -/
structure QueueRight (r r' : Rbb) (queueDataLen total : Nat) (q : BlkQueue) : Prop where
  limit : total ≤ queueDataLen
  range : ∀ p, (∃ i, Taken r r' i ∧ (r.run i).Has p) ↔ Intervals.Run.Has (rtRbbBlkQueueBuf r' q, total) p
  len : rtRbbBlkQueueLen r' q = some total

/-- `q` is what the caller's queue structure holds before. -/
structure QueueGets (r : Rbb) (queueDataLen : Nat) (q : BlkQueue) : Prop where
  right : ∀ r' total q', rtRbbBlkQueueGet r queueDataLen q = (r', total, q') → total ≠ 0 →
    QueueRight r r' queueDataLen total q'
  next : rtRbbNextBlkQueueLen r ≤ queueDataLen →
    (rtRbbBlkQueueGet r queueDataLen q).2.1 = rtRbbNextBlkQueueLen r

/-- The blocks behind `last` that have status PUT, each no lower than the one before it, up to the
limit; `total` is the size of those before. -/
def follow (r : Rbb) (queueDataLen : Nat) : Nat → Nat → List Nat → List Nat
  | _, _, [] => []
  | total, last, node :: rest =>
    if (r.blkSet node).status = .put ∧ (r.blkSet last).buf ≤ (r.blkSet node).buf ∧
        total + (r.blkSet node).size ≤ queueDataLen then
      node :: follow r queueDataLen (total + (r.blkSet node).size) node rest
    else []

/-- The first block with status PUT, and those that follow it. -/
def queueRun (r : Rbb) (queueDataLen : Nat) : List Nat → List Nat
  | [] => []
  | node :: rest =>
    if (r.blkSet node).status = .put then node :: follow r queueDataLen (r.blkSet node).size node rest
    else queueRun r queueDataLen rest

def sizes (r : Rbb) (nodes : List Nat) : Nat := (nodes.map (fun i => (r.blkSet i).size)).sum

/-- The first block is within the limit, each of the others starts where the one before it ends, and
as many blocks of the set, from the first on, have the same size. -/
structure Straight (r : Rbb) (queueDataLen first : Nat) (more : List Nat) : Prop where
  limit : (r.blkSet first).size ≤ queueDataLen
  chain : (first :: more).IsChain (fun i j => r.stop i = (r.blkSet j).buf)
  known : first + more.length < r.blkMaxNum
  places : sizes r ((List.range (more.length + 1)).map (first + ·)) % 2 ^ 32 = sizes r (first :: more)

variable {r r' : Rbb} {queueDataLen total last i : Nat} {nodes rest : List Nat} {q : BlkQueue}

theorem sizes_cons (r : Rbb) (i : Nat) (rest : List Nat) : sizes r (i :: rest) = (r.blkSet i).size + sizes r rest := by
  simp [sizes]

theorem sizes_eq (r : Rbb) (nodes : List Nat) : sizes r nodes = Intervals.size (nodes.map r.run) := by
  induction nodes with
  | nil => rfl
  | cons node rest ih => rw [sizes_cons, List.map_cons, Intervals.size_cons, ih, Rbb.run]

/- What the loop takes. -/

theorem takeNode_place (r : Rbb) (node i : Nat) :
    ((takeNode r node).blkSet i).buf = (r.blkSet i).buf ∧ ((takeNode r node).blkSet i).size = (r.blkSet i).size :=
  setStatus_place _ node i .get

theorem takeNode_status (r : Rbb) (node i : Nat) :
    ((takeNode r node).blkSet i).status = if i = node then .get else (r.blkSet i).status :=
  setStatus_status _ node i .get

theorem follow_congr (last_ : (r'.blkSet last).buf = (r.blkSet last).buf)
    (same : ∀ i ∈ nodes, r'.blkSet i = r.blkSet i) :
    follow r' queueDataLen total last nodes = follow r queueDataLen total last nodes := by
  induction nodes generalizing total last with
  | nil => rfl
  | cons node rest ih =>
    obtain ⟨here, later⟩ := List.forall_mem_cons.mp same
    simp only [follow, here, last_]
    rw [ih (by rw [here]) later]

theorem follow_taken {node : Nat} (fresh : node ∉ nodes) :
    follow (takeNode r node) queueDataLen total node nodes = follow r queueDataLen total node nodes := by
  refine follow_congr (takeNode_place r node node).1 ?_
  intro i member
  have other : i ≠ node := fun same => fresh (same ▸ member)
  simp [takeNode, Rbb.setStatus, other]

theorem sizes_taken (r : Rbb) (node : Nat) (nodes : List Nat) : sizes (takeNode r node) nodes = sizes r nodes := by
  simp only [sizes, takeNode_place]

theorem follow_sub : follow r queueDataLen total last nodes ⊆ nodes := by
  induction nodes generalizing total last with
  | nil => exact List.Subset.refl _
  | cons node rest ih =>
    simp only [follow]
    split
    · exact List.cons_subset_cons _ ih
    · exact List.nil_subset _

theorem queueRun_cases (r : Rbb) (queueDataLen : Nat) (nodes : List Nat) :
    (queueRun r queueDataLen nodes = [] ∧ ∀ i ∈ nodes, (r.blkSet i).status ≠ .put) ∨
    ∃ before first rest, nodes = before ++ first :: rest ∧ (∀ i ∈ before, (r.blkSet i).status ≠ .put) ∧
      (r.blkSet first).status = .put ∧
      queueRun r queueDataLen nodes = first :: follow r queueDataLen (r.blkSet first).size first rest := by
  induction nodes with
  | nil => exact Or.inl ⟨rfl, fun _ none => absurd none List.not_mem_nil⟩
  | cons node rest ih =>
    simp only [queueRun]
    split
    · rename_i put
      exact Or.inr ⟨[], node, rest, rfl, fun _ none => absurd none List.not_mem_nil, put, rfl⟩
    · rename_i other
      rcases ih with ⟨empty, all⟩ | ⟨before, first, later, rfl, others, put, found⟩
      · exact Or.inl ⟨empty, List.forall_mem_cons.mpr ⟨other, all⟩⟩
      · exact Or.inr ⟨node :: before, first, later, rfl, List.forall_mem_cons.mpr ⟨other, others⟩, put, found⟩

def takeAll (r : Rbb) (nodes : List Nat) : Rbb := nodes.foldl takeNode r

theorem takeAll_place (r : Rbb) (nodes : List Nat) (i : Nat) :
    ((takeAll r nodes).blkSet i).buf = (r.blkSet i).buf ∧ ((takeAll r nodes).blkSet i).size = (r.blkSet i).size := by
  induction nodes generalizing r with
  | nil => exact ⟨rfl, rfl⟩
  | cons node rest ih =>
    have first := takeNode_place r node i
    have later := ih (takeNode r node)
    exact ⟨later.1.trans first.1, later.2.trans first.2⟩

theorem takeAll_status (r : Rbb) (nodes : List Nat) (i : Nat) :
    ((takeAll r nodes).blkSet i).status = if i ∈ nodes then .get else (r.blkSet i).status := by
  induction nodes generalizing r with
  | nil => rw [if_neg List.not_mem_nil, takeAll, List.foldl_nil]
  | cons node rest ih =>
    change ((takeAll (takeNode r node) rest).blkSet i).status = _
    rw [ih, takeNode_status]
    by_cases here : i = node <;> by_cases there : i ∈ rest <;> simp [here, there]

theorem takeAll_known (r : Rbb) (nodes : List Nat) : (takeAll r nodes).blkMaxNum = r.blkMaxNum := by
  induction nodes generalizing r with
  | nil => rfl
  | cons node rest ih => exact ih (takeNode r node)

theorem add32_eq {a b : Nat} (small : a + b < 2 ^ 32) : add32 a b = a + b := Nat.mod_eq_of_lt small

/-- By induction on the nodes: a block that is taken is not looked at again. -/
theorem queueGetLoop_follow (nodup : (last :: nodes).Nodup) (small : total + sizes r nodes < 2 ^ 32) :
    queueGetLoop queueDataLen r nodes (some last) total q =
      (takeAll r (follow r queueDataLen total last nodes),
        total + sizes r (follow r queueDataLen total last nodes),
        ⟨q.blocks, q.blkNum + (follow r queueDataLen total last nodes).length⟩) := by
  induction nodes generalizing r total last q with
  | nil => rfl
  | cons node rest ih =>
    rw [sizes_cons] at small
    have sum : add32 total (r.blkSet node).size = total + (r.blkSet node).size := add32_eq (by lia)
    simp only [queueGetLoop, follow, sum]
    split
    · rename_i stops
      rw [if_neg (by
        rintro ⟨put, up, within⟩
        rcases stops with other | down | beyond
        · exact other put
        · lia
        · lia)]
      rfl
    · rename_i goes
      obtain ⟨put, up, within⟩ : (r.blkSet node).status = .put ∧ ¬ (r.blkSet last).buf > (r.blkSet node).buf ∧
          ¬ total + (r.blkSet node).size > queueDataLen := by simpa only [not_or, not_not] using goes
      rw [if_pos ⟨put, Nat.not_lt.mp up, Nat.not_lt.mp within⟩]
      have nodup' : (node :: rest).Nodup := (List.nodup_cons.mp nodup).2
      have fresh := (List.nodup_cons.mp nodup').1
      rw [ih nodup' (by rw [sizes_taken]; lia), follow_taken fresh, sizes_taken, sizes_cons, List.length_cons]
      simp only [takeAll, List.foldl_cons, Prod.mk.injEq, BlkQueue.mk.injEq, true_and]
      lia

theorem queueGetLoop_skip (before : List Nat) (first : Nat) (rest : List Nat)
    (other : ∀ i ∈ before, (r.blkSet i).status ≠ .put) (put : (r.blkSet first).status = .put) :
    queueGetLoop queueDataLen r (before ++ first :: rest) none 0 q =
      queueGetLoop queueDataLen (takeNode r first) rest (some first) (add32 0 (r.blkSet first).size) ⟨first, 1⟩ := by
  induction before with
  | nil =>
    simp only [List.nil_append, queueGetLoop]
    rw [if_pos put]
  | cons node before ih =>
    obtain ⟨here, later⟩ := List.forall_mem_cons.mp other
    simp only [List.cons_append, queueGetLoop]
    rw [if_neg here]
    exact ih later

theorem queueGetLoop_none (other : ∀ i ∈ nodes, (r.blkSet i).status ≠ .put) :
    queueGetLoop queueDataLen r nodes none 0 q = (r, 0, q) := by
  induction nodes with
  | nil => rfl
  | cons node rest ih =>
    obtain ⟨here, later⟩ := List.forall_mem_cons.mp other
    simp only [queueGetLoop]
    rw [if_neg here]
    exact ih later

/-- The list goes up, but for one step down: its blocks fit into the buffer. -/
theorem Inv.sizes_le (inv : Inv r) : sizes r r.blkList ≤ r.bufSize := by
  obtain ⟨hs, ts, layout⟩ := inv.layout
  have member : ∀ {i}, i ∈ ts ++ hs → i ∈ r.blkList := by
    intro i member
    rw [layout.parts]
    exact List.mem_append.mpr (List.mem_append.mp member).symm
  have up : Intervals.Ascending ((ts ++ hs).map r.run) := by
    constructor
    · intro run here
      obtain ⟨i, listed, rfl⟩ := List.mem_map.mp here
      exact inv.sized i (inv.listed i (member listed))
    · exact List.pairwise_map.mpr (List.pairwise_append.mpr ⟨layout.second, layout.first, layout.around⟩)
  have fits := up.size_le (l := r.buf) (u := r.buf + r.bufSize) (by lia) (by
    intro run here
    obtain ⟨i, listed, rfl⟩ := List.mem_map.mp here
    exact inv.inside i (inv.listed i (member listed)))
  rw [← sizes_eq] at fits
  have whole : sizes r r.blkList = sizes r (ts ++ hs) := by
    simp only [layout.parts, sizes, List.map_append, List.sum_append]
    lia
  lia

theorem rtRbbBlkQueueGet_eq (inv : Inv r) (queueDataLen : Nat) (q : BlkQueue) :
    (queueRun r queueDataLen r.blkList = [] ∧ rtRbbBlkQueueGet r queueDataLen q = (r, 0, q)) ∨
    ∃ first more, queueRun r queueDataLen r.blkList = first :: more ∧
      rtRbbBlkQueueGet r queueDataLen q =
        (takeAll r (first :: more), sizes r (first :: more), ⟨first, more.length + 1⟩) := by
  have small := inv.sizes_le
  have space := inv.space.1
  have nodup := inv.nodup
  rcases queueRun_cases r queueDataLen r.blkList with ⟨empty, other⟩ | ⟨before, first, rest, parts, other, put, found⟩
  · exact Or.inl ⟨empty, queueGetLoop_none other⟩
  · right
    refine ⟨first, _, found, ?_⟩
    rw [parts] at nodup small
    have nodup' : (first :: rest).Nodup := (List.nodup_append.mp nodup).2.1
    have fresh := (List.nodup_cons.mp nodup').1
    have part : sizes r (before ++ first :: rest) = sizes r before + ((r.blkSet first).size + sizes r rest) := by
      simp [sizes]
    have sum : add32 0 (r.blkSet first).size = (r.blkSet first).size := by
      rw [add32_eq (by lia), Nat.zero_add]
    unfold rtRbbBlkQueueGet
    rw [parts, queueGetLoop_skip before first rest other put, sum,
      queueGetLoop_follow nodup' (by rw [sizes_taken]; lia), follow_taken fresh, sizes_taken, sizes_cons]
    simp only [takeAll, List.foldl_cons, Prod.mk.injEq, BlkQueue.mk.injEq, true_and]
    lia

/- The queue. -/

theorem follow_sizes (within : total ≤ queueDataLen) :
    total + sizes r (follow r queueDataLen total last nodes) ≤ queueDataLen := by
  induction nodes generalizing total last with
  | nil => exact within
  | cons node rest ih =>
    simp only [follow]
    split
    · rename_i taken
      have later : total + (r.blkSet node).size +
          sizes r (follow r queueDataLen (total + (r.blkSet node).size) node rest) ≤ queueDataLen := ih taken.2.2
      rw [sizes_cons]
      lia
    · exact within

theorem follow_put (member : i ∈ follow r queueDataLen total last nodes) : (r.blkSet i).status = .put := by
  induction nodes generalizing total last with
  | nil => cases member
  | cons node rest ih =>
    simp only [follow] at member
    split at member
    · rename_i taken
      rcases List.mem_cons.mp member with rfl | later
      · exact taken.1
      · exact ih later
    · cases member

theorem queueRun_put (member : i ∈ queueRun r queueDataLen nodes) : (r.blkSet i).status = .put := by
  rcases queueRun_cases r queueDataLen nodes with ⟨empty, _⟩ | ⟨before, first, rest, _, _, put, found⟩
  · rw [empty] at member
    cases member
  · rw [found] at member
    rcases List.mem_cons.mp member with rfl | later
    · exact put
    · exact follow_put later

theorem taken_iff : Taken r (takeAll r (queueRun r queueDataLen nodes)) i ↔ i ∈ queueRun r queueDataLen nodes := by
  unfold Taken
  rw [takeAll_status]
  split
  · rename_i member
    exact iff_of_true ⟨queueRun_put member, rfl⟩ member
  · rename_i other
    refine iff_of_false ?_ other
    rintro ⟨put, get⟩
    rw [put] at get
    cases get

/-- Of two blocks one ends before the other, so it is the lower one. -/
theorem before_of_le (inv : Inv r) {i j : Nat} (liveI : r.Live i) (liveJ : r.Live j) (other : i ≠ j)
    (le : (r.blkSet i).buf ≤ (r.blkSet j).buf) : r.Before i j := by
  rcases inv.disjoint i j liveI liveJ other with before | before
  · exact before
  · have positive := inv.sized j liveJ
    unfold Rbb.Before Rbb.stop at before
    lia

theorem follow_up (inv : Inv r) (nodup : (last :: nodes).Nodup) (live : ∀ i ∈ last :: nodes, r.Live i) :
    (last :: follow r queueDataLen total last nodes).Pairwise r.Before := by
  induction nodes generalizing total last with
  | nil => exact List.pairwise_singleton _ _
  | cons node rest ih =>
    simp only [follow]
    split
    · rename_i taken
      have later : (node :: follow r queueDataLen (total + (r.blkSet node).size) node rest).Pairwise r.Before :=
        ih (List.nodup_cons.mp nodup).2 (List.forall_mem_cons.mp live).2
      have other : last ≠ node := by
        rintro rfl
        exact (List.nodup_cons.mp nodup).1 List.mem_cons_self
      have before := before_of_le inv (live last List.mem_cons_self)
        (live node (List.mem_cons_of_mem _ List.mem_cons_self)) other taken.2.1
      refine List.pairwise_cons.mpr ⟨List.forall_mem_cons.mpr ⟨before, fun i member => ?_⟩, later⟩
      have next := (List.pairwise_cons.mp later).1 i member
      exact Nat.le_trans before (Nat.le_trans (buf_le_stop r node) next)
    · exact List.pairwise_singleton _ _

theorem queueRun_up (inv : Inv r) (queueDataLen : Nat) :
    Intervals.Ascending ((queueRun r queueDataLen r.blkList).map r.run) := by
  have nodup := inv.nodup
  rcases queueRun_cases r queueDataLen r.blkList with ⟨empty, _⟩ | ⟨before, first, rest, parts, _, _, found⟩
  · rw [empty]
    exact ⟨fun _ none => absurd none List.not_mem_nil, .nil⟩
  · have listed : ∀ i ∈ first :: rest, r.Live i := by
      intro i member
      exact inv.listed i (parts ▸ List.mem_append_right _ member)
    rw [parts] at nodup
    rw [found]
    constructor
    · intro run here
      obtain ⟨i, member, rfl⟩ := List.mem_map.mp here
      exact inv.sized i (listed i (List.cons_subset_cons _ follow_sub member))
    · exact List.pairwise_map.mpr (follow_up inv (List.nodup_append.mp nodup).2.1 listed)

theorem queueLen_eq (r : Rbb) (blocks n : Nat) : rtRbbBlkQueueLen r ⟨blocks, n⟩ =
    if blocks + n ≤ r.blkMaxNum ∨ n = 0 then some (sizes r ((List.range n).map (blocks + ·)) % 2 ^ 32) else none := by
  induction n with
  | zero => simp [rtRbbBlkQueueLen, sizes]
  | succ n ih =>
    have next : sizes r ((List.range (n + 1)).map (blocks + ·)) =
        sizes r ((List.range n).map (blocks + ·)) + (r.blkSet (blocks + n)).size := by
      simp [sizes, List.range_succ]
    unfold rtRbbBlkQueueLen at ih ⊢
    simp only [List.range_succ, List.foldlM_append] at ih ⊢
    rw [ih, ← List.range_succ, next]
    by_cases known : blocks + n < r.blkMaxNum
    · rw [if_pos (Or.inl (Nat.le_of_lt known)), if_pos (Or.inl (show blocks + (n + 1) ≤ r.blkMaxNum by lia))]
      simp [known, add32]
    · rw [if_neg (show ¬ (blocks + (n + 1) ≤ r.blkMaxNum ∨ n + 1 = 0) by lia)]
      split <;> simp [known]

theorem covers_taken (p : Nat) :
    (∃ i, Taken r (takeAll r (queueRun r queueDataLen nodes)) i ∧ (r.run i).Has p) ↔
      Intervals.Covers ((queueRun r queueDataLen nodes).map r.run) p := by
  simp only [taken_iff, Intervals.Covers, List.mem_map, exists_exists_and_eq_and]

theorem nextLenLoop_follow (small : total + sizes r nodes < 2 ^ 32)
    (within : nextLenLoop r nodes (some last) total ≤ queueDataLen) :
    nextLenLoop r nodes (some last) total = total + sizes r (follow r queueDataLen total last nodes) := by
  induction nodes generalizing total last with
  | nil => rfl
  | cons node rest ih =>
    rw [sizes_cons] at small
    have sum : add32 total (r.blkSet node).size = total + (r.blkSet node).size := add32_eq (by lia)
    simp only [nextLenLoop, sum] at within ⊢
    simp only [follow]
    split
    · rename_i stops
      rw [if_neg (by
        rintro ⟨put, up, _⟩
        rcases stops with other | down
        · exact other put
        · lia)]
      rfl
    · rename_i goes
      rw [if_neg goes] at within
      have later := ih (by lia) within
      obtain ⟨put, up⟩ : (r.blkSet node).status = .put ∧ ¬ (r.blkSet last).buf > (r.blkSet node).buf := by
        simpa only [not_or, not_not] using goes
      rw [if_pos ⟨put, Nat.not_lt.mp up, by lia⟩, later, sizes_cons]
      lia

theorem nextLen_eq (inv : Inv r) (within : rtRbbNextBlkQueueLen r ≤ queueDataLen) :
    rtRbbNextBlkQueueLen r = sizes r (queueRun r queueDataLen r.blkList) := by
  have small := inv.sizes_le
  have space := inv.space.1
  have skip : ∀ before rest, (∀ i ∈ before, (r.blkSet i).status ≠ .put) →
      nextLenLoop r (before ++ rest) none 0 = nextLenLoop r rest none 0 := by
    intro before rest other
    induction before with
    | nil => rfl
    | cons node before ih =>
      obtain ⟨here, later⟩ := List.forall_mem_cons.mp other
      simp only [List.cons_append, nextLenLoop]
      rw [if_neg here]
      exact ih later
  unfold rtRbbNextBlkQueueLen at within ⊢
  rcases queueRun_cases r queueDataLen r.blkList with ⟨empty, other⟩ | ⟨before, first, rest, parts, other, put, found⟩
  · have none := skip r.blkList [] other
    rw [List.append_nil] at none
    rw [none, empty]
    rfl
  · rw [parts] at small
    have part : sizes r (before ++ first :: rest) = sizes r before + ((r.blkSet first).size + sizes r rest) := by
      simp [sizes]
    have sum : add32 0 (r.blkSet first).size = (r.blkSet first).size := by
      rw [add32_eq (by lia), Nat.zero_add]
    rw [found, sizes_cons]
    rw [parts, skip before _ other] at within ⊢
    simp only [nextLenLoop, put, if_true, sum] at within ⊢
    exact nextLenLoop_follow (by lia) within

section
variable {first : Nat} {more : List Nat}

theorem limit_iff (found : queueRun r queueDataLen nodes = first :: more) :
    sizes r (first :: more) ≤ queueDataLen ↔ (r.blkSet first).size ≤ queueDataLen := by
  rcases queueRun_cases r queueDataLen nodes with ⟨empty, _⟩ | ⟨before, node, rest, _, _, _, run⟩
  · rw [found] at empty
    cases empty
  · rw [found] at run
    obtain ⟨rfl, rfl⟩ := List.cons.inj run
    rw [sizes_cons]
    constructor
    · intro whole
      lia
    · exact follow_sizes

theorem range_iff (inv : Inv r) (found : queueRun r queueDataLen r.blkList = first :: more) :
    (∀ p, (∃ i, Taken r (takeAll r (first :: more)) i ∧ (r.run i).Has p) ↔
      Intervals.Run.Has ((r.blkSet first).buf, sizes r (first :: more)) p) ↔
    (first :: more).IsChain (fun i j => r.stop i = (r.blkSet j).buf) := by
  have up := queueRun_up inv queueDataLen
  simp only [← found, covers_taken]
  rw [found] at up ⊢
  rw [sizes_eq]
  rw [List.map_cons] at up ⊢
  rw [show (r.blkSet first).buf = (r.run first).1 from rfl, Intervals.covers_one_iff up, ← List.map_cons,
    List.isChain_map]
  rfl

theorem len_iff (r : Rbb) (nodes : List Nat) (first : Nat) (more : List Nat) :
    rtRbbBlkQueueLen (takeAll r nodes) ⟨first, more.length + 1⟩ = some (sizes r (first :: more)) ↔
      first + more.length < r.blkMaxNum ∧
        sizes r ((List.range (more.length + 1)).map (first + ·)) % 2 ^ 32 = sizes r (first :: more) := by
  have same : ∀ l, sizes (takeAll r nodes) l = sizes r l := by
    intro l
    simp only [sizes, takeAll_place]
  rw [queueLen_eq, takeAll_known, same]
  split
  · rename_i known
    rw [Option.some.injEq]
    exact (and_iff_right (by lia)).symm
  · rename_i beyond
    refine iff_of_false (fun impossible => by cases impossible) (fun both => beyond (Or.inl ?_))
    have known := both.1
    lia

end

theorem queueGets_iff (inv : Inv r) (queueDataLen : Nat) (q : BlkQueue) : QueueGets r queueDataLen q ↔
    ∀ first more, queueRun r queueDataLen r.blkList = first :: more → Straight r queueDataLen first more := by
  have next : ∀ total, total = sizes r (queueRun r queueDataLen r.blkList) →
      rtRbbNextBlkQueueLen r ≤ queueDataLen → total = rtRbbNextBlkQueueLen r :=
    fun total isTotal within => isTotal.trans (nextLen_eq inv within).symm
  rcases rtRbbBlkQueueGet_eq inv queueDataLen q with ⟨empty, result⟩ | ⟨first, more, found, result⟩
  · refine iff_of_true ⟨?_, ?_⟩ (fun first more found => by rw [empty] at found; cases found)
    · rintro r' total q' result' nonzero
      rw [result] at result'
      cases result'
      exact absurd rfl nonzero
    · rw [result]
      exact next 0 (by rw [empty]; rfl)
  · have up := queueRun_up inv queueDataLen
    rw [found] at up
    have positive : 0 < (r.blkSet first).size := up.some _ List.mem_cons_self
    have nonzero : sizes r (first :: more) ≠ 0 := by
      rw [sizes_cons]
      lia
    have buf : rtRbbBlkQueueBuf (takeAll r (first :: more)) ⟨first, more.length + 1⟩ = (r.blkSet first).buf :=
      (takeAll_place r (first :: more) first).1
    constructor
    · rintro ⟨right, _⟩ first' more' found'
      cases found.symm.trans found'
      obtain ⟨limit, range, len⟩ := right _ _ _ result nonzero
      rw [buf] at range
      obtain ⟨known, places⟩ := (len_iff r _ first more).mp len
      exact ⟨(limit_iff found).mp limit, (range_iff inv found).mp range, known, places⟩
    · intro straight
      obtain ⟨limit, chain, known, places⟩ := straight first more found
      constructor
      · rintro r' total q' result' _
        rw [result] at result'
        cases result'
        constructor
        · exact (limit_iff found).mpr limit
        · rw [buf]
          exact (range_iff inv found).mpr chain
        · exact (len_iff r _ first more).mpr ⟨known, places⟩
      · rw [result]
        exact next _ (by rw [found])

/-- The queue is right, whatever the limit is, exactly if the blocks that it would take are straight. -/
theorem queue_gets {s : State} {tr : List Event} (run : RunWhere machine Guard tr s) (queueDataLen : Nat)
    (q : BlkQueue) : QueueGets s.rbb queueDataLen q ↔
      ∀ first more, queueRun s.rbb queueDataLen s.rbb.blkList = first :: more →
        Straight s.rbb queueDataLen first more :=
  queueGets_iff (run_inv run) queueDataLen q

/-- Two blocks that touch, in the order of the set. -/
theorem queue_gets_two : ∃ s : State, queueRun s.rbb 100 s.rbb.blkList = [0, 1] ∧ QueueGets s.rbb 100 ⟨0, 0⟩ := by
  obtain ⟨tr, s, run, found⟩ := Run.reaches (M := machine.restrict guardChecked) small_start
    [.alloc 20, .alloc 30, .alloc 10, .put 0, .put 1]
    (fun s => decide (queueRun s.rbb 100 s.rbb.blkList = [0, 1] ∧ s.rbb.blkSet 0 = ⟨.put, 20, 1000⟩ ∧
      s.rbb.blkSet 1 = ⟨.put, 30, 1020⟩ ∧ s.rbb.blkMaxNum = 4)) (by decide +kernel)
  obtain ⟨two, zero, one, number⟩ := of_decide_eq_true found
  refine ⟨s, two, (queue_gets (.ofRestrict (fun _ _ _ _ => guardChecked_sound) run) 100 ⟨0, 0⟩).mpr ?_⟩
  intro first more taken
  rw [two] at taken
  obtain ⟨rfl, rfl⟩ := List.cons.inj taken
  constructor
  · rw [zero]
    decide
  · simp [Rbb.stop, zero, one]
  · rw [number]
    decide
  · simp [sizes, List.range_succ, zero, one]

/-- A first block beyond the limit; a gap where a block was freed; a place of the set that was used
again, so that the list and the set differ in their order. -/
theorem queue_wrong :
    (∃ tr, ∃ s : State, Run machine tr s ∧ (rtRbbBlkQueueGet s.rbb 10 ⟨0, 0⟩).2.1 = 40 ∧ ¬ QueueGets s.rbb 10 ⟨0, 0⟩) ∧
    (∃ tr, ∃ s : State, Run machine tr s ∧ queueRun s.rbb 100 s.rbb.blkList = [0, 2] ∧ ¬ QueueGets s.rbb 100 ⟨0, 0⟩) ∧
    ∃ tr, ∃ s : State, Run machine tr s ∧ queueRun s.rbb 100 s.rbb.blkList = [1, 0] ∧ ¬ QueueGets s.rbb 100 ⟨0, 0⟩ := by
  have inv : ∀ tr s, Run (machine.restrict guardChecked) tr s → Inv s.rbb ∧ Run machine tr s := by
    intro tr s run
    have guarded : RunWhere machine Guard tr s := .ofRestrict (fun _ _ _ _ => guardChecked_sound) run
    exact ⟨run_inv guarded, guarded.run⟩
  refine ⟨?_, ?_, ?_⟩
  · obtain ⟨tr, s, run, found⟩ := Run.reaches (M := machine.restrict guardChecked) small_start
      [.alloc 40, .put 0]
      (fun s => decide (queueRun s.rbb 10 s.rbb.blkList = [0] ∧ (s.rbb.blkSet 0).size = 40 ∧
        (rtRbbBlkQueueGet s.rbb 10 ⟨0, 0⟩).2.1 = 40)) (by decide +kernel)
    obtain ⟨one, size, total⟩ := of_decide_eq_true found
    refine ⟨tr, s, (inv tr s run).2, total, fun gets => ?_⟩
    have straight := (queueGets_iff (inv tr s run).1 10 ⟨0, 0⟩).mp gets 0 [] one
    exact absurd straight.limit (by rw [size]; decide)
  · obtain ⟨tr, s, run, found⟩ := Run.reaches (M := machine.restrict guardChecked) small_start
      [.alloc 20, .alloc 20, .alloc 20, .put 0, .put 1, .put 2, .free 1]
      (fun s => decide (queueRun s.rbb 100 s.rbb.blkList = [0, 2] ∧ s.rbb.stop 0 = 1020 ∧
        (s.rbb.blkSet 2).buf = 1040)) (by decide +kernel)
    obtain ⟨two, stop, start⟩ := of_decide_eq_true found
    refine ⟨tr, s, (inv tr s run).2, two, fun gets => ?_⟩
    have straight := (queueGets_iff (inv tr s run).1 100 ⟨0, 0⟩).mp gets 0 [2] two
    have touch := (List.isChain_cons_cons.mp straight.chain).1
    lia
  · obtain ⟨tr, s, run, found⟩ := Run.reaches (M := machine.restrict guardChecked) small_start
      [.alloc 10, .alloc 20, .free 0, .alloc 30, .put 0, .put 1]
      (fun s => decide (queueRun s.rbb 100 s.rbb.blkList = [1, 0] ∧
        sizes s.rbb [1, 2] ≠ sizes s.rbb [1, 0] ∧ sizes s.rbb [1, 2] < 2 ^ 32)) (by decide +kernel)
    obtain ⟨two, other, small⟩ := of_decide_eq_true found
    refine ⟨tr, s, (inv tr s run).2, two, fun gets => ?_⟩
    have straight := (queueGets_iff (inv tr s run).1 100 ⟨0, 0⟩).mp gets 1 [0] two
    have places : sizes s.rbb [1, 2] % 2 ^ 32 = sizes s.rbb [1, 0] := straight.places
    rw [Nat.mod_eq_of_lt small] at places
    exact other places

end RtThread.RingBlock

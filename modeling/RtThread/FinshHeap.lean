import RtThread.Linked
import RtThread.Tiling

/-! The heap of finsh (finsh_heap.c). Headers and data are the words of one memory, by their addresses,
and NULL is 0; sums and differences that stay inside of finsh_heap are written without a wrap. -/
namespace RtThread.FinshHeap
open Tiling Linked

def finshHeapMax : Nat := 128
def finshVariableMax : Nat := 8
def finshTypeUnknown : Nat := 0

/-- sizeof(struct finsh_block_header), a length and a link. -/
def headerSize : Nat := 8

/-- HEAP_ALIGN_SIZE for HEAP_ALIGNMENT. -/
def heapAlignSize (size : Nat) : Nat := (size + 3) % 2 ^ 32 / 4 * 4

/-- What an entry of global_variable has of use here: its type and its value.ptr. -/
structure FinshVar where
  type : Nat
  ptr : Nat

/-- `base` is the address of finsh_heap. -/
structure Heap where
  base : Nat
  mem : Nat → Nat
  freeList : Nat
  allocateList : Nat

def setNext (mem : Nat → Nat) (header next : Nat) : Nat → Nat := Function.update mem (header + 4) next

/-- The links that lead to `header` are looked for from `node` on; 0 if none does. `none` if the list
has not ended when the fuel has. -/
def findPrev (mem : Nat → Nat) (header : Nat) : Nat → Nat → Option Nat
  | fuel, node =>
    if node = 0 then some 0
    else if mem (node + 4) = header then some node
    else
      match fuel with
      | 0 => none
      | fuel + 1 => findPrev mem header fuel (mem (node + 4))

/-- The loop of finsh_block_insert; it never goes on behind the last node. -/
def insertPoint (mem : Nat → Nat) (header : Nat) : Nat → Nat → Option Nat
  | fuel, node =>
    if header < mem (node + 4) ∨ mem (node + 4) = 0 then some node
    else
      match fuel with
      | 0 => none
      | fuel + 1 => insertPoint mem header fuel (mem (node + 4))

/-- finsh_block_insert and finsh_block_remove: the memory and *list afterwards. -/
def finshBlockInsert (mem : Nat → Nat) (list header : Nat) : Option ((Nat → Nat) × Nat) :=
  if list = 0 then some (mem, header)
  else if header < list then some (setNext mem header list, header)
  else
    (insertPoint mem header finshHeapMax list).map (fun node =>
      let mem := if mem (node + 4) ≠ 0 then setNext mem header (mem (node + 4)) else mem
      (setNext mem node header, list))

def finshBlockRemove (mem : Nat → Nat) (list header : Nat) : Option ((Nat → Nat) × Nat) :=
  if list = header then some (setNext mem header 0, mem (header + 4))
  else
    (findPrev mem header finshHeapMax list).map (fun node =>
      (if node = 0 then mem else setNext mem node (mem (header + 4)), list))

def finshBlockSplit (mem : Nat → Nat) (header size : Nat) : Nat → Nat :=
  let next := header + headerSize + size
  let mem := Function.update mem next (mem header - headerSize - size)
  let mem := Function.update mem header size
  let mem := setNext mem next (mem (header + 4))
  setNext mem header next

def finshBlockMerge (mem : Nat → Nat) (list header : Nat) : Option (Nat → Nat) :=
  let nextNode := mem (header + 4)
  let close := nextNode ≠ 0 ∧ header + mem header + headerSize = nextNode
  (if list = header then some 0 else findPrev mem header finshHeapMax list).map (fun prevNode =>
    if prevNode ≠ 0 ∧ prevNode + mem prevNode + headerSize = header then
      if close then
        let mem := Function.update mem prevNode (mem prevNode + (mem header + mem nextNode + 2 * headerSize))
        setNext mem prevNode (mem (nextNode + 4))
      else
        let mem := Function.update mem prevNode (mem prevNode + (mem header + headerSize))
        setNext mem prevNode (mem (header + 4))
    else if close then
      let mem := Function.update mem header (mem header + (mem nextNode + headerSize))
      setNext mem header (mem (nextNode + 4))
    else mem)

/-- finsh_heap_init, of memory that holds anything. -/
def finshHeapInit (base : Nat) (mem : Nat → Nat) : Heap :=
  let mem := fun a => if base ≤ a ∧ a < base + finshHeapMax then 0 else mem a
  { base := base
    mem := setNext (Function.update mem base (finshHeapMax - headerSize)) base 0
    freeList := base
    allocateList := 0 }

def finshHeapFree (h : Heap) (ptr : Nat) : Option Heap :=
  let header := ptr - headerSize
  (finshBlockRemove h.mem h.allocateList header).bind (fun removed =>
    (finshBlockInsert removed.1 h.freeList header).bind (fun inserted =>
      (finshBlockMerge inserted.1 inserted.2 header).map (fun mem =>
        { h with mem := mem, freeList := inserted.2, allocateList := removed.2 })))

def referred (globalVariable : Nat → FinshVar) (ptr : Nat) : Bool :=
  (List.range finshVariableMax).any (fun i =>
    (globalVariable i).type != finshTypeUnknown && (globalVariable i).ptr == ptr)

/-- The loop of finsh_heap_gc from `header` on. -/
def gcLoop (globalVariable : Nat → FinshVar) : Nat → Nat → Heap → Option Heap
  | fuel, header, h =>
    if header = 0 then some h
    else
      let temp := header
      let header := h.mem (header + 4)
      let freed := if referred globalVariable (temp + headerSize) then some h
        else finshHeapFree h (temp + headerSize)
      match fuel with
      | 0 => none
      | fuel + 1 => freed.bind (gcLoop globalVariable fuel header)

def finshHeapGc (h : Heap) (globalVariable : Nat → FinshVar) : Option Heap :=
  gcLoop globalVariable finshHeapMax h.allocateList h

/-- The searches of finsh_heap_allocate: the first node whose length fits, or 0. -/
def findFit (mem : Nat → Nat) (fits : Nat → Bool) : Nat → Nat → Option Nat
  | fuel, header =>
    if header = 0 ∨ fits (mem header) then some header
    else
      match fuel with
      | 0 => none
      | fuel + 1 => findFit mem fits fuel (mem (header + 4))

/-- The search before the collection wants more room than it has to. -/
def firstSearch (h : Heap) (size : Nat) : Option Nat :=
  findFit h.mem (fun length => (size + headerSize) % 2 ^ 32 < length) finshHeapMax h.freeList

def secondSearch (h : Heap) (size : Nat) : Option Nat :=
  findFit h.mem (fun length => (size + headerSize) % 2 ^ 32 ≤ length) finshHeapMax h.freeList

/-- finsh_heap_allocate once it has found a block. -/
def takeBlock (h : Heap) (header size : Nat) : Option (Heap × Nat) :=
  let mem := finshBlockSplit h.mem header size
  (finshBlockRemove mem h.freeList header).bind (fun removed =>
    (finshBlockInsert (setNext removed.1 header 0) h.allocateList header).map (fun inserted =>
      let data := header + headerSize
      let mem := fun a => if data ≤ a ∧ a < data + size then 0 else inserted.1 a
      ({ h with mem := mem, freeList := removed.2, allocateList := inserted.2 }, data)))

def finshHeapAllocate (h : Heap) (globalVariable : Nat → FinshVar) (size : Nat) : Option (Heap × Nat) :=
  let size := heapAlignSize size
  (firstSearch h size).bind (fun header =>
    if header ≠ 0 then takeBlock h header size
    else
      (finshHeapGc h globalVariable).bind (fun h =>
        (secondSearch h size).bind (fun header =>
          if header = 0 then some (h, 0) else takeBlock h header size)))

/-- A list of blocks by its link words. -/
abbrev Chained (mem : Nat → Nat) : Nat → List (Nat × Cell) → Prop := Listed mem Prod.fst 4

abbrev Sorted (l : List (Nat × Cell)) : Prop := l.Pairwise (fun a b => a.1 < b.1)

variable {mem mem' : Nat → Nat} {p q x fuel : Nat} {a b n : Nat × Cell} {A B l : List (Nat × Cell)}

theorem setNext_self (v : Nat) : setNext mem x v (x + 4) = v := Function.update_self ..

theorem setNext_other {y : Nat} (v : Nat) (other : y ≠ x + 4) : setNext mem x v y = mem y :=
  Function.update_of_ne other ..

theorem chained_head (chained : Chained mem p (A ++ a :: B)) : ∃ m ∈ A ++ [a], p = m.1 ∧ p ≠ 0 := by
  cases A with
  | nil => exact ⟨a, by simp, chained.1, chained.2.1⟩
  | cons m A => exact ⟨m, by simp, chained.1, chained.2.1⟩

theorem findPrev_found (chained : Chained mem p (A ++ a :: b :: B)) (sorted : Sorted (A ++ a :: b :: B))
    (enough : A.length ≤ fuel) : findPrev mem b.1 fuel p = some a.1 := by
  induction A generalizing p fuel with
  | nil =>
    obtain ⟨rfl, some_, next, _⟩ := chained
    unfold findPrev
    rw [if_neg some_, if_pos next]
  | cons m A ih =>
    obtain ⟨rfl, some_, rest⟩ := chained
    obtain ⟨first, member, next, _⟩ := chained_head rest
    have before : first.1 < b.1 := by
      have tail : Sorted (A ++ a :: b :: B) := (List.pairwise_cons.mp sorted).2
      rw [List.append_cons] at tail
      exact (List.pairwise_append.mp tail).2.2 first member b (by simp)
    unfold findPrev
    rw [if_neg some_, if_neg (by lia)]
    cases fuel with
    | zero => simp at enough
    | succ fuel => exact ih rest (List.pairwise_cons.mp sorted).2 (by simpa using enough)

theorem insertPoint_found (chained : Chained mem p (A ++ a :: B)) (before : ∀ n ∈ A ++ [a], n.1 < x)
    (behind : ∀ n ∈ B, x < n.1) (enough : A.length ≤ fuel) : insertPoint mem x fuel p = some a.1 := by
  induction A generalizing p fuel with
  | nil =>
    obtain ⟨rfl, _, rest⟩ := chained
    unfold insertPoint
    rw [if_pos]
    cases B with
    | nil => exact Or.inr rest
    | cons b B =>
      have further := behind b (by simp)
      exact Or.inl (by rw [rest.1]; exact further)
  | cons m A ih =>
    obtain ⟨rfl, _, rest⟩ := chained
    obtain ⟨first, member, next, some_⟩ := chained_head rest
    have smaller := before first (List.mem_cons_of_mem _ member)
    unfold insertPoint
    rw [if_neg (by lia)]
    cases fuel with
    | zero => simp at enough
    | succ fuel => exact ih rest (fun n member => before n (List.mem_cons_of_mem _ member)) (by simpa using enough)

theorem remove_chained (chained : Chained mem p (A ++ b :: B)) (sorted : Sorted (A ++ b :: B))
    (short : A.length ≤ finshHeapMax) : ∃ mem' p', finshBlockRemove mem p b.1 = some (mem', p') ∧
      Chained mem' p' (A ++ B) ∧ ∀ y, (∀ n ∈ A ++ [b], y ≠ n.1 + 4) → mem' y = mem y := by
  obtain ⟨_, tail, apart⟩ := List.pairwise_append.mp sorted
  have behind := (List.pairwise_cons.mp tail).1
  rcases A.eq_nil_or_concat' with rfl | ⟨A, a, rfl⟩
  · obtain ⟨rfl, _, rest⟩ := chained
    refine ⟨setNext mem b.1 0, mem (b.1 + 4), by rw [finshBlockRemove, if_pos rfl], ?_, ?_⟩
    · refine rest.congr fun n member => setNext_other _ ?_
      have further := behind n member
      lia
    · exact fun y outside => setNext_other _ (outside b (by simp))
  · have found := findPrev_found (by simpa using chained) (by simpa using sorted)
      (show A.length ≤ finshHeapMax by simp at short; lia)
    obtain ⟨q, first, _, _, rest⟩ := listed_append.mp chained
    obtain ⟨m, member, head, some_⟩ := chained_head (by simpa using chained)
    have other : p ≠ b.1 := by
      have smaller := apart m (by simpa using member) b (by simp)
      lia
    have target : a.1 ≠ 0 := by
      obtain ⟨_, _, here, some', _⟩ := segment_append.mp first
      lia
    refine ⟨setNext mem a.1 (mem (b.1 + 4)), p, ?_, ?_, ?_⟩
    · rw [finshBlockRemove, if_neg other, found, Option.map_some, if_neg target]
    · refine listed_append.mpr ⟨_, first.relink fun n member => setNext_other _ ?_, ?_⟩
      · have smaller := (List.pairwise_append.mp (List.pairwise_append.mp sorted).1).2.2 n member a (by simp)
        lia
      · rw [setNext_self]
        refine rest.congr fun n member => setNext_other _ ?_
        have further := apart a (by simp) n (by simp [member])
        lia
    · exact fun y outside => setNext_other _ (outside a (by simp))

/-- finsh_block_insert writes the link of the new node only where the list goes on. -/
theorem link_written (closed : q = 0 → mem (x + 4) = 0) :
    (if q ≠ 0 then setNext mem x q else mem) (x + 4) = q ∧
      ∀ y, y ≠ x + 4 → (if q ≠ 0 then setNext mem x q else mem) y = mem y := by
  by_cases null : q = 0
  · rw [if_neg (not_not.mpr null)]
    exact ⟨(closed null).trans null.symm, fun _ _ => rfl⟩
  · rw [if_pos null]
    exact ⟨setNext_self _, fun _ other => setNext_other _ other⟩

theorem insert_chained (chained : Chained mem p (A ++ B)) (sorted : Sorted (A ++ b :: B)) (some_ : b.1 ≠ 0)
    (closed : B = [] → mem (b.1 + 4) = 0) (short : A.length ≤ finshHeapMax) :
    ∃ mem' p', finshBlockInsert mem p b.1 = some (mem', p') ∧ Chained mem' p' (A ++ b :: B) ∧
      ∀ y, (∀ n ∈ A ++ [b], y ≠ n.1 + 4) → mem' y = mem y := by
  obtain ⟨first, tail, apart⟩ := List.pairwise_append.mp sorted
  have behind := (List.pairwise_cons.mp tail).1
  rcases A.eq_nil_or_concat' with rfl | ⟨A, a, rfl⟩
  · cases B with
    | nil =>
      obtain rfl : p = 0 := chained
      exact ⟨mem, b.1, by rw [finshBlockInsert, if_pos rfl], ⟨rfl, some_, closed rfl⟩, fun _ _ => rfl⟩
    | cons c B =>
      obtain ⟨rfl, head, rest⟩ := chained
      have further := behind c (by simp)
      refine ⟨setNext mem b.1 c.1, b.1, ?_, ⟨rfl, some_, ?_⟩, fun y outside => setNext_other _ (outside b (by simp))⟩
      · rw [finshBlockInsert, if_neg head, if_pos further]
      · rw [setNext_self]
        have same : Chained mem c.1 (c :: B) := ⟨rfl, head, rest⟩
        refine same.congr fun n member => setNext_other _ ?_
        have further := behind n member
        lia
  · have before : ∀ n ∈ A ++ [a], n.1 < b.1 := fun n member => apart n member b (by simp)
    obtain ⟨m, member, head, start⟩ := chained_head (by simpa using chained)
    have smaller := before m (by simpa using member)
    have found := insertPoint_found (by simpa using chained) before behind
      (show A.length ≤ finshHeapMax by simp at short; lia)
    obtain ⟨q, segment, rest⟩ := listed_append.mp chained
    have last := segment.last
    have lower := before a (by simp)
    obtain ⟨link, others⟩ := @link_written mem q b.1 fun null => closed (rest.null_iff.mp null)
    generalize linked_eq : (if q ≠ 0 then setNext mem b.1 q else mem) = linked at link others
    refine ⟨setNext linked a.1 b.1, p, ?_, ?_, ?_⟩
    · rw [finshBlockInsert, if_neg start, if_neg (by lia), found, Option.map_some]
      simp only [last, linked_eq]
    · refine listed_append.mpr ⟨_, segment.relink fun n member => ?_, ?_⟩
      · have smaller := (List.pairwise_append.mp first).2.2 n member a (by simp)
        have below := before n (by simp [member])
        rw [setNext_other _ (by lia), others _ (by lia)]
      · rw [setNext_self]
        refine ⟨rfl, some_, ?_⟩
        rw [setNext_other _ (by lia), link]
        refine rest.congr fun n member => ?_
        have further := behind n member
        rw [setNext_other _ (by lia), others _ (by lia)]
    · intro y outside
      rw [setNext_other _ (outside a (by simp)), others _ (outside b (by simp))]

/-- The header of a block: its length is what lies behind it. -/
structure Describes (mem : Nat → Nat) (b : Nat × Cell) : Prop where
  large : headerSize ≤ b.2.size
  aligned : b.2.size % 4 = 0
  length : mem b.1 + headerSize = b.2.size

/-- The blocks tile finsh_heap; `list false` links the free ones and `list true` those in use. -/
structure Shape (base : Nat) (mem : Nat → Nat) (list : Bool → Nat) (cells : List Cell) : Prop where
  whole : total cells = finshHeapMax
  headers : ∀ b ∈ placed base cells, Describes mem b
  lists : ∀ used, Chained mem (list used) (blocks used base cells)

variable {base : Nat} {list : Bool → Nat} {cells L M M' R : List Cell} {c d e : Cell} {used : Bool}

theorem Describes.frame (describes : Describes mem b) (same : mem' b.1 = mem b.1) : Describes mem' b :=
  ⟨describes.large, describes.aligned, by rw [same]; exact describes.length⟩

theorem Shape.large (shape : Shape base mem list cells) (b : Nat × Cell) (member : b ∈ placed base cells) :
    8 ≤ b.2.size := (shape.headers b member).large

theorem Shape.apart (shape : Shape base mem list (L ++ [c] ++ R)) (member : b ∈ placed base L) :
    b.1 + 8 ≤ base + total L ∧ b.1 + b.2.size ≤ base + total L := by
  have inside := placed_inside member
  have large := shape.large b (by simp [member])
  lia

theorem sorted_blocks (large : ∀ b ∈ placed base cells, 8 ≤ b.2.size) : Sorted (blocks used base cells) := by
  refine blocks_pairwise.imp_of_mem fun {a b} first second before => ?_
  have size := large a (mem_blocks.mp first).1
  lia

theorem Shape.short (shape : Shape base mem list cells) : (placed base cells).length ≤ finshHeapMax := by
  have bound : ∀ (p : Nat) (cells : List Cell), (∀ b ∈ placed p cells, 8 ≤ b.2.size) →
      (placed p cells).length ≤ total cells := by
    intro p cells
    induction cells generalizing p with
    | nil => simp [placed]
    | cons c rest ih =>
      intro large
      have here := large (p, c) (by simp [placed])
      have later := ih (p + c.size) (fun b member => large b (by simp [placed, member]))
      simp only [placed, List.length_cons, total]
      simp only at here
      lia
  exact shape.whole ▸ bound base cells shape.large

theorem blocks_length {p : Nat} : (blocks used p cells).length ≤ (placed p cells).length :=
  List.length_filter_le ..

theorem Shape.short_left (shape : Shape base mem list (L ++ M ++ R)) :
    (blocks used base L).length ≤ finshHeapMax := by
  have short := shape.short
  have length := @blocks_length L used base
  simp only [placed_append, List.length_append] at short
  lia

theorem Shape.replace (shape : Shape base mem list (L ++ M ++ R)) (same : total M' = total M)
    (outside : ∀ y, y < base + total L ∨ base + total L + total M ≤ y → mem' y = mem y)
    (headers : ∀ b ∈ placed (base + total L) M', Describes mem' b)
    (middle : ∀ used p q, Segment mem Prod.fst 4 p (blocks used (base + total L) M) q →
      Segment mem' Prod.fst 4 p (blocks used (base + total L) M') q) :
    Shape base mem' list (L ++ M' ++ R) := by
  have left : ∀ b ∈ placed base L, mem' b.1 = mem b.1 ∧ mem' (b.1 + 4) = mem (b.1 + 4) := by
    intro b member
    have inside := placed_inside member
    have large := shape.large b (by simp [member])
    exact ⟨outside _ (Or.inl (by lia)), outside _ (Or.inl (by lia))⟩
  have right : ∀ b ∈ placed (base + total L + total M) R, mem' b.1 = mem b.1 ∧ mem' (b.1 + 4) = mem (b.1 + 4) := by
    intro b member
    have inside := placed_inside member
    exact ⟨outside _ (Or.inr (by lia)), outside _ (Or.inr (by lia))⟩
  refine ⟨?_, ?_, fun used => ?_⟩
  · have whole := shape.whole
    simp only [total_append] at whole ⊢
    lia
  · intro b member
    simp only [placed_append, List.mem_append, total_append, same, ← Nat.add_assoc] at member
    rcases member with (member | member) | member
    · exact (shape.headers b (by simp [member])).frame (left b member).1
    · exact headers b member
    · exact (shape.headers b (by simp [member])).frame (right b member).1
  · have old := shape.lists used
    simp only [blocks_append, same, List.append_assoc] at old ⊢
    obtain ⟨p, first, rest⟩ := listed_append.mp old
    obtain ⟨q, second, third⟩ := listed_append.mp rest
    refine listed_append.mpr ⟨p, ?_, listed_append.mpr ⟨q, middle used p q second, ?_⟩⟩
    · exact first.congr fun n member => (left n (mem_blocks.mp member).1).2
    · exact third.congr fun n member => (right n (mem_blocks.mp member).1).2

theorem Shape.data (shape : Shape base mem list (L ++ [c] ++ R))
    (outside : ∀ y, y < base + total L + 8 ∨ base + total L + c.size ≤ y → mem' y = mem y) :
    Shape base mem' list (L ++ [c] ++ R) := by
  have large := shape.headers (base + total L, c) (by simp)
  have size := large.large
  simp only [headerSize] at size
  refine shape.replace rfl (fun y away => outside y ?_) ?_ ?_
  · simp only [total] at away
    lia
  · intro b member
    obtain rfl : b = (base + total L, c) := by simpa using member
    exact large.frame (outside _ (Or.inl (by simp only; lia)))
  · intro used p q segment
    refine segment.congr fun n member => outside _ (Or.inl ?_)
    obtain rfl : n = (base + total L, c) := by simpa using (mem_blocks.mp member).1
    simp only
    lia

theorem split_words {size : Nat} :
    finshBlockSplit mem x size x = size ∧ finshBlockSplit mem x size (x + 4) = x + 8 + size ∧
    finshBlockSplit mem x size (x + 8 + size) = mem x - 8 - size ∧
    finshBlockSplit mem x size (x + 8 + size + 4) = mem (x + 4) ∧
    ∀ y, y < x ∨ x + size + 16 ≤ y → finshBlockSplit mem x size y = mem y := by
  refine ⟨?_, ?_, ?_, ?_, fun y away => ?_⟩ <;>
    simp only [finshBlockSplit, setNext, headerSize, Function.update_apply] <;> grind

/-- finsh_block_split of a free block with room for the header of the rest. -/
theorem Shape.split {size : Nat} (shape : Shape base mem list (L ++ [c] ++ R)) (free : c.used = false)
    (room : size + 16 ≤ c.size) (aligned : size % 4 = 0) :
    Shape base (finshBlockSplit mem (base + total L) size) list
      (L ++ [⟨size + 8, false⟩, ⟨c.size - (size + 8), false⟩] ++ R) := by
  have header := shape.headers (base + total L, c) (by simp)
  have length := header.length
  have whole := header.aligned
  simp only [headerSize] at length whole
  obtain ⟨first, link, second, last, others⟩ :=
    @split_words mem (base + total L) size
  refine shape.replace ?_ (fun y away => others y ?_) ?_ ?_
  · simp only [total]
    lia
  · simp only [total] at away
    lia
  · intro b member
    simp only [placed_cons, placed_nil, List.mem_cons, List.not_mem_nil, or_false] at member
    rcases member with rfl | rfl
    · exact ⟨by simp [headerSize], by simp only; lia, by simp [first, headerSize]⟩
    · refine ⟨by simp only [headerSize]; lia, by simp only; lia, ?_⟩
      have place : base + total L + (size + 8) = base + total L + 8 + size := by lia
      simp only [place, second, headerSize]
      lia
  · rintro (_ | _) p q segment
    · rw [blocks_here free, blocks_nil] at segment
      obtain ⟨rfl, some_, rfl⟩ := segment
      have parts : blocks false (base + total L) [⟨size + 8, false⟩, ⟨c.size - (size + 8), false⟩] =
          [(base + total L, ⟨size + 8, false⟩), (base + total L + (size + 8), ⟨c.size - (size + 8), false⟩)] := rfl
      rw [parts]
      refine ⟨rfl, some_, ?_, ?_, ?_⟩
      · simp only [link]
        lia
      · simp only [link]
        lia
      · have place : base + total L + (size + 8) + 4 = base + total L + 8 + size + 4 := by lia
        simp only [place, last, Segment]
    · rw [blocks_other free, blocks_nil] at segment
      exact segment

theorem Shape.join (shape : Shape base mem list (L ++ [d, e] ++ R)) (first : d.used = false)
    (second : e.used = false) (isX : x = base + total L) : Shape base
      (setNext (Function.update mem x (mem x + (mem (x + d.size) + headerSize))) x (mem (x + d.size + 4))) list
      (L ++ [⟨d.size + e.size, false⟩] ++ R) := by
  subst isX
  have header := shape.headers (base + total L, d) (by simp)
  have header' := shape.headers (base + total L + d.size, e) (by simp)
  obtain ⟨large, aligned, length⟩ := header
  obtain ⟨large', aligned', length'⟩ := header'
  simp only [headerSize] at large length large' length' aligned aligned'
  refine shape.replace ?_ (fun y away => ?_) ?_ ?_
  · simp only [total]
    lia
  · simp only [total] at away
    rw [setNext_other _ (by lia), Function.update_of_ne (by lia)]
  · intro b member
    obtain rfl : b = (base + total L, ⟨d.size + e.size, false⟩) := by simpa using member
    refine ⟨by simp only [headerSize]; lia, by simp only; lia, ?_⟩
    simp only [headerSize]
    rw [setNext_other _ (by lia), Function.update_self]
    lia
  · rintro (_ | _) p q segment
    · rw [blocks_here first, blocks_here second, blocks_nil] at segment
      obtain ⟨rfl, some_, _, _, last⟩ := segment
      have whole : blocks false (base + total L) [⟨d.size + e.size, false⟩] =
          [(base + total L, ⟨d.size + e.size, false⟩)] := rfl
      rw [whole]
      refine ⟨rfl, some_, ?_⟩
      simp only [setNext_self]
      exact last
    · rw [blocks_other first, blocks_other second, blocks_nil] at segment
      exact segment

theorem sorted_others (sorted : Sorted (A ++ b :: B)) (member : n ∈ A ++ B) : n.1 ≠ b.1 := by
  obtain ⟨_, tail, apart⟩ := List.pairwise_append.mp sorted
  rcases List.mem_append.mp member with left | right
  · exact Nat.ne_of_lt (apart n left b (by simp))
  · exact (Nat.ne_of_lt ((List.pairwise_cons.mp tail).1 n right)).symm

theorem Shape.distinct (shape : Shape base mem list cells) (first : a ∈ placed base cells)
    (second : b ∈ placed base cells) : a.1 ≠ b.1 + 4 ∧ (a.1 = b.1 → a = b) := by
  have large := shape.large a first
  have large' := shape.large b second
  rcases placed_apart first second with rfl | before | after
  · exact ⟨by lia, fun _ => rfl⟩
  · exact ⟨by lia, fun same => by lia⟩
  · exact ⟨by lia, fun same => by lia⟩

theorem Shape.apart_lists (shape : Shape base mem list cells) (first : a ∈ blocks used base cells)
    (second : b ∈ blocks (!used) base cells) : a.1 ≠ b.1 := by
  intro same
  obtain ⟨member, flag⟩ := mem_blocks.mp first
  obtain ⟨member', flag'⟩ := mem_blocks.mp second
  rw [(shape.distinct member member').2 same, flag'] at flag
  cases used <;> cases flag

/-- No link of a block is this word. -/
def OffLinks (base : Nat) (cells : List Cell) (y : Nat) : Prop := ∀ b ∈ placed base cells, y ≠ b.1 + 4

theorem Shape.remove (shape : Shape base mem list (L ++ [c] ++ R)) (here : c.used = used) :
    ∃ mem' p', finshBlockRemove mem (list used) (base + total L) = some (mem', p') ∧
      Chained mem' p' (blocks used base L ++ blocks used (base + total L + c.size) R) ∧
      ∀ y, (∀ n ∈ blocks used base (L ++ [c]), y ≠ n.1 + 4) → mem' y = mem y := by
  have chained := shape.lists used
  have sorted : Sorted (blocks used base (L ++ [c] ++ R)) := sorted_blocks shape.large
  simp only [List.append_assoc, blocks_append, List.singleton_append, blocks_here here] at chained sorted
  obtain ⟨mem', p', removed, rest, others⟩ := remove_chained chained sorted shape.short_left
  refine ⟨mem', p', removed, rest, fun y outside => others y ?_⟩
  simpa [blocks_here here] using outside

theorem flip_twin (member : b ∈ placed base (L ++ [⟨c.size, used⟩] ++ R)) :
    ∃ b' ∈ placed base (L ++ [c] ++ R), b'.1 = b.1 ∧ b'.2.size = b.2.size := by
  simp only [placed_append, placed_cons, placed_nil, List.mem_append, List.mem_singleton] at member
  rcases member with (left | rfl) | right
  · exact ⟨b, by simp [left], rfl, rfl⟩
  · exact ⟨(base + total L, c), by simp, rfl, rfl⟩
  · exact ⟨b, by simpa [total, Nat.add_assoc] using Or.inr (Or.inr right), rfl, rfl⟩

theorem blocks_flip (here : c.used = used) :
    blocks (!used) base (L ++ [c] ++ R) =
      blocks (!used) base L ++ blocks (!used) (base + total L + c.size) R ∧
    blocks (!used) base (L ++ [⟨c.size, !used⟩] ++ R) =
      blocks (!used) base L ++ (base + total L, ⟨c.size, !used⟩) :: blocks (!used) (base + total L + c.size) R ∧
    blocks used base (L ++ [⟨c.size, !used⟩] ++ R) =
      blocks used base L ++ blocks used (base + total L + c.size) R := by
  refine ⟨?_, ?_, ?_⟩
  · simp [blocks_other, here]
  · simp [blocks_here]
  · simp [blocks_other]

theorem Shape.flip_headers (shape : Shape base mem list (L ++ [c] ++ R))
    (frame : ∀ y, OffLinks base (L ++ [c] ++ R) y → mem' y = mem y)
    (member : b ∈ placed base (L ++ [⟨c.size, used⟩] ++ R)) : Describes mem' b := by
  obtain ⟨b', member', place, size⟩ := flip_twin member
  obtain ⟨large, aligned, length⟩ := shape.headers b' member'
  have off : OffLinks base (L ++ [c] ++ R) b.1 := by
    rw [← place]
    exact fun n listed => (shape.distinct member' listed).1
  refine ⟨size ▸ large, size ▸ aligned, ?_⟩
  rw [frame _ off, ← place, ← size]
  exact length

/-- finsh_block_insert of a block that has been taken out of the other list. Its link is NULL, or it
gets overwritten as the list goes on behind it. -/
theorem Shape.insert {taken : Nat → Nat} (linked : Nat → Nat) (shape : Shape base mem list (L ++ [c] ++ R))
    (here : c.used = used) (some_ : base ≠ 0)
    (removed : finshBlockRemove mem (list used) (base + total L) = some (taken, p))
    (same : ∀ y, y ≠ base + total L + 4 → linked y = taken y)
    (closed : blocks (!used) (base + total L + c.size) R = [] → linked (base + total L + 4) = 0) :
    ∃ mem' p', finshBlockInsert linked (list (!used)) (base + total L) = some (mem', p') ∧
      Shape base mem' (fun u => if u = used then p else p') (L ++ [⟨c.size, !used⟩] ++ R) ∧
      ∀ y, OffLinks base (L ++ [c] ++ R) y → mem' y = mem y := by
  obtain ⟨_, _, removed', rest, others⟩ := shape.remove here
  cases removed.symm.trans removed'
  obtain ⟨away, new, old⟩ := @blocks_flip base L R c used here
  have self : (base + total L, c) ∈ blocks used base (L ++ [c] ++ R) := mem_blocks.mpr ⟨by simp, here⟩
  have own := (mem_blocks.mp self).1
  have before : ∀ n ∈ blocks used base (L ++ [c]), n ∈ blocks used base (L ++ [c] ++ R) := by
    intro n member
    rw [blocks_append]
    exact List.mem_append_left _ member
  -- the removal has written a link of its own list only
  have kept : ∀ b ∈ blocks (!used) base (L ++ [c] ++ R), linked (b.1 + 4) = mem (b.1 + 4) := by
    intro b member
    have other := shape.apart_lists self member
    rw [same _ (by simp only at other; lia)]
    refine others _ fun n inside equal => ?_
    exact shape.apart_lists (before n inside) member (by lia)
  have sorted : Sorted (blocks (!used) base (L ++ [⟨c.size, !used⟩] ++ R)) := by
    refine sorted_blocks fun b member => ?_
    obtain ⟨b', member', _, size⟩ := flip_twin member
    exact size ▸ shape.large b' member'
  have chained := shape.lists (!used)
  rw [new] at sorted
  rw [away] at chained kept
  obtain ⟨mem', p', inserted, after, others'⟩ := insert_chained (chained.congr kept) sorted
    (by simp only; lia) closed shape.short_left
  -- and the insertion one of its own list, or that of the block
  have inside : ∀ n ∈ blocks (!used) base L ++ [(base + total L, ⟨c.size, !used⟩)],
      n ∈ blocks (!used) base (L ++ [c] ++ R) ∨ n.1 = base + total L := by
    intro n member
    rw [away]
    rcases List.mem_append.mp member with left | right
    · exact Or.inl (List.mem_append_left _ left)
    · exact Or.inr (by rw [List.mem_singleton.mp right])
  have frame : ∀ y, OffLinks base (L ++ [c] ++ R) y → mem' y = mem y := by
    intro y off
    rw [others' y, same y (off _ own), others y]
    · exact fun n member => off n (mem_blocks.mp (before n member)).1
    · intro n member
      rcases inside n member with listed | place
      · exact off n (mem_blocks.mp listed).1
      · rw [place]
        exact off _ own
  refine ⟨mem', p', inserted, ⟨shape.whole ▸ by simp [total], fun b => shape.flip_headers frame, fun u => ?_⟩, frame⟩
  by_cases mine : u = used
  · subst mine
    rw [if_pos rfl, old]
    refine rest.congr fun n member => ?_
    have whole : blocks u base (L ++ [c] ++ R) =
        blocks u base L ++ (base + total L, c) :: blocks u (base + total L + c.size) R := by
      simp [blocks_here here]
    have listed : n ∈ blocks u base (L ++ [c] ++ R) := by
      rw [whole]
      simp only [List.mem_append, List.mem_cons] at member ⊢
      tauto
    have other := sorted_others (whole ▸ sorted_blocks shape.large) member
    simp only at other
    rw [others' _, same _ (by lia)]
    intro m member equal
    rcases inside m member with listed' | place
    · exact shape.apart_lists listed listed' (by lia)
    · lia
  · obtain rfl : u = !used := by
      cases u <;> cases used <;> simp at mine ⊢
    rw [if_neg mine, new]
    exact after

/-- The search of finsh_block_merge finds the free block right in front of this one, if there is one. -/
theorem Shape.previous (shape : Shape base mem list (L ++ [c] ++ R)) (free : c.used = false)
    (isX : x = base + total L) :
    ∃ prev, (if list false = x then some 0 else findPrev mem x finshHeapMax (list false)) = some prev ∧
      ((∃ L' d, L = L' ++ [d] ∧ d.used = false ∧ prev = base + total L') ∨
        (∀ d ∈ L.getLast?, d.used = true) ∧ ¬ (prev ≠ 0 ∧ prev + mem prev + headerSize = x)) := by
  subst isX
  have chained := shape.lists false
  have sorted := @sorted_blocks base _ false shape.large
  simp only [List.append_assoc, blocks_append, List.singleton_append, blocks_here free] at chained sorted
  rcases (blocks false base L).eq_nil_or_concat' with empty | ⟨A, a, whole⟩
  · rw [empty] at chained
    refine ⟨0, if_pos chained.1, Or.inr ⟨fun d last => ?_, by simp⟩⟩
    obtain ⟨L', rfl⟩ := List.getLast?_eq_some_iff.mp last
    cases used : d.used with
    | true => rfl
    | false =>
      rw [blocks_append, blocks_here used] at empty
      simp at empty
  · rw [whole, List.append_assoc, List.singleton_append] at chained sorted
    have enough : A.length ≤ finshHeapMax := by
      have short := @Shape.short_left _ _ _ _ _ _ false shape
      rw [whole, List.length_append] at short
      lia
    have found := findPrev_found chained sorted enough
    obtain ⟨m, member, head, _⟩ := chained_head chained
    have before : m.1 < base + total L := by
      have listed : m ∈ blocks false base L := whole ▸ member
      have apart := shape.apart (mem_blocks.mp listed).1
      lia
    refine ⟨a.1, by rw [if_neg (by lia), found], ?_⟩
    have listed := mem_blocks.mp (show a ∈ blocks false base L by rw [whole]; simp)
    rcases L.eq_nil_or_concat' with rfl | ⟨L', d, rfl⟩
    · cases listed.1
    · cases used : d.used with
      | false =>
        rw [blocks_append, blocks_here used, blocks_nil] at whole
        obtain ⟨_, last⟩ := List.append_inj' whole rfl
        exact Or.inl ⟨L', d, rfl, used, by rw [← List.singleton_inj.mp last]⟩
      | true =>
        refine Or.inr ⟨by simp [used], fun close => ?_⟩
        rw [blocks_append, blocks_other (by simp [used]), blocks_nil, List.append_nil] at whole
        have place := mem_blocks.mp (show a ∈ blocks false base L' by rw [whole]; simp)
        have inside := placed_inside place.1
        have size := shape.large (base + total L', d) (by simp)
        have length := (shape.headers a (by simp [place.1])).length
        simp only [total_append, total] at close size
        lia

theorem Shape.following (shape : Shape base mem list (L ++ [c] ++ R)) (free : c.used = false)
    (isX : x = base + total L) :
    (∃ e R', R = e :: R' ∧ e.used = false ∧ mem (x + 4) = x + c.size ∧ mem (x + 4) ≠ 0) ∨
      (∀ e ∈ R.head?, e.used = true) ∧ ¬ (mem (x + 4) ≠ 0 ∧ x + mem x + headerSize = mem (x + 4)) := by
  subst isX
  have chained := shape.lists false
  simp only [List.append_assoc, blocks_append, List.singleton_append, blocks_here free] at chained
  obtain ⟨_, _, rfl, _, rest⟩ := listed_append.mp chained
  have length := (shape.headers (base + total L, c) (by simp)).length
  simp only at length rest
  cases R with
  | nil => exact Or.inr ⟨by simp, fun close => close.1 rest⟩
  | cons e R' =>
    cases used : e.used with
    | false =>
      rw [blocks_here used] at rest
      exact Or.inl ⟨e, R', rfl, used, rest.1, rest.2.1⟩
    | true =>
      refine Or.inr ⟨by simp [used], fun close => ?_⟩
      rw [blocks_other (by simp [used])] at rest
      cases behind : blocks false (base + total L + c.size + e.size) R' with
      | nil =>
        rw [behind] at rest
        exact close.1 rest
      | cons b B =>
        rw [behind] at rest
        have listed := mem_blocks.mp (show b ∈ blocks false (base + total L + c.size + e.size) R' by simp [behind])
        have inside := placed_inside listed.1
        have size := shape.large (base + total L + c.size, e) (by simp)
        have next := rest.1
        simp only at size
        lia

def EndsFree (cells : List Cell) : Prop := ∃ init last, cells = init ++ [last] ∧ last.used = false

theorem EndsFree.right (ends : EndsFree (L ++ R)) : R = [] ∨ EndsFree R := by
  obtain ⟨init, last, whole, free⟩ := ends
  rcases R.eq_nil_or_concat' with rfl | ⟨R, e, rfl⟩
  · exact Or.inl rfl
  · rw [← List.append_assoc] at whole
    obtain ⟨_, same⟩ := List.append_inj' whole rfl
    exact Or.inr ⟨R, e, rfl, List.singleton_inj.mp same ▸ free⟩

theorem EndsFree.join (ends : R = [] ∨ EndsFree R) (free : c.used = false) : EndsFree (L ++ [c] ++ R) := by
  rcases ends with rfl | ⟨init, last, rfl, free'⟩
  · exact ⟨L, c, by simp, free⟩
  · exact ⟨L ++ [c] ++ init, last, by simp, free'⟩

theorem EndsFree.behind (ends : EndsFree (L ++ [c] ++ R)) (used : c.used = true) {p : Nat} :
    blocks false p R ≠ [] := by
  rcases ends.right with rfl | ⟨init, last, rfl, free⟩
  · obtain ⟨init, last, whole, free⟩ := ends
    rw [List.append_nil] at whole
    obtain ⟨_, same⟩ := List.append_inj' whole rfl
    rw [← List.singleton_inj.mp same, used] at free
    cases free
  · rw [blocks_append, blocks_here free]
    simp

/-- finsh_block_merge of a free block of which the neighbours are not merged yet. -/
theorem Shape.merge (shape : Shape base mem list (L ++ [c] ++ R)) (free : c.used = false)
    (isX : x = base + total L) (some_ : base ≠ 0) (left : NoTwoFree L) (right : NoTwoFree R)
    (ends : R = [] ∨ EndsFree R) : ∃ mem' cells', finshBlockMerge mem (list false) x = some mem' ∧
      Shape base mem' list cells' ∧ NoTwoFree cells' ∧ EndsFree cells' ∧
      blocks true base cells' = blocks true base L ++ blocks true (x + c.size) R := by
  obtain ⟨prev, found, before⟩ := shape.previous free isX
  have behind := shape.following free isX
  obtain ⟨large, _, length⟩ := shape.headers (x, c) (by simp [isX])
  simp only [headerSize] at large length
  simp only [finshBlockMerge, found, Option.map_some]
  rcases before with ⟨L', d, rfl, free', rfl⟩ | ⟨apart, far⟩
  · obtain ⟨large', _, length'⟩ := shape.headers (base + total L', d) (by simp)
    simp only [headerSize] at large' length'
    have place : x = base + total L' + d.size := by
      rw [isX]
      simp [total, Nat.add_assoc]
    have joined := Shape.join (L := L') (d := d) (e := c) (R := R) (by simpa using shape) free' free rfl
    rw [← place] at joined
    rw [if_pos ⟨by lia, by simp only [headerSize]; lia⟩]
    rcases behind with ⟨e, R', rfl, free'', next, some'⟩ | ⟨apart', far'⟩
    · obtain ⟨large'', _, _⟩ := shape.headers (x + c.size, e) (by simp [place])
      simp only [headerSize] at large''
      obtain ⟨left', before⟩ := left.init free'
      obtain ⟨right', behind⟩ := right.tail free''
      have both := Shape.join (L := L') (d := ⟨d.size + c.size, false⟩) (e := e) (R := R') (by simpa using joined)
        rfl free'' rfl
      have there : base + total L' + (d.size + c.size) = x + c.size := by lia
      rw [if_pos ⟨some', by rw [next]; simp only [headerSize]; lia⟩, next]
      refine ⟨_, _, congrArg some (funext fun y => ?_), both, left'.between right' before behind,
        .join (EndsFree.right (L := [e]) (ends.resolve_left (by simp))) rfl, ?_⟩
      · rw [there]
        simp only [setNext, Function.update_apply, headerSize]
        grind
      · simp [blocks_other, free', free'', isX, total, Nat.add_assoc]
    · rw [if_neg far', Function.update_of_ne (by lia)]
      obtain ⟨left', before⟩ := left.init free'
      refine ⟨_, _, rfl, joined, left'.between right before apart', .join ends rfl, ?_⟩
      · simp [blocks_other, free', isX, total, Nat.add_assoc]
  · rw [if_neg far]
    rcases behind with ⟨e, R', rfl, free'', next, some'⟩ | ⟨apart', far'⟩
    · have joined := Shape.join (L := L) (d := c) (e := e) (R := R') (by simpa using shape) free free'' isX
      obtain ⟨large'', _, _⟩ := shape.headers (x + c.size, e) (by simp [isX])
      simp only [headerSize] at large''
      rw [if_pos ⟨some', by rw [next]; simp only [headerSize]; lia⟩, next, Function.update_of_ne (by lia)]
      obtain ⟨right', behind⟩ := right.tail free''
      refine ⟨_, _, rfl, joined, left.between right' apart behind,
        .join (EndsFree.right (L := [e]) (ends.resolve_left (by simp))) rfl, ?_⟩
      simp [blocks_other, free'', isX, Nat.add_assoc]
    · rw [if_neg far']
      refine ⟨mem, _, rfl, shape, left.between right apart apart', .join ends free, ?_⟩
      simp [blocks_other, free, isX]

end RtThread.FinshHeap

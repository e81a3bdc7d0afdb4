import RtThread.Run
import RtThread.Tiling

/-! The small memory allocator (mem.c): rt_malloc, rt_free and rt_realloc, each one
atomic under the heap semaphore. Blocks are named by the offset of their header from
heap_ptr, user pointers are addresses. Sizes and offsets are 32 bit wide; sums that
stay below the end of the heap are written without a wrap. -/
namespace RtThread.Mem
open Transition Tiling

def heapMagic : Nat := 0x1ea0
def minSize : Nat := 12
def minSizeAligned : Nat := 12
def sizeofStructMem : Nat := 12

/-- RT_ALIGN and RT_ALIGN_DOWN with RT_ALIGN_SIZE 4. -/
def rtAlign (size : Nat) : Nat := (size + 3) % 2 ^ 32 / 4 * 4
def rtAlignDown (size : Nat) : Nat := size / 4 * 4

/-- Subtraction of two rt_size_t. -/
def sub32 (a b : Nat) : Nat := (a + 2 ^ 32 - b) % 2 ^ 32

structure HeapMem where
  magic : Nat
  used : Bool
  next : Nat
  prev : Nat
  deriving DecidableEq

/-- `mem x` is the header at offset `x`, wherever one is; `data` are the bytes callers
keep in their blocks, by address. -/
structure Heap where
  heapPtr : Nat
  heapEnd : Nat
  lfree : Nat
  memSizeAligned : Nat
  usedMem : Nat
  maxMem : Nat
  mem : Nat → HeapMem
  data : Nat → BitVec 8

def Heap.setMem (h : Heap) (x : Nat) (f : HeapMem → HeapMem) : Heap :=
  { h with mem := Function.update h.mem x (f (h.mem x)) }

/-- `none` for a region that is refused with a message. -/
def rtSystemHeapInit (ram : Nat → HeapMem) (data : Nat → BitVec 8) (beginAddr endAddr : Nat) :
    Option Heap :=
  let beginAlign := rtAlign beginAddr
  let endAlign := rtAlignDown endAddr
  if 2 * sizeofStructMem < endAlign ∧ beginAlign ≤ endAlign - 2 * sizeofStructMem then
    let size := endAlign - beginAlign - 2 * sizeofStructMem
    let ram := Function.update ram 0 ⟨heapMagic, false, size + sizeofStructMem, 0⟩
    some {
      heapPtr := beginAlign
      heapEnd := size + sizeofStructMem
      lfree := 0
      memSizeAligned := size
      usedMem := 0
      maxMem := 0
      mem := Function.update ram (size + sizeofStructMem)
        ⟨heapMagic, true, size + sizeofStructMem, size + sizeofStructMem⟩
      data := data }
  else none

def plugForward (h : Heap) (mem : Nat) : Heap :=
  let nmem := (h.mem mem).next
  if mem ≠ nmem ∧ (h.mem nmem).used = false ∧ nmem ≠ h.heapEnd then
    let h := { h with lfree := if h.lfree = nmem then mem else h.lfree }
    let h := h.setMem mem (fun m => { m with next := (h.mem nmem).next })
    h.setMem (h.mem nmem).next (fun m => { m with prev := mem })
  else h

def plugBackward (h : Heap) (mem : Nat) : Heap :=
  let pmem := (h.mem mem).prev
  if pmem ≠ mem ∧ (h.mem pmem).used = false then
    let h := { h with lfree := if h.lfree = mem then pmem else h.lfree }
    let h := h.setMem pmem (fun m => { m with next := (h.mem mem).next })
    h.setMem (h.mem mem).next (fun m => { m with prev := pmem })
  else h

def plugHoles (h : Heap) (mem : Nat) : Option Heap :=
  if mem < h.heapEnd ∧ (h.mem mem).used = false then some (plugBackward (plugForward h mem) mem)
  else none

/-- The search of rt_malloc from `ptr` on; `some none` if nothing fits, `none` if it
has not ended when the fuel has. -/
def search (h : Heap) (size : Nat) : Nat → Nat → Option (Option Nat)
  | fuel, ptr =>
    if ptr < sub32 h.memSizeAligned size then
      let mem := h.mem ptr
      if mem.used = false ∧ size ≤ sub32 mem.next (ptr + sizeofStructMem) then some (some ptr)
      else
        match fuel with
        | 0 => none
        | fuel + 1 => search h size fuel mem.next
    else some none

/-- Cut the block at `ptr` in two, the second one free and starting at `ptr2`. -/
def splitBlock (h : Heap) (ptr ptr2 : Nat) : Heap :=
  let next := (h.mem ptr).next
  let h := h.setMem ptr2 (fun _ => ⟨heapMagic, false, next, ptr⟩)
  let h := h.setMem ptr (fun m => { m with next := ptr2 })
  if next ≠ h.memSizeAligned + sizeofStructMem then h.setMem next (fun m => { m with prev := ptr2 })
  else h

def addUsed (h : Heap) (n : Nat) : Heap :=
  let used := (h.usedMem + n) % 2 ^ 32
  { h with usedMem := used, maxMem := if h.maxMem < used then used else h.maxMem }

/-- Put the block found at `ptr` in use. -/
def claimBlock (h : Heap) (ptr size : Nat) : Heap :=
  let mem := h.mem ptr
  let h :=
    if size + sizeofStructMem + minSizeAligned ≤ sub32 mem.next (ptr + sizeofStructMem) then
      addUsed (splitBlock h ptr (ptr + sizeofStructMem + size)) (size + sizeofStructMem)
    else addUsed h (sub32 mem.next ptr)
  h.setMem ptr (fun m => { m with used := true, magic := heapMagic })

/-- `while (lfree->used && lfree != heap_end) lfree = lfree->next`. -/
def advanceFree (h : Heap) : Nat → Nat → Option Nat
  | fuel, x =>
    if (h.mem x).used = true ∧ x ≠ h.heapEnd then
      match fuel with
      | 0 => none
      | fuel + 1 => advanceFree h fuel (h.mem x).next
    else some x

/- The assertion after the loop repeats its exit condition. -/
def updateFree (h : Heap) (mem : Nat) : Option Heap :=
  if mem = h.lfree then (advanceFree h (h.heapEnd + 1) h.lfree).map (fun x => { h with lfree := x })
  else some h

/-- NULL is 0. A well-formed heap has fewer headers than bytes, so both loops have
fuel enough there. -/
def rtMalloc (h : Heap) (size : Nat) : Option (Heap × Nat) :=
  if size = 0 then some (h, 0)
  else
    let size := rtAlign size
    if h.memSizeAligned < size then some (h, 0)
    else
      let size := if size < minSizeAligned then minSizeAligned else size
      match search h size (h.heapEnd + 1) h.lfree with
      | none => none
      | some none => some (h, 0)
      | some (some ptr) =>
        (updateFree (claimBlock h ptr size) ptr).bind (fun h =>
          if ptr + sizeofStructMem + size ≤ h.heapEnd ∧
              (h.heapPtr + ptr + sizeofStructMem) % 4 = 0 ∧ (h.heapPtr + ptr) % 4 = 0 then
            some (h, h.heapPtr + ptr + sizeofStructMem)
          else none)

def rtFree (h : Heap) (rmem : Nat) : Option Heap :=
  if rmem = 0 then some h
  else if rmem % 4 = 0 ∧ h.heapPtr ≤ rmem ∧ rmem < h.heapPtr + h.heapEnd then
    let mem := sub32 (rmem - h.heapPtr) sizeofStructMem
    if (h.mem mem).used = true ∧ (h.mem mem).magic = heapMagic then
      let h := h.setMem mem (fun m => { m with used := false, magic := heapMagic })
      plugHoles { h with
        lfree := if mem < h.lfree then mem else h.lfree
        usedMem := sub32 h.usedMem (sub32 (h.mem mem).next mem) } mem
    else none
  else none

def rtMemcpy (h : Heap) (dst src n : Nat) : Heap :=
  { h with data := fun a => if dst ≤ a ∧ a < dst + n then h.data (src + (a - dst)) else h.data a }

/-- The end of rt_realloc that moves the block. -/
def moveBlock (h : Heap) (rmem size newsize : Nat) : Option (Heap × Nat) :=
  (rtMalloc h newsize).bind (fun r =>
    if r.2 = 0 then some r
    else (rtFree (rtMemcpy r.1 r.2 rmem (min size newsize)) rmem).map (fun h => (h, r.2)))

def rtRealloc (h : Heap) (rmem newsize : Nat) : Option (Heap × Nat) :=
  let newsize := rtAlign newsize
  if h.memSizeAligned < newsize then some (h, 0)
  else if newsize = 0 then (rtFree h rmem).map (fun h => (h, 0))
  else if rmem = 0 then rtMalloc h newsize
  else if rmem < h.heapPtr ∨ h.heapPtr + h.heapEnd ≤ rmem then some (h, rmem)
  else
    let ptr := sub32 (rmem - h.heapPtr) sizeofStructMem
    let size := sub32 (sub32 (h.mem ptr).next ptr) sizeofStructMem
    if size = newsize then some (h, rmem)
    else if newsize + sizeofStructMem + minSize < size then
      let ptr2 := ptr + sizeofStructMem + newsize
      let used := sub32 h.usedMem (size - newsize)
      let h := splitBlock h ptr ptr2
      (plugHoles { h with usedMem := used, lfree := if ptr2 < h.lfree then ptr2 else h.lfree } ptr2).map
        (fun h => (h, rmem))
    else moveBlock h rmem size newsize

/-- The heap and what its callers know: the pointers they hold with the sizes asked for. -/
structure System where
  heap : Heap
  live : Nat → Option Nat

inductive Action where
  | malloc (size : Nat)
  | free (rmem : Nat)
  | realloc (rmem newsize : Nat)

inductive Event where
  | malloc (size p : Nat)
  | free (rmem : Nat)
  | realloc (rmem newsize p : Nat)

/-- What a caller may pass to rt_free and rt_realloc. -/
def System.owns (s : System) (p : Nat) : Bool := p = 0 || (s.live p).isSome

def System.allows (s : System) : Action → Bool
  | .malloc size => size ≤ s.heap.memSizeAligned
  | .free rmem => s.owns rmem
  | .realloc rmem newsize => s.owns rmem && newsize ≤ s.heap.memSizeAligned

def System.call (s : System) : Action → Option (System × List Event)
  | .malloc size =>
    (rtMalloc s.heap size).map (fun r =>
      (⟨r.1, if r.2 = 0 then s.live else Function.update s.live r.2 (some size)⟩, [.malloc size r.2]))
  | .free rmem =>
    (rtFree s.heap rmem).map (fun h => (⟨h, Function.update s.live rmem none⟩, [.free rmem]))
  | .realloc rmem newsize =>
    (rtRealloc s.heap rmem newsize).map (fun r =>
      (⟨r.1, if newsize = 0 then Function.update s.live rmem none
        else if r.2 = 0 then s.live
        else Function.update (Function.update s.live rmem none) r.2 (some newsize)⟩,
        [.realloc rmem newsize r.2]))

def step (s : System) (a : Action) : Option (System × List Event) :=
  if s.allows a then s.call a else none

/-- After rt_system_heap_init of a region with room for one block. -/
def Start (s : System) : Prop :=
  (∃ ram data beginAddr endAddr, beginAddr < 2 ^ 32 ∧ endAddr < 2 ^ 32 ∧
    rtSystemHeapInit ram data beginAddr endAddr = some s.heap) ∧
  minSizeAligned + sizeofStructMem ≤ s.heap.memSizeAligned ∧ ∀ p, s.live p = none

def machine : Machine System Action Event where
  start := Start
  step := step

/-- The header at `x` describes the cell `c`, the cell before starting at `prev`. -/
def describes (mem : Nat → HeapMem) (prev x : Nat) (c : Cell) : Prop :=
  mem x = ⟨heapMagic, c.used, x + c.size, prev⟩ ∧ 16 ≤ c.size ∧ c.size % 4 = 0

/-- The region the heap was made of. -/
structure SameRegion (h h' : Heap) : Prop where
  heapEnd : h'.heapEnd = h.heapEnd
  memSizeAligned : h'.memSizeAligned = h.memSizeAligned
  heapPtr : h'.heapPtr = h.heapPtr

/-- The heap is cut into `cells`; the cursor lfree is left out. -/
structure Shape (h : Heap) (cells : List Cell) : Prop where
  laid : Laid (describes h.mem) 0 0 cells
  whole : total cells = h.heapEnd
  last : h.heapEnd = h.memSizeAligned + sizeofStructMem
  stop : (h.mem h.heapEnd).used = true
  counted : h.usedMem = usedTotal cells
  aligned : h.heapPtr % 4 = 0
  bound : h.heapPtr + h.heapEnd + sizeofStructMem < 2 ^ 32
  room : minSizeAligned ≤ h.memSizeAligned

structure Repr (h : Heap) (cells : List Cell) : Prop extends Shape h cells where
  lowest : h.lfree = firstFree cells

structure Sound (h : Heap) (cells : List Cell) : Prop extends Repr h cells where
  apart : NoTwoFree cells

variable {h h' : Heap} {L M M' R cells : List Cell} {c d : Cell} {x y n p size : Nat}

theorem sub32_eq {a b : Nat} (le : b ≤ a) (small : a < 2 ^ 32) : sub32 a b = a - b := by
  unfold sub32
  lia

theorem described (mem : Nat → HeapMem) : ∀ a y c, describes mem a y c → 0 < c.size := by
  intro a y c holds
  have large := holds.2.1
  lia

theorem Shape.positive (shape : Shape h cells) : ∀ c ∈ cells, 0 < c.size :=
  shape.laid.forall_mem (described h.mem)

theorem Shape.positive_at (shape : Shape h cells) (found : At cells x c) : 0 < c.size := by
  obtain ⟨L, R, rfl, _⟩ := found.split
  exact shape.positive c (by simp)

theorem Shape.start_mod (shape : Shape h (L ++ R)) : total L % 4 = 0 := by
  apply total_mod
  intro c here
  exact shape.laid.forall_mem (fun _ _ _ holds => holds.2.2) c (by simp [here])

theorem Shape.header (shape : Shape h (L ++ [c] ++ R)) :
    h.mem (total L) = ⟨heapMagic, c.used, total L + c.size, lastStart 0 0 L⟩ ∧ 16 ≤ c.size ∧
      c.size % 4 = 0 ∧ total L + c.size + total R = h.heapEnd := by
  have laid := shape.laid
  have whole := shape.whole
  rw [List.append_assoc, laid_append, Nat.zero_add] at laid
  simp only [total_append, total] at whole
  obtain ⟨header, large, aligned⟩ := laid.2.1
  exact ⟨header, large, aligned, by lia⟩

theorem Shape.behind (shape : Shape h (L ++ [c] ++ R)) :
    (R = [] ∧ total L + c.size = h.heapEnd ∧ (h.mem (total L + c.size)).used = true) ∨
      ∃ d R', R = d :: R' ∧ (h.mem (total L + c.size)).used = d.used ∧
        (h.mem (total L + c.size)).next = total L + c.size + d.size ∧ total L + c.size < h.heapEnd := by
  cases R with
  | nil =>
    have ends : total L + c.size = h.heapEnd := by
      have whole := shape.whole
      simp only [List.append_nil, total_append, total] at whole
      lia
    exact Or.inl ⟨rfl, ends, ends ▸ shape.stop⟩
  | cons d R' =>
    have shape' : Shape h ((L ++ [c]) ++ [d] ++ R') := by simpa using shape
    obtain ⟨header, large, _, ends⟩ := shape'.header
    simp only [total_append, total, Nat.add_zero] at header ends
    exact Or.inr ⟨d, R', rfl, by rw [header], by rw [header], by lia⟩

theorem Shape.replace (shape : Shape h (L ++ M ++ R)) (same : total M' = total M)
    (static : SameRegion h h')
    (outside : ∀ y, y < total L ∨ total L + total M < y → h'.mem y = h.mem y)
    (border : ∃ a, h'.mem (total L + total M) = { h.mem (total L + total M) with prev := a } ∧
      (R ≠ [] → a = lastStart (lastStart 0 0 L) (total L) M'))
    (middle : Laid (describes h'.mem) (lastStart 0 0 L) (total L) M')
    (counted : h'.usedMem = usedTotal (L ++ M' ++ R)) : Shape h' (L ++ M' ++ R) := by
  obtain ⟨sameEnd, sameSize, samePtr⟩ := static
  obtain ⟨a, behind, back⟩ := border
  have whole := shape.whole
  refine ⟨?_, ?_, by rw [sameEnd, sameSize, shape.last], ?_, counted, samePtr ▸ shape.aligned, ?_,
    sameSize ▸ shape.room⟩
  · refine shape.laid.replace (described h.mem) same ?_ ?_ ?_ (by simpa using middle)
    · intro b y e low holds
      unfold describes at *
      rwa [outside y (Or.inl (by lia))]
    · intro b y e high holds
      unfold describes at *
      rwa [outside y (Or.inr (by lia))]
    · intro more e holds
      simp only [Nat.zero_add] at holds ⊢
      unfold describes at *
      rw [behind, holds.1, back more]
      exact ⟨rfl, holds.2⟩
  · rw [sameEnd, ← whole]
    simp only [total_append, same]
  · rw [sameEnd]
    simp only [total_append] at whole
    cases R with
    | nil =>
      have ends : total L + total M = h.heapEnd := by simpa [total] using whole
      rw [← ends, behind, ends]
      exact shape.stop
    | cons r rest =>
      have positive := shape.positive r (by simp)
      simp only [total] at whole
      rw [outside _ (Or.inr (by lia))]
      exact shape.stop
  · rw [sameEnd, samePtr]
    exact shape.bound

theorem splitBlock_mem {a : Nat} (shape : Shape h (L ++ [c] ++ R)) (low : 0 < a) (high : a < c.size) :
    let s := splitBlock h (total L) (total L + a)
    s.mem (total L) = ⟨heapMagic, c.used, total L + a, lastStart 0 0 L⟩ ∧
      s.mem (total L + a) = ⟨heapMagic, false, total L + c.size, total L⟩ ∧
      (∃ b, s.mem (total L + c.size) = { h.mem (total L + c.size) with prev := b } ∧
        (R ≠ [] → b = total L + a)) ∧
      ∀ y, y ≠ total L → y ≠ total L + a → y ≠ total L + c.size → s.mem y = h.mem y := by
  obtain ⟨header, _, _, ends⟩ := shape.header
  have next : (h.mem (total L)).next = total L + c.size := by rw [header]
  have first : total L ≠ total L + a := by lia
  have second : total L ≠ total L + c.size := by lia
  have third : total L + a ≠ total L + c.size := by lia
  simp only [splitBlock, next, Heap.setMem]
  split
  · refine ⟨?_, ?_, ⟨total L + a, ?_, fun _ => rfl⟩, ?_⟩
    · simp only [Function.update_of_ne second, Function.update_self, Function.update_of_ne first, header]
    · simp only [Function.update_of_ne third, Function.update_self, Function.update_of_ne first.symm]
    · simp only [Function.update_self, Function.update_of_ne second.symm, Function.update_of_ne third.symm]
    · intro y hy hy' hy''
      simp only [Function.update_of_ne hy, Function.update_of_ne hy', Function.update_of_ne hy'']
  · rename_i atEnd
    rw [not_not] at atEnd
    refine ⟨?_, ?_, ⟨(h.mem (total L + c.size)).prev, ?_, ?_⟩, ?_⟩
    · simp only [Function.update_self, Function.update_of_ne first, header]
    · simp only [Function.update_self, Function.update_of_ne first.symm]
    · simp only [Function.update_of_ne second.symm, Function.update_of_ne third.symm]
    · intro more
      obtain ⟨r, rest, rfl⟩ := List.exists_cons_of_ne_nil more
      have positive := shape.positive r (by simp)
      have last := shape.last
      simp only [total] at ends
      lia
    · intro y hy hy' _
      simp only [Function.update_of_ne hy, Function.update_of_ne hy']

theorem splitBlock_static (h : Heap) (ptr ptr2 : Nat) :
    (splitBlock h ptr ptr2).heapEnd = h.heapEnd ∧
      (splitBlock h ptr ptr2).memSizeAligned = h.memSizeAligned ∧
      (splitBlock h ptr ptr2).heapPtr = h.heapPtr ∧ (splitBlock h ptr ptr2).usedMem = h.usedMem ∧
      (splitBlock h ptr ptr2).lfree = h.lfree := by
  unfold splitBlock Heap.setMem
  by_cases atEnd : (h.mem ptr).next ≠ h.memSizeAligned + sizeofStructMem <;> simp [atEnd]

theorem Shape.split {a b : Nat} {u : Bool} (shape : Shape h (L ++ [c] ++ R)) (parts : a + b = c.size)
    (first : 16 ≤ a) (second : 16 ≤ b) (aligned : a % 4 = 0)
    (static : SameRegion h h')
    (mem : h'.mem = Function.update (splitBlock h (total L) (total L + a)).mem (total L)
      ⟨heapMagic, u, total L + a, lastStart 0 0 L⟩)
    (counted : h'.usedMem = usedTotal (L ++ [⟨a, u⟩, ⟨b, false⟩] ++ R)) :
    Shape h' (L ++ [⟨a, u⟩, ⟨b, false⟩] ++ R) := by
  obtain ⟨_, _, aligned', _⟩ := shape.header
  obtain ⟨_, middle, ⟨e, behind, back⟩, others⟩ := splitBlock_mem (a := a) shape (by lia) (by lia)
  refine shape.replace (by simp [total, parts]) static ?_ ?_ ?_ counted
  · intro y away
    simp only [total, Nat.add_zero] at away
    rw [mem, Function.update_of_ne (by lia), others y (by lia) (by lia) (by lia)]
  · refine ⟨e, ?_, fun more => by simpa [lastStart] using back more⟩
    simp only [total, Nat.add_zero]
    rw [mem, Function.update_of_ne (by lia), behind]
  · refine ⟨⟨?_, first, aligned⟩, ⟨?_, second, ?_⟩, trivial⟩
    · rw [mem, Function.update_self]
    · change h'.mem (total L + a) = ⟨heapMagic, false, total L + a + b, total L⟩
      rw [mem, Function.update_of_ne (by lia), middle, Nat.add_assoc, parts]
    · change b % 4 = 0
      lia

theorem Shape.mark {u : Bool} (shape : Shape h (L ++ [c] ++ R))
    (static : SameRegion h h')
    (mem : h'.mem = Function.update h.mem (total L) { h.mem (total L) with used := u, magic := heapMagic })
    (counted : h'.usedMem = usedTotal (L ++ [⟨c.size, u⟩] ++ R)) :
    Shape h' (L ++ [⟨c.size, u⟩] ++ R) := by
  obtain ⟨header, large, aligned, ends⟩ := shape.header
  refine shape.replace rfl static ?_ ?_ ?_ counted
  · intro y away
    simp only [total, Nat.add_zero] at away
    rw [mem, Function.update_of_ne (by lia)]
  · simp only [total, Nat.add_zero]
    refine ⟨(h.mem (total L + c.size)).prev, by rw [mem, Function.update_of_ne (by lia)], ?_⟩
    intro more
    obtain ⟨r, rest, rfl⟩ := List.exists_cons_of_ne_nil more
    have shape' : Shape h ((L ++ [c]) ++ [r] ++ rest) := by simpa using shape
    have next := shape'.header.1
    simp only [total_append, total, Nat.add_zero, lastStart_snoc, Nat.zero_add] at next
    simp [next, lastStart]
  · refine ⟨⟨?_, large, aligned⟩, trivial⟩
    rw [mem, Function.update_self, header]

theorem search_firstFit (shape : Shape h (L ++ R)) (fits : size ≤ h.memSizeAligned) (fuel : Nat)
    (enough : R.length ≤ fuel) : search h size fuel (total L) =
      some ((firstFit (size + sizeofStructMem) R).bind (fun y =>
        if total L + y + size < h.memSizeAligned then some (total L + y) else none)) := by
  have bound := shape.bound
  have last := shape.last
  unfold sizeofStructMem at bound last
  have room : sub32 h.memSizeAligned size = h.memSizeAligned - size := sub32_eq fits (by lia)
  induction R generalizing L fuel with
  | nil =>
    have whole := shape.whole
    rw [List.append_nil] at whole
    unfold search
    rw [room, if_neg (by lia)]
    rfl
  | cons c rest ih =>
    have shape' : Shape h (L ++ [c] ++ rest) := by simpa using shape
    obtain ⟨header, large, _, ends⟩ := shape'.header
    have data : sub32 (total L + c.size) (total L + sizeofStructMem) = c.size - sizeofStructMem := by
      unfold sizeofStructMem
      rw [sub32_eq (by lia) (by lia)]
      lia
    have same : (c.used = false ∧ size ≤ c.size - sizeofStructMem) ↔
        (c.used = false ∧ size + sizeofStructMem ≤ c.size) := by
      unfold sizeofStructMem
      constructor <;> rintro ⟨free, fits⟩ <;> exact ⟨free, by lia⟩
    unfold search
    simp only [header, data, same, firstFit]
    by_cases low : total L < sub32 h.memSizeAligned size
    · rw [if_pos low]
      by_cases found : c.used = false ∧ size + sizeofStructMem ≤ c.size
      · rw [if_pos found, if_pos found, Option.bind_some, if_pos (by lia), Nat.add_zero]
      · obtain ⟨fuel, rfl⟩ : ∃ f, fuel = f + 1 := ⟨fuel - 1, by simp at enough; lia⟩
        have next : total L + c.size = total (L ++ [c]) := by simp [total]
        rw [if_neg found, if_neg found]
        simp only [next]
        rw [ih (L := L ++ [c]) (by simpa using shape) fuel (by simpa using enough), Option.bind_map]
        simp only [← next, Function.comp_def, Nat.add_assoc]
    · rw [if_neg low]
      have high : ∀ y, ¬ total L + y + size < h.memSizeAligned := by
        intro y
        lia
      simp only [high, if_false, Option.bind_fun_none]

theorem advanceFree_spec (shape : Shape h (L ++ R)) (fuel : Nat) (enough : R.length ≤ fuel) :
    advanceFree h fuel (total L) = some (total L + firstFree R) := by
  induction R generalizing L fuel with
  | nil =>
    have whole := shape.whole
    rw [List.append_nil] at whole
    unfold advanceFree
    simp [whole, firstFree]
  | cons c rest ih =>
    have shape' : Shape h (L ++ [c] ++ rest) := by simpa using shape
    obtain ⟨header, large, _, ends⟩ := shape'.header
    unfold advanceFree
    simp only [header, firstFree]
    by_cases used : c.used = true
    · have inside : total L ≠ h.heapEnd := by lia
      obtain ⟨fuel, rfl⟩ : ∃ f, fuel = f + 1 := ⟨fuel - 1, by simp at enough; lia⟩
      have next := ih (L := L ++ [c]) (by simpa using shape) fuel (by simpa using enough)
      simp only [total_append, total, Nat.add_zero] at next
      simp only [used, inside, ne_eq, not_false_eq_true, and_self, if_true, next, Option.some.injEq]
      lia
    · simp [used]

theorem Shape.used_lt (shape : Shape h cells) : usedTotal cells < 2 ^ 32 := by
  have le := usedTotal_le cells
  have whole := shape.whole
  have bound := shape.bound
  lia

/-- What a claimed block looks like: in use, long enough, with the rest of the cell. -/
def Claimed (size : Nat) (c : Cell) (M' : List Cell) : Prop :=
  total M' = c.size ∧ ∃ a rest, M' = ⟨a, true⟩ :: rest ∧ size + sizeofStructMem ≤ a ∧
    (rest = [] ∨ ∃ b, rest = [⟨b, false⟩])

theorem claimBlock_split {ptr : Nat}
    (larger : size + sizeofStructMem + minSizeAligned ≤ sub32 (h.mem ptr).next (ptr + sizeofStructMem)) :
    claimBlock h ptr size =
      (addUsed (splitBlock h ptr (ptr + sizeofStructMem + size)) (size + sizeofStructMem)).setMem ptr
        (fun m => { m with used := true, magic := heapMagic }) := by
  simp only [claimBlock]
  rw [if_pos larger]

theorem claimBlock_whole {ptr : Nat}
    (smaller : ¬ size + sizeofStructMem + minSizeAligned ≤ sub32 (h.mem ptr).next (ptr + sizeofStructMem)) :
    claimBlock h ptr size = (addUsed h (sub32 (h.mem ptr).next ptr)).setMem ptr
      (fun m => { m with used := true, magic := heapMagic }) := by
  simp only [claimBlock]
  rw [if_neg smaller]

theorem claim_spec (shape : Shape h (L ++ [c] ++ R)) (free : c.used = false) (least : 12 ≤ size)
    (aligned : size % 4 = 0) (fits : size + sizeofStructMem ≤ c.size) :
    ∃ M', Claimed size c M' ∧ Shape (claimBlock h (total L) size) (L ++ M' ++ R) ∧
      (claimBlock h (total L) size).lfree = h.lfree ∧ SameRegion h (claimBlock h (total L) size) := by
  obtain ⟨header, large, aligned', ends⟩ := shape.header
  have bound := shape.bound
  have counted := shape.counted
  have small := shape.used_lt
  have limit := usedTotal_le L
  have limit' := usedTotal_le R
  simp only [usedTotal_append, usedTotal, free, Bool.false_eq_true, if_false] at counted small
  unfold sizeofStructMem at fits bound
  have next : (h.mem (total L)).next = total L + c.size := by rw [header]
  have data : sub32 (total L + c.size) (total L + 12) = c.size - 12 := by
    rw [sub32_eq (by lia) (by lia)]
    lia
  have extent : sub32 (total L + c.size) (total L) = c.size := by
    rw [sub32_eq (by lia) (by lia)]
    lia
  by_cases larger : size + 12 + 12 ≤ c.size - 12
  · obtain ⟨a, isA⟩ : ∃ a, a = size + 12 := ⟨_, rfl⟩
    obtain ⟨b, isB⟩ : ∃ b, b = c.size - a := ⟨_, rfl⟩
    obtain ⟨sameEnd, sameSize, samePtr, sameUsed, sameFree⟩ :=
      splitBlock_static h (total L) (total L + a)
    have split := splitBlock_mem (a := a) shape (by lia) (by lia)
    have result : claimBlock h (total L) size =
        (addUsed (splitBlock h (total L) (total L + a)) (size + 12)).setMem (total L)
          (fun m => { m with used := true, magic := heapMagic }) := by
      rw [claimBlock_split (by rwa [next, sizeofStructMem, data]), isA, ← Nat.add_assoc, Nat.add_right_comm]
      rfl
    rw [result]
    refine ⟨[⟨a, true⟩, ⟨b, false⟩], ⟨by simp [total]; lia, a, [⟨b, false⟩], rfl, Nat.le_of_eq isA.symm,
      Or.inr ⟨b, rfl⟩⟩, ?_, sameFree, sameEnd, sameSize, samePtr⟩
    refine shape.split (by lia) (by lia) (by lia) (by lia) ⟨sameEnd, sameSize, samePtr⟩ ?_ ?_
    · simp only [addUsed, Heap.setMem, split.1]
    · simp only [addUsed, Heap.setMem, sameUsed, usedTotal_append, usedTotal]
      simp
      lia
  · have result : claimBlock h (total L) size =
        (addUsed h c.size).setMem (total L) (fun m => { m with used := true, magic := heapMagic }) := by
      rw [claimBlock_whole (by rwa [next, sizeofStructMem, data]), next, extent]
    rw [result]
    refine ⟨[⟨c.size, true⟩], ⟨by simp [total], c.size, [], rfl, fits, Or.inl rfl⟩, ?_, rfl, rfl, rfl, rfl⟩
    refine shape.mark ⟨rfl, rfl, rfl⟩ rfl ?_
    simp only [addUsed, Heap.setMem, usedTotal_append, usedTotal, if_true]
    lia

theorem claimed_noTwoFree {M' : List Cell} (claimed : Claimed size c M') (free : c.used = false)
    (old : NoTwoFree (L ++ [c] ++ R)) : NoTwoFree (L ++ M' ++ R) := by
  obtain ⟨left, right, _, after⟩ := noTwoFree_middle.mp old
  simp only [free, Bool.false_eq_true, false_or] at after
  obtain ⟨_, a, rest, rfl, _, rfl | ⟨b, rfl⟩⟩ := claimed
  · exact noTwoFree_middle.mpr ⟨left, right, by simp, by simp⟩
  · have cut : NoTwoFree ((L ++ [⟨a, true⟩]) ++ [⟨b, false⟩] ++ R) :=
      noTwoFree_middle.mpr ⟨left.snoc rfl, right, by simp, fun d here => Or.inr (after d here)⟩
    simpa using cut

theorem updateFree_spec (shape : Shape h (L ++ M' ++ R)) (free : c.used = false)
    (positive : ∀ c ∈ L, 0 < c.size)
    (lowest : h.lfree = firstFree (L ++ [c] ++ R)) :
    ∃ h', updateFree h (total L) = some h' ∧ Repr h' (L ++ M' ++ R) ∧ SameRegion h h' := by
  have shape' : Shape h (L ++ (M' ++ R)) := by rwa [List.append_assoc] at shape
  have many : (M' ++ R).length ≤ h.heapEnd + 1 := by
    have short := length_le_total shape'.positive
    rw [shape'.whole, List.length_append] at short
    lia
  rw [List.append_assoc, firstFree_append] at lowest
  unfold updateFree
  cases all : L.all (·.used) with
  | true =>
    have here : h.lfree = total L := by simpa [all, firstFree, free] using lowest
    rw [here, if_pos rfl, advanceFree_spec shape' (h.heapEnd + 1) many]
    refine ⟨_, rfl, ⟨⟨shape.laid, shape.whole, shape.last, shape.stop, shape.counted, shape.aligned,
      shape.bound, shape.room⟩, ?_⟩, rfl, rfl, rfl⟩
    rw [List.append_assoc, firstFree_append (L := L), if_pos all]
  | false =>
    have before := firstFree_lt all positive
    simp only [all, Bool.false_eq_true, if_false] at lowest
    rw [if_neg (by lia)]
    refine ⟨h, rfl, ⟨shape, ?_⟩, rfl, rfl, rfl⟩
    rw [List.append_assoc, firstFree_append, all, lowest]
    rfl

theorem rtAlign_eq (small : n + 3 < 2 ^ 32) : rtAlign n = (n + 3) / 4 * 4 := by
  unfold rtAlign
  lia

theorem SameRegion.trans {h'' : Heap} (first : SameRegion h h') (second : SameRegion h' h'') :
    SameRegion h h'' :=
  ⟨second.heapEnd.trans first.heapEnd, second.memSizeAligned.trans first.memSizeAligned,
    second.heapPtr.trans first.heapPtr⟩

def userPtr (h : Heap) (x : Nat) : Nat := h.heapPtr + x + sizeofStructMem

/-- A block in use at `x` with room for `size` bytes. -/
def Room (cells : List Cell) (x size : Nat) : Prop :=
  ∃ c, At cells x c ∧ c.used = true ∧ size + sizeofStructMem ≤ c.size

/-- The block at `x` was free and is now in use, with room for `size` bytes. -/
def Taken (cells cells' : List Cell) (x size : Nat) : Prop :=
  (∃ e, At cells x e ∧ e.used = false) ∧ Room cells' x size

theorem takeBlock_spec (sound : Sound h (L ++ [c] ++ R)) (free : c.used = false) (least : 12 ≤ size)
    (aligned : size % 4 = 0) (fits : size + sizeofStructMem ≤ c.size) :
    ∃ h' cells', updateFree (claimBlock h (total L) size) (total L) = some h' ∧ Sound h' cells' ∧
      SameRegion h h' ∧ Keeps (L ++ [c] ++ R) cells' ∧ Taken (L ++ [c] ++ R) cells' (total L) size := by
  obtain ⟨M', claimed, shape, sameFree, same⟩ := claim_spec sound.toShape free least aligned fits
  obtain ⟨h', updated, repr, same'⟩ := updateFree_spec shape free
    (fun d here => sound.positive d (by simp [here])) (sameFree.trans sound.lowest)
  obtain ⟨whole, a, rest, rfl, large, _⟩ := id claimed
  refine ⟨h', _, updated, ⟨repr, claimed_noTwoFree claimed free sound.apart⟩, same.trans same', ?_,
    ⟨c, ?_, free⟩, ⟨a, true⟩, ?_, rfl, large⟩
  · exact Keeps.replace (by rw [whole]; simp [total]) (by simp [free])
  · rw [List.append_assoc]
    exact at_middle
  · rw [List.append_assoc]
    exact at_middle

/-- rt_malloc takes the lowest free block with the `z` bytes that it looks for, or else changes
nothing. -/
theorem rtMalloc_firstFit {z : Nat} (sound : Sound h cells) (some_ : 0 < size) (fits : rtAlign size ≤ h.memSizeAligned)
    (isZ : z = if rtAlign size < minSizeAligned then minSizeAligned else rtAlign size) :
    (∃ x h' cells', firstFit (z + sizeofStructMem) cells = some x ∧ x + z < h.memSizeAligned ∧
      rtMalloc h size = some (h', userPtr h x) ∧ Sound h' cells' ∧ SameRegion h h' ∧ Keeps cells cells' ∧
      Taken cells cells' x z) ∨
    ((∀ x, firstFit (z + sizeofStructMem) cells = some x → h.memSizeAligned ≤ x + z) ∧
      rtMalloc h size = some (h, 0)) := by
  have room := sound.room
  have sizes : 12 ≤ z ∧ z % 4 = 0 ∧ z ≤ h.memSizeAligned := by
    have align : rtAlign size % 4 = 0 := Nat.mul_mod_left _ 4
    unfold minSizeAligned at isZ room
    split at isZ <;> lia
  obtain ⟨least, aligned, most⟩ := sizes
  obtain ⟨A, B, rfl, start, found⟩ := firstFit_firstFree (z + sizeofStructMem) cells
  have short := length_le_total sound.positive
  rw [sound.whole, List.length_append] at short
  have searched := search_firstFit sound.toShape most (h.heapEnd + 1) (by lia)
  have nonzero : ¬ size = 0 := by lia
  simp only [rtMalloc, nonzero, if_false, Nat.not_lt.mpr fits]
  rw [← isZ, sound.lowest, ← start, searched, found]
  cases fit : firstFit (z + sizeofStructMem) B with
  | none =>
    right
    exact ⟨fun x none => by simp at none, rfl⟩
  | some y =>
    rw [Option.bind_some, Option.map_some]
    by_cases low : total A + y + z < h.memSizeAligned
    · left
      rw [if_pos low]
      obtain ⟨⟨c, here, free, holds⟩, _⟩ := firstFit_some fit
      obtain ⟨C, R, rfl, rfl⟩ := here.split
      rw [show A ++ (C ++ c :: R) = A ++ C ++ [c] ++ R by simp] at sound ⊢
      rw [show total A + total C = total (A ++ C) by simp] at *
      obtain ⟨h', cells', taken, sound', same, keeps, fresh, room⟩ :=
        takeBlock_spec sound free least aligned holds
      obtain ⟨_, _, _, ends⟩ := sound.header
      have begins : total (A ++ C) % 4 = 0 := by
        apply Shape.start_mod (h := h) (R := [c] ++ R)
        simpa using sound.toShape
      have region := sound.aligned
      unfold sizeofStructMem at holds
      have asserts : total (A ++ C) + sizeofStructMem + z ≤ h'.heapEnd ∧
          (h'.heapPtr + total (A ++ C) + sizeofStructMem) % 4 = 0 ∧ (h'.heapPtr + total (A ++ C)) % 4 = 0 := by
        rw [same.heapEnd, same.heapPtr]
        unfold sizeofStructMem
        lia
      refine ⟨_, h', cells', rfl, low, ?_, sound', same, keeps, fresh, room⟩
      simp only [taken, Option.bind_some]
      rw [if_pos asserts, userPtr, same.heapPtr]
    · right
      rw [if_neg low]
      refine ⟨?_, rfl⟩
      rintro x here
      cases Option.some.inj here
      lia

/-- rt_malloc returns, NULL or the data area of a block that was free. -/
theorem rtMalloc_spec (sound : Sound h cells) (request : size ≤ h.memSizeAligned) :
    ∃ h' p cells', rtMalloc h size = some (h', p) ∧ Sound h' cells' ∧ SameRegion h h' ∧ Keeps cells cells' ∧
      (p = 0 ∨ ∃ x, p = userPtr h x ∧ Taken cells cells' x size) := by
  have nothing : ∃ h' p cells', some (h, 0) = some (h', p) ∧ Sound h' cells' ∧ SameRegion h h' ∧
      Keeps cells cells' ∧ (p = 0 ∨ ∃ x, p = userPtr h x ∧ Taken cells cells' x size) :=
    ⟨h, 0, cells, rfl, sound, ⟨rfl, rfl, rfl⟩, fun _ _ found _ => found, Or.inl rfl⟩
  by_cases zero : size = 0
  · have result : rtMalloc h size = some (h, 0) := by simp [rtMalloc, zero]
    rw [result]
    exact nothing
  by_cases fits : rtAlign size ≤ h.memSizeAligned
  · rcases rtMalloc_firstFit sound (Nat.pos_of_ne_zero zero) fits rfl with
      ⟨x, h', cells', _, _, result, sound', same, keeps, fresh, e, found, used, large⟩ | ⟨_, result⟩
    · have bound := sound.bound
      have last := sound.last
      unfold sizeofStructMem at bound last
      refine ⟨h', _, cells', result, sound', same, keeps, Or.inr ⟨x, rfl, fresh, e, found, used, ?_⟩⟩
      rw [rtAlign_eq (by lia)] at large
      unfold minSizeAligned at large
      split at large <;> lia
    · rw [result]
      exact nothing
  · have result : rtMalloc h size = some (h, 0) := by simp [rtMalloc, zero, Nat.not_le.mp fits]
    rw [result]
    exact nothing

theorem Repr.merge (repr : Repr h (L ++ [c, d] ++ R)) (first : c.used = false) (second : d.used = false) :
    Repr ((h.setMem (total L) (fun m => { m with next := total L + c.size + d.size })).setMem
      (total L + c.size + d.size) (fun m => { m with prev := total L }))
      (L ++ [⟨c.size + d.size, false⟩] ++ R) := by
  have shape : Shape h (L ++ [c] ++ ([d] ++ R)) := by simpa using repr.toShape
  have shape' : Shape h (L ++ [c] ++ [d] ++ R) := by simpa using repr.toShape
  obtain ⟨header, large, aligned, _⟩ := shape.header
  obtain ⟨_, large', aligned', _⟩ := shape'.header
  constructor
  · refine repr.toShape.replace (by simp [total]) ⟨rfl, rfl, rfl⟩ ?_ ?_ ?_ ?_
    · intro y away
      simp only [total, Nat.add_zero] at away
      simp only [Heap.setMem]
      rw [Function.update_of_ne (by lia), Function.update_of_ne (by lia)]
    · refine ⟨total L, ?_, fun _ => rfl⟩
      simp only [total, Nat.add_zero, ← Nat.add_assoc, Heap.setMem]
      rw [Function.update_self, Function.update_of_ne (by lia)]
    · refine ⟨⟨?_, by simp only; lia, by simp only; lia⟩, trivial⟩
      simp only [Heap.setMem]
      rw [Function.update_of_ne (by lia), Function.update_self, header, first, Nat.add_assoc]
    · simp only [Heap.setMem, repr.counted]
      simp [usedTotal, first, second]
  · rw [firstFree_merge first]
    exact repr.lowest

theorem plugForward_spec (repr : Repr h (L ++ [c] ++ R)) (free : c.used = false) (right : NoTwoFree R) :
    ∃ e R', Repr (plugForward h (total L)) (L ++ [e] ++ R') ∧ e.used = false ∧ NoTwoFree R' ∧
      (∀ b ∈ R'.head?, b.used = true) ∧ Keeps (L ++ [c] ++ R) (L ++ [e] ++ R') ∧
      SameRegion h (plugForward h (total L)) := by
  obtain ⟨header, large, _, _⟩ := repr.header
  have next : (h.mem (total L)).next = total L + c.size := by rw [header]
  have stays (busy : (h.mem (total L + c.size)).used = true) : plugForward h (total L) = h := by
    simp [plugForward, next, busy]
  rcases repr.behind with ⟨rfl, _, busy⟩ | ⟨d, R', rfl, flag, beyond, inside⟩
  · rw [stays busy]
    exact ⟨c, [], repr, free, right, by simp, fun _ _ found _ => found, rfl, rfl, rfl⟩
  · cases used : d.used with
    | true =>
      rw [stays (flag.trans used)]
      exact ⟨c, d :: R', repr, free, right, by simp [used], fun _ _ found _ => found, rfl, rfl, rfl⟩
    | false =>
      have cursor := repr.lowest ▸ firstFree_le_free free L (d :: R')
      have both : L ++ [c] ++ d :: R' = L ++ [c, d] ++ R' := by simp
      rw [both] at repr ⊢
      have away : total L + c.size ≠ total L := by lia
      have result : plugForward h (total L) =
          (h.setMem (total L) (fun m => { m with next := total L + c.size + d.size })).setMem
            (total L + c.size + d.size) (fun m => { m with prev := total L }) := by
        simp only [plugForward, next, flag, used, Heap.setMem]
        rw [if_pos ⟨by lia, trivial, by lia⟩, if_neg (by lia)]
        simp only [Function.update_of_ne away, beyond]
      rw [result]
      obtain ⟨tail, apart⟩ := List.isChain_cons.mp right
      refine ⟨⟨c.size + d.size, false⟩, R', repr.merge free used, rfl, apart, ?_,
        Keeps.replace (by simp [total]) (by simp [free, used]), rfl, rfl, rfl⟩
      intro b here
      simpa [used] using tail b here

theorem plugBackward_spec (repr : Repr h (L ++ [c] ++ R)) (free : c.used = false) (left : NoTwoFree L)
    (right : NoTwoFree R) (behind : ∀ b ∈ R.head?, b.used = true) :
    ∃ cells', Sound (plugBackward h (total L)) cells' ∧ Keeps (L ++ [c] ++ R) cells' ∧
      SameRegion h (plugBackward h (total L)) := by
  obtain ⟨header, large, _, _⟩ := repr.header
  have prev : (h.mem (total L)).prev = lastStart 0 0 L := by rw [header]
  rcases List.eq_nil_or_concat L with rfl | ⟨L, b, rfl⟩
  · have stays : plugBackward h (total []) = h := by
      unfold plugBackward
      rw [prev, if_neg (by simp [lastStart, total])]
    rw [stays]
    refine ⟨_, ⟨repr, noTwoFree_middle.mpr ⟨left, right, by simp, ?_⟩⟩, fun _ _ found _ => found, rfl, rfl, rfl⟩
    exact fun b here => Or.inr (behind b here)
  · simp only [List.concat_eq_append] at *
    have repr' : Repr h (L ++ [b] ++ ([c] ++ R)) := by simpa using repr
    obtain ⟨header', large', _, _⟩ := repr'.header
    have start : total (L ++ [b]) = total L + b.size := by simp [total]
    rw [start] at header prev ⊢
    rw [lastStart_snoc, Nat.zero_add] at prev
    have flag : (h.mem (total L)).used = b.used := by rw [header']
    cases used : b.used with
    | true =>
      have stays : plugBackward h (total L + b.size) = h := by
        simp [plugBackward, prev, flag, used]
      rw [stays]
      refine ⟨_, ⟨repr, noTwoFree_middle.mpr ⟨left, right, by simp [used], ?_⟩⟩, fun _ _ found _ => found,
        rfl, rfl, rfl⟩
      exact fun b here => Or.inr (behind b here)
    | false =>
      have cursor := repr'.lowest ▸ firstFree_le_free used L ([c] ++ R)
      have both : L ++ [b] ++ [c] ++ R = L ++ [b, c] ++ R := by simp
      rw [both] at repr ⊢
      have next : (h.mem (total L + b.size)).next = total L + b.size + c.size := by rw [header]
      have away : total L + b.size ≠ total L := by lia
      have result : plugBackward h (total L + b.size) =
          (h.setMem (total L) (fun m => { m with next := total L + b.size + c.size })).setMem
            (total L + b.size + c.size) (fun m => { m with prev := total L }) := by
        simp only [plugBackward, prev, flag, used, Heap.setMem]
        rw [if_pos ⟨by lia, trivial⟩, if_neg (by lia)]
        simp only [Function.update_of_ne away, next]
      rw [result]
      have before := noTwoFree_middle.mp (show NoTwoFree (L ++ [b] ++ []) by simpa using left)
      refine ⟨_, ⟨repr.merge used free, noTwoFree_middle.mpr ⟨before.1, right, ?_, ?_⟩⟩,
        Keeps.replace (by simp [total]) (by simp [free, used]), rfl, rfl, rfl⟩
      · intro a here
        simpa [used] using before.2.2.1 a here
      · exact fun b here => Or.inr (behind b here)

/-- plug_holes leaves no two free blocks side by side. -/
theorem plugHoles_spec (repr : Repr h (L ++ [c] ++ R)) (free : c.used = false) (left : NoTwoFree L)
    (right : NoTwoFree R) :
    ∃ h' cells', plugHoles h (total L) = some h' ∧ Sound h' cells' ∧ SameRegion h h' ∧
      Keeps (L ++ [c] ++ R) cells' := by
  obtain ⟨header, large, _, _⟩ := repr.header
  have flag : (h.mem (total L)).used = false := by rw [header]; exact free
  obtain ⟨e, R', repr', free', right', behind, keeps, same⟩ := plugForward_spec repr free right
  obtain ⟨cells', sound, keeps', same'⟩ := plugBackward_spec repr' free' left right' behind
  refine ⟨_, cells', ?_, sound, same.trans same', keeps.trans keeps'⟩
  unfold plugHoles
  rw [if_pos ⟨by lia, flag⟩]

/-- Blocks in use other than the one at `x` stay where they are. -/
def KeepsOthers (cells cells' : List Cell) (x : Nat) : Prop :=
  ∀ y d, At cells y d → d.used = true → y ≠ x → At cells' y d

theorem userPtr_block (shape : Shape h (L ++ [c] ++ R)) :
    userPtr h (total L) % 4 = 0 ∧ h.heapPtr ≤ userPtr h (total L) ∧
      userPtr h (total L) < h.heapPtr + h.heapEnd ∧ userPtr h (total L) ≠ 0 ∧
      sub32 (userPtr h (total L) - h.heapPtr) sizeofStructMem = total L := by
  obtain ⟨_, large, _, ends⟩ := shape.header
  have region := shape.aligned
  have bound := shape.bound
  have begins : total L % 4 = 0 := by
    apply Shape.start_mod (h := h) (R := [c] ++ R)
    simpa using shape
  unfold userPtr sizeofStructMem at *
  refine ⟨by lia, by lia, by lia, by lia, ?_⟩
  rw [sub32_eq (by lia) (by lia)]
  lia

/-- What rt_free leaves to plug_holes. -/
def markFree (h : Heap) (x n : Nat) : Heap :=
  { h.setMem x (fun m => { m with used := false, magic := heapMagic }) with
    lfree := if x < h.lfree then x else h.lfree
    usedMem := sub32 h.usedMem n }

theorem markFree_repr (sound : Sound h (L ++ [c] ++ R)) (used : c.used = true) :
    Repr (markFree h (total L) c.size) (L ++ [⟨c.size, false⟩] ++ R) := by
  obtain ⟨_, large, _, _⟩ := sound.header
  have counted := sound.counted
  have small := sound.toShape.used_lt
  simp only [usedTotal_append, usedTotal, used, if_true] at counted small
  refine ⟨sound.toShape.mark ⟨rfl, rfl, rfl⟩ rfl ?_, ?_⟩
  · simp only [markFree, usedTotal_append, usedTotal, Bool.false_eq_true, if_false]
    rw [sub32_eq (by lia) (by lia)]
    lia
  · rw [firstFree_freed used (by lia) (fun d here => sound.positive d (by simp [here])), ← sound.lowest, markFree]

theorem rtFree_eq (sound : Sound h (L ++ [c] ++ R)) (used : c.used = true) :
    rtFree h (userPtr h (total L)) = plugHoles (markFree h (total L) c.size) (total L) := by
  obtain ⟨aligned, low, high, nonzero, offset⟩ := userPtr_block sound.toShape
  obtain ⟨header, _, _, ends⟩ := sound.header
  have bound := sound.bound
  have extent : sub32 (total L + c.size) (total L) = c.size := by
    rw [sub32_eq (by lia) (by lia)]
    lia
  unfold rtFree
  simp only [offset, header, used]
  rw [if_neg nonzero, if_pos ⟨aligned, low, high⟩, if_pos ⟨trivial, trivial⟩]
  simp only [Heap.setMem, Function.update_self, header, extent, markFree]

theorem rtFree_spec (sound : Sound h cells) (found : At cells x c) (used : c.used = true) :
    ∃ h' cells', rtFree h (userPtr h x) = some h' ∧ Sound h' cells' ∧ SameRegion h h' ∧
      KeepsOthers cells cells' x := by
  obtain ⟨L, R, split, rfl⟩ := found.split
  rw [show L ++ c :: R = L ++ [c] ++ R by simp] at split
  subst split
  obtain ⟨left, right, _, _⟩ := noTwoFree_middle.mp sound.apart
  obtain ⟨h', cells', plugged, sound', same, keeps⟩ := plugHoles_spec (markFree_repr sound used) rfl left right
  refine ⟨h', cells', (rtFree_eq sound used).trans plugged, sound', ⟨same.1, same.2, same.3⟩, ?_⟩
  intro y d found inUse other
  exact keeps y d (found.other rfl other) inUse

/-- What rt_realloc leaves to plug_holes when it cuts the end off a block. -/
def cutOff (h : Heap) (x a b : Nat) : Heap :=
  { splitBlock h x (x + a) with
    usedMem := sub32 h.usedMem b
    lfree := if x + a < h.lfree then x + a else h.lfree }

theorem cutOff_repr {a b : Nat} (sound : Sound h (L ++ [c] ++ R)) (used : c.used = true)
    (parts : a + b = c.size) (first : 16 ≤ a) (second : 16 ≤ b) (aligned : a % 4 = 0) :
    Repr (cutOff h (total L) a b) (L ++ [⟨a, true⟩] ++ [⟨b, false⟩] ++ R) ∧
      SameRegion h (cutOff h (total L) a b) := by
  have counted := sound.counted
  have small := sound.toShape.used_lt
  simp only [usedTotal_append, usedTotal, used, if_true] at counted small
  obtain ⟨sameEnd, sameSize, samePtr, sameUsed, sameFree⟩ := splitBlock_static h (total L) (total L + a)
  have split := splitBlock_mem (a := a) sound.toShape (by lia) (by lia)
  have region : SameRegion h (cutOff h (total L) a b) := ⟨sameEnd, sameSize, samePtr⟩
  have shape : Shape (cutOff h (total L) a b) (L ++ [⟨a, true⟩, ⟨b, false⟩] ++ R) := by
    refine sound.toShape.split parts first second aligned region ?_ ?_
    · rw [cutOff, ← used, ← split.1, Function.update_eq_self]
    · simp only [cutOff, usedTotal_append, usedTotal, Bool.false_eq_true, if_true, if_false]
      rw [sub32_eq (by lia) (by lia)]
      lia
  refine ⟨⟨by simpa using shape, ?_⟩, region⟩
  have freed := firstFree_freed (L := L ++ [⟨a, true⟩]) (c := ⟨b, true⟩) (R := R) rfl (by simp only; lia)
    (fun d here => shape.positive d (by simp at here ⊢; tauto))
  rw [freed, firstFree_cut used parts, ← sound.lowest, cutOff]
  simp [total]

/-- The part of rt_realloc that cuts off the end of a block. -/
theorem shrink_spec {a b : Nat} (sound : Sound h (L ++ [c] ++ R)) (used : c.used = true)
    (parts : a + b = c.size) (first : 16 ≤ a) (second : 16 ≤ b) (aligned : a % 4 = 0) :
    ∃ h' cells', plugHoles (cutOff h (total L) a b) (total L + a) = some h' ∧
      Sound h' cells' ∧ SameRegion h h' ∧ KeepsOthers (L ++ [c] ++ R) cells' (total L) ∧
      At cells' (total L) ⟨a, true⟩ := by
  obtain ⟨left, right, _, _⟩ := noTwoFree_middle.mp sound.apart
  obtain ⟨repr, region⟩ := cutOff_repr sound used parts first second aligned
  have start : total L + a = total (L ++ [⟨a, true⟩]) := by simp [total]
  obtain ⟨h', cells', plugged, sound', same, keeps⟩ := plugHoles_spec repr rfl (left.snoc rfl) right
  refine ⟨h', cells', start ▸ plugged, sound', region.trans same, ?_, ?_⟩
  · intro y d found inUse other
    refine keeps y d ?_ inUse
    have moved := found.other (show total [⟨a, true⟩, ⟨b, false⟩] = c.size by simp [total, parts]) other
    simpa using moved
  · refine keeps _ _ ?_ rfl
    rw [List.append_assoc, List.append_assoc]
    exact at_middle

/-- What rt_realloc of the block at `x` does: fail and change nothing the callers hold, or
return the block itself or one that was free. -/
def Resized (h : Heap) (cells cells' : List Cell) (x size q : Nat) : Prop :=
  (q = 0 ∧ Keeps cells cells') ∨
    (KeepsOthers cells cells' x ∧ ∃ x', q = userPtr h x' ∧ Room cells' x' size ∧
      (x' = x ∨ ∃ e, At cells x' e ∧ e.used = false))

theorem rtMemcpy_sound (sound : Sound h cells) (dst src n : Nat) : Sound (rtMemcpy h dst src n) cells :=
  ⟨⟨⟨sound.laid, sound.whole, sound.last, sound.stop, sound.counted, sound.aligned, sound.bound, sound.room⟩,
    sound.lowest⟩, sound.apart⟩

theorem moveBlock_spec (sound : Sound h cells) (found : At cells x c) (used : c.used = true)
    (request : n ≤ h.memSizeAligned) (size : Nat) :
    ∃ h' q cells', moveBlock h (userPtr h x) size n = some (h', q) ∧ Sound h' cells' ∧ SameRegion h h' ∧
      Resized h cells cells' x n q := by
  obtain ⟨h', q, cells', allocated, sound', same, keeps, failed | ⟨x', rfl, taken⟩⟩ :=
    rtMalloc_spec sound request
  · refine ⟨h', q, cells', ?_, sound', same, Or.inl ⟨failed, keeps⟩⟩
    simp [moveBlock, allocated, failed]
  · obtain ⟨⟨e, place, free⟩, d, found', used', large⟩ := taken
    have other : x' ≠ x := by
      rintro rfl
      rcases place.apart found with ⟨_, rfl⟩ | before | after
      · exact absurd free (by simp [used])
      · have positive := sound.positive_at place
        lia
      · have positive := sound.positive_at found
        lia
    have nonzero : userPtr h x' ≠ 0 := by simp [userPtr, sizeofStructMem]
    obtain ⟨h'', cells'', freed, sound'', same', others⟩ := rtFree_spec
      (rtMemcpy_sound sound' (userPtr h x') (userPtr h x) (min size n)) (keeps x c found used) used
    have ptr : userPtr (rtMemcpy h' (userPtr h x') (userPtr h x) (min size n)) x = userPtr h x := by
      simp [userPtr, rtMemcpy, same.heapPtr]
    rw [ptr] at freed
    refine ⟨h'', _, cells'', ?_, sound'', same.trans ⟨same'.1, same'.2, same'.3⟩, Or.inr ⟨?_, x', rfl, ?_, ?_⟩⟩
    · simp [moveBlock, allocated, nonzero, freed]
    · exact fun y b at' inUse away => others y b (keeps y b at' inUse) inUse away
    · exact ⟨d, others x' d found' used' other, used', large⟩
    · exact Or.inr ⟨e, place, free⟩

/-- What rt_realloc does with a block in use, for a size that is not aligned to 0. -/
theorem rtRealloc_cases (sound : Sound h (L ++ [c] ++ R)) (positive : rtAlign n ≠ 0) :
    (h.memSizeAligned < rtAlign n ∧ rtRealloc h (userPtr h (total L)) n = some (h, 0)) ∨
    (rtAlign n ≤ h.memSizeAligned ∧ ((rtAlign n + 12 = c.size ∧
        rtRealloc h (userPtr h (total L)) n = some (h, userPtr h (total L))) ∨
      (rtAlign n + 36 < c.size ∧ rtRealloc h (userPtr h (total L)) n =
        (plugHoles (cutOff h (total L) (rtAlign n + 12) (c.size - (rtAlign n + 12)))
          (total L + (rtAlign n + 12))).map (fun h' => (h', userPtr h (total L)))) ∨
      (c.size ≤ rtAlign n + 36 ∧ rtAlign n + 12 ≠ c.size ∧ rtRealloc h (userPtr h (total L)) n =
        moveBlock h (userPtr h (total L)) (c.size - 12) (rtAlign n)))) := by
  obtain ⟨aligned, low, high, ptr, offset⟩ := userPtr_block sound.toShape
  obtain ⟨header, large, mod, ends⟩ := sound.header
  have bound := sound.bound
  unfold sizeofStructMem at bound
  have extent : sub32 (sub32 (total L + c.size) (total L)) sizeofStructMem = c.size - 12 := by
    rw [sub32_eq (a := total L + c.size) (by lia) (by lia), Nat.add_sub_cancel_left]
    exact sub32_eq (by unfold sizeofStructMem; lia) (by lia)
  have inside : ¬ (userPtr h (total L) < h.heapPtr ∨ h.heapPtr + h.heapEnd ≤ userPtr h (total L)) := by lia
  simp only [rtRealloc, offset, header, extent]
  rw [if_neg positive, if_neg ptr, if_neg inside]
  by_cases beyond : h.memSizeAligned < rtAlign n
  · left
    rw [if_pos beyond]
    exact ⟨beyond, rfl⟩
  right
  rw [if_neg beyond]
  refine ⟨Nat.not_lt.mp beyond, ?_⟩
  by_cases same : c.size - 12 = rtAlign n
  · left
    rw [if_pos same]
    exact ⟨by lia, rfl⟩
  right
  rw [if_neg same]
  by_cases smaller : rtAlign n + sizeofStructMem + minSize < c.size - 12
  · left
    rw [if_pos smaller]
    unfold sizeofStructMem minSize at smaller
    refine ⟨by lia, ?_⟩
    have place : total L + sizeofStructMem + rtAlign n = total L + (rtAlign n + 12) := by
      unfold sizeofStructMem
      lia
    have rest : c.size - 12 - rtAlign n = c.size - (rtAlign n + 12) := by lia
    obtain ⟨_, _, _, _, cursor⟩ := splitBlock_static h (total L) (total L + (rtAlign n + 12))
    rw [place, rest, cutOff, cursor]
  · right
    rw [if_neg smaller]
    unfold sizeofStructMem minSize at smaller
    exact ⟨by lia, by lia, rfl⟩

theorem rtRealloc_spec (sound : Sound h cells) (found : At cells x c) (used : c.used = true)
    (request : n ≤ h.memSizeAligned) (nonzero : n ≠ 0) :
    ∃ h' q cells', rtRealloc h (userPtr h x) n = some (h', q) ∧ Sound h' cells' ∧ SameRegion h h' ∧
      Resized h cells cells' x n q := by
  obtain ⟨L, R, split, rfl⟩ := found.split
  rw [show L ++ c :: R = L ++ [c] ++ R by simp] at split
  subst split
  obtain ⟨_, large, mod, _⟩ := sound.header
  have bound := sound.bound
  have last := sound.last
  unfold sizeofStructMem at bound last
  have align := rtAlign_eq (n := n) (by lia)
  rcases rtRealloc_cases (n := n) sound (by lia) with
    ⟨_, result⟩ | ⟨fits, ⟨same, result⟩ | ⟨smaller, result⟩ | ⟨_, _, result⟩⟩
  · exact ⟨h, 0, _, result, sound, ⟨rfl, rfl, rfl⟩, Or.inl ⟨rfl, fun _ _ found _ => found⟩⟩
  · refine ⟨h, _, _, result, sound, ⟨rfl, rfl, rfl⟩, Or.inr ⟨fun _ _ found _ _ => found, _, rfl, ?_, Or.inl rfl⟩⟩
    exact ⟨c, found, used, by unfold sizeofStructMem; lia⟩
  · obtain ⟨h', cells', plugged, sound', region, others, kept⟩ := shrink_spec (a := rtAlign n + 12)
      (b := c.size - (rtAlign n + 12)) sound used (by lia) (by lia) (by lia) (by lia)
    rw [plugged, Option.map_some] at result
    refine ⟨h', _, cells', result, sound', region, Or.inr ⟨others, _, rfl, ⟨_, kept, rfl, ?_⟩, Or.inl rfl⟩⟩
    simp only [sizeofStructMem]
    lia
  · obtain ⟨h', q, cells', moved, sound', region, moves⟩ := moveBlock_spec sound found used fits (c.size - 12)
    refine ⟨h', q, cells', result.trans moved, sound', region, ?_⟩
    rcases moves with failed | ⟨others, x', rfl, ⟨e, place, inUse, large⟩, origin⟩
    · exact Or.inl failed
    · exact Or.inr ⟨others, x', rfl, ⟨e, place, inUse, by lia⟩, origin⟩

/-- Each pointer the callers hold is that of a block in use, long enough. -/
def Owned (h : Heap) (cells : List Cell) (live : Nat → Option Nat) : Prop :=
  ∀ p n, live p = some n → ∃ x, p = userPtr h x ∧ Room cells x n

def Inv (s : System) : Prop := ∃ cells, Sound s.heap cells ∧ Owned s.heap cells s.live

/-- A pointer is new if it is not in use, or the one that was passed in. -/
def Fresh (s : System) : Event → Prop
  | .malloc _ p => p ≠ 0 → s.live p = none
  | .free _ => True
  | .realloc rmem _ p => p ≠ 0 → p = rmem ∨ s.live p = none

theorem init_sound {ram : Nat → HeapMem} {data : Nat → BitVec 8} {beginAddr endAddr : Nat}
    (high : endAddr < 2 ^ 32)
    (init : rtSystemHeapInit ram data beginAddr endAddr = some h) (room : minSizeAligned ≤ h.memSizeAligned) :
    Sound h [⟨h.heapEnd, false⟩] := by
  have begins : rtAlign beginAddr % 4 = 0 := by unfold rtAlign; lia
  have ends : rtAlignDown endAddr % 4 = 0 ∧ rtAlignDown endAddr < 2 ^ 32 := by unfold rtAlignDown; lia
  simp only [rtSystemHeapInit] at init
  split at init
  · rename_i fits
    have heap := Option.some.inj init
    rw [← heap] at room ⊢
    simp only at room ⊢
    obtain ⟨size, isSize⟩ : ∃ z, z = rtAlignDown endAddr - rtAlign beginAddr - 2 * sizeofStructMem := ⟨_, rfl⟩
    simp only [← isSize] at room ⊢
    unfold sizeofStructMem minSizeAligned at *
    refine ⟨⟨⟨⟨⟨?_, ?_, ?_⟩, trivial⟩, rfl, rfl, ?_, rfl, begins, ?_, ?_⟩, rfl⟩, List.isChain_singleton _⟩
    · simp [Function.update_of_ne]
    · simp only
      lia
    · simp only
      lia
    · simp [Function.update_self]
    · simp only [sizeofStructMem]
      lia
    · simp only [minSizeAligned]
      lia
  · cases init

theorem start_inv {s : System} (start : Start s) : Inv s := by
  obtain ⟨⟨ram, data, beginAddr, endAddr, _, high, init⟩, room, nothing⟩ := start
  exact ⟨_, init_sound high init (Nat.le_trans (Nat.le_add_right _ _) room),
    fun p n held => absurd held (by simp [nothing p])⟩

theorem Owned.keeps {live : Nat → Option Nat} {cells' : List Cell} (owned : Owned h cells live)
    (same : SameRegion h h') (keeps : Keeps cells cells') : Owned h' cells' live := by
  intro p n held
  obtain ⟨x, rfl, c, found, used, large⟩ := owned p n held
  exact ⟨x, by simp only [userPtr, same.heapPtr], c, keeps x c found used, used, large⟩

theorem Owned.add {live : Nat → Option Nat} (owned : Owned h cells live) (room : Room cells x n) :
    Owned h cells (Function.update live (userPtr h x) (some n)) := by
  intro p m held
  by_cases here : p = userPtr h x
  · subst here
    rw [Function.update_self] at held
    cases Option.some.inj held
    exact ⟨x, rfl, room⟩
  · rw [Function.update_of_ne here] at held
    exact owned p m held

theorem Owned.drop {live : Nat → Option Nat} {cells' : List Cell} (owned : Owned h cells live)
    (same : SameRegion h h') (keeps : KeepsOthers cells cells' x) :
    Owned h' cells' (Function.update live (userPtr h x) none) := by
  intro p m held
  by_cases here : p = userPtr h x
  · subst here
    simp [Function.update_self] at held
  · rw [Function.update_of_ne here] at held
    obtain ⟨y, rfl, c, found, used, large⟩ := owned p m held
    have other : y ≠ x := by
      rintro rfl
      exact here rfl
    exact ⟨y, by simp only [userPtr, same.heapPtr], c, keeps y c found used other, used, large⟩

theorem Owned.fresh {live : Nat → Option Nat} (owned : Owned h cells live) (shape : Shape h cells)
    (found : At cells x c) (free : c.used = false) : live (userPtr h x) = none := by
  cases held : live (userPtr h x) with
  | none => rfl
  | some n =>
    obtain ⟨y, same, d, found', used, _⟩ := owned _ n held
    have here : x = y := by
      unfold userPtr at same
      lia
    subst here
    have first := shape.positive_at found
    have second := shape.positive_at found'
    rcases found.apart found' with ⟨_, rfl⟩ | before | after
    · exact absurd used (by simp [free])
    · lia
    · lia

theorem Owned.nonzero {live : Nat → Option Nat} (owned : Owned h cells live) : live 0 = none := by
  cases held : live 0 with
  | none => rfl
  | some n =>
    obtain ⟨x, null, _⟩ := owned 0 n held
    simp [userPtr, sizeofStructMem] at null

theorem malloc_inv {s : System} {size : Nat} (inv : Inv s) (request : size ≤ s.heap.memSizeAligned) :
    ∃ h p, rtMalloc s.heap size = some (h, p) ∧ (p ≠ 0 → s.live p = none) ∧
      ∀ n ≤ size, Inv ⟨h, if p = 0 then s.live else Function.update s.live p (some n)⟩ := by
  obtain ⟨cells, sound, owned⟩ := inv
  obtain ⟨h, p, cells', result, sound', same, keeps, failed | ⟨x, rfl, ⟨e, place, free⟩, room⟩⟩ :=
    rtMalloc_spec sound request
  · refine ⟨h, p, result, fun found => absurd failed found, fun n _ => ⟨cells', sound', ?_⟩⟩
    rw [if_pos failed]
    exact owned.keeps same keeps
  · have nonzero : userPtr s.heap x ≠ 0 := by simp [userPtr, sizeofStructMem]
    refine ⟨h, _, result, fun _ => owned.fresh sound.toShape place free, fun n le => ⟨cells', sound', ?_⟩⟩
    rw [if_neg nonzero]
    obtain ⟨c, found, used, large⟩ := room
    have added := (owned.keeps same keeps).add (x := x) (n := n) ⟨c, found, used, by lia⟩
    rwa [show userPtr h x = userPtr s.heap x by simp only [userPtr, same.heapPtr]] at added

theorem free_inv {s : System} {rmem : Nat} (inv : Inv s) (held : s.owns rmem = true) :
    ∃ h, rtFree s.heap rmem = some h ∧ Inv ⟨h, Function.update s.live rmem none⟩ := by
  obtain ⟨cells, sound, owned⟩ := inv
  by_cases null : rmem = 0
  · subst null
    refine ⟨s.heap, by simp [rtFree], cells, sound, ?_⟩
    have same : Function.update s.live 0 none = s.live := by
      rw [← owned.nonzero, Function.update_eq_self]
    rw [same]
    exact owned
  · obtain ⟨n, size⟩ := Option.isSome_iff_exists.mp (by simpa [System.owns, null] using held)
    obtain ⟨x, rfl, c, found, used, _⟩ := owned rmem n size
    obtain ⟨h, cells', result, sound', same, others⟩ := rtFree_spec sound found used
    exact ⟨h, result, cells', sound', owned.drop same others⟩

theorem realloc_inv {s : System} {rmem n : Nat} (inv : Inv s) (held : s.owns rmem = true)
    (request : n ≤ s.heap.memSizeAligned) :
    ∃ h p, rtRealloc s.heap rmem n = some (h, p) ∧ (p ≠ 0 → p = rmem ∨ s.live p = none) ∧
      Inv ⟨h, if n = 0 then Function.update s.live rmem none else if p = 0 then s.live
        else Function.update (Function.update s.live rmem none) p (some n)⟩ := by
  obtain ⟨cells, sound, owned⟩ := id inv
  have bound := sound.bound
  have last := sound.last
  unfold sizeofStructMem at bound last
  have align := rtAlign_eq (n := n) (by lia)
  by_cases zero : n = 0
  · subst zero
    obtain ⟨h, result, inv'⟩ := free_inv inv held
    refine ⟨h, 0, ?_, fun nonzero => absurd rfl nonzero, by simpa using inv'⟩
    simp [rtRealloc, align, result]
  by_cases null : rmem = 0
  · subst null
    have unheld : Function.update s.live 0 none = s.live := by
      rw [← owned.nonzero, Function.update_eq_self]
    simp only [zero, if_false, unheld]
    by_cases fits : s.heap.memSizeAligned < rtAlign n
    · refine ⟨s.heap, 0, by simp [rtRealloc, fits], fun nonzero => absurd rfl nonzero, by simpa using inv⟩
    · obtain ⟨h, p, result, fresh, inv'⟩ := malloc_inv inv
        (show rtAlign n ≤ s.heap.memSizeAligned by lia)
      refine ⟨h, p, ?_, fun nonzero => Or.inr (fresh nonzero), inv' n (by lia)⟩
      have positive : rtAlign n ≠ 0 := by lia
      simp [rtRealloc, fits, positive, result]
  · obtain ⟨m, size⟩ := Option.isSome_iff_exists.mp (by simpa [System.owns, null] using held)
    obtain ⟨x, rfl, c, found, used, _⟩ := owned rmem m size
    obtain ⟨h, q, cells', result, sound', same, resized⟩ := rtRealloc_spec sound found used request zero
    refine ⟨h, q, result, ?_, cells', sound', ?_⟩
    · intro nonzero
      rcases resized with ⟨failed, _⟩ | ⟨_, x', rfl, _, rfl | ⟨e, place, free⟩⟩
      · exact absurd failed nonzero
      · exact Or.inl rfl
      · exact Or.inr (owned.fresh sound.toShape place free)
    · simp only [zero, if_false]
      rcases resized with ⟨rfl, keeps⟩ | ⟨others, x', rfl, room, _⟩
      · exact owned.keeps same keeps
      · have nonzero : userPtr s.heap x' ≠ 0 := by simp [userPtr, sizeofStructMem]
        have moved := (owned.drop same others).add room
        rw [if_neg nonzero]
        rwa [show userPtr h x' = userPtr s.heap x' by simp only [userPtr, same.heapPtr]] at moved

/-- Every call the callers may make returns, and keeps the invariant. -/
theorem call_inv {s : System} {a : Action} (inv : Inv s) (allowed : s.allows a = true) :
    ∃ s' e, s.call a = some (s', [e]) ∧ Inv s' ∧ Fresh s e := by
  cases a with
  | malloc size =>
    obtain ⟨h, p, result, fresh, inv'⟩ := malloc_inv inv (by simpa [System.allows] using allowed)
    exact ⟨_, .malloc size p, by simp [System.call, result], inv' size (Nat.le_refl _), fresh⟩
  | free rmem =>
    obtain ⟨h, result, inv'⟩ := free_inv inv (by simpa [System.allows] using allowed)
    exact ⟨_, .free rmem, by simp [System.call, result], inv', trivial⟩
  | realloc rmem newsize =>
    simp only [System.allows, Bool.and_eq_true, decide_eq_true_eq] at allowed
    obtain ⟨h, p, result, fresh, inv'⟩ := realloc_inv inv allowed.1 allowed.2
    exact ⟨_, .realloc rmem newsize p, by simp [System.call, result], inv', fresh⟩

theorem run_inv {tr : List Event} {s : System} (run : Run machine tr s) : Inv s := by
  refine run.always (I := Inv) (fun _ => start_inv) ?_
  intro s a s' es inv taken
  change step s a = some (s', es) at taken
  unfold step at taken
  split at taken
  · rename_i allowed
    obtain ⟨t, e, result, inv', _⟩ := call_inv inv allowed
    rw [result] at taken
    cases Option.some.inj taken
    exact inv'
  · cases taken

/-- Length of the data area at `p`, as rt_realloc computes it. -/
def dataSize (h : Heap) (p : Nat) : Nat :=
  (h.mem (p - h.heapPtr - sizeofStructMem)).next - (p - h.heapPtr)

/-- The data areas of the pointers the callers hold. -/
structure DataAreas (s : System) : Prop where
  aligned : ∀ p n, s.live p = some n → p % 4 = 0
  inside : ∀ p n, s.live p = some n →
    s.heap.heapPtr + sizeofStructMem ≤ p ∧ p + dataSize s.heap p ≤ s.heap.heapPtr + s.heap.heapEnd
  large : ∀ p n, s.live p = some n → n ≤ dataSize s.heap p
  disjoint : ∀ p q m n, p ≠ q → s.live p = some m → s.live q = some n →
    p + dataSize s.heap p ≤ q ∨ q + dataSize s.heap q ≤ p

theorem dataSize_eq (shape : Shape h cells) (found : At cells x c) :
    dataSize h (userPtr h x) = c.size - sizeofStructMem ∧ sizeofStructMem ≤ c.size := by
  obtain ⟨a, header, large, _⟩ := shape.laid.found found
  rw [Nat.zero_add] at header
  unfold dataSize userPtr sizeofStructMem
  rw [show h.heapPtr + x + 12 - h.heapPtr - 12 = x by lia, header]
  simp only
  lia

theorem Owned.areas {s : System} (shape : Shape s.heap cells) (owned : Owned s.heap cells s.live) :
    DataAreas s := by
  have region := shape.aligned
  have whole := shape.whole
  refine ⟨?_, ?_, ?_, ?_⟩
  · intro p n held
    obtain ⟨x, rfl, c, found, _⟩ := owned p n held
    obtain ⟨L, R, rfl, rfl⟩ := found.split
    have begins := shape.start_mod
    unfold userPtr sizeofStructMem
    lia
  · intro p n held
    obtain ⟨x, rfl, c, found, _⟩ := owned p n held
    obtain ⟨size, large⟩ := dataSize_eq shape found
    have within := found.le
    rw [size]
    unfold userPtr sizeofStructMem at *
    lia
  · intro p n held
    obtain ⟨x, rfl, c, found, _, large⟩ := owned p n held
    obtain ⟨size, _⟩ := dataSize_eq shape found
    lia
  · intro p q m n other first second
    obtain ⟨x, rfl, c, found, _⟩ := owned p m first
    obtain ⟨y, rfl, d, found', _⟩ := owned q n second
    obtain ⟨size, large⟩ := dataSize_eq shape found
    obtain ⟨size', large'⟩ := dataSize_eq shape found'
    rw [size, size']
    unfold userPtr at *
    rcases found.apart found' with ⟨rfl, _⟩ | before | after
    · exact absurd rfl other
    · left
      lia
    · right
      lia

/-- The heap of every reachable state: its blocks are the `cells`, and every call returns. -/
structure HeapSound (s : System) (cells : List Cell) : Prop where
  headers : Laid (describes s.heap.mem) 0 0 cells
  tiles : total cells = s.heap.heapEnd
  apart : NoTwoFree cells
  lowest : s.heap.lfree = firstFree cells
  counted : s.heap.usedMem = usedTotal cells
  areas : DataAreas s
  returns : ∀ a, s.allows a = true → ∃ s' e, step s a = some (s', [e]) ∧ Fresh s e

/-- In every sequence of calls the heap stays well-formed. -/
theorem heap_sound {tr : List Event} {s : System} (run : Run machine tr s) :
    ∃ cells, HeapSound s cells := by
  have inv := run_inv run
  obtain ⟨cells, sound, owned⟩ := id inv
  refine ⟨cells, sound.laid, sound.whole, sound.apart, sound.lowest, sound.counted,
    owned.areas sound.toShape, ?_⟩
  intro a allowed
  obtain ⟨s', e, result, _, fresh⟩ := call_inv inv allowed
  exact ⟨s', e, by rw [step, if_pos allowed, result], fresh⟩

/-- Block 112 is shrunk in place and freed, block 184 grows by a move to 216, and 132 lies
in what both left behind. -/
theorem heap_sound_moved :
    ∃ s cells, HeapSound s cells ∧ s.live 216 = some 50 ∧ s.live 132 = some 10 ∧ s.heap.usedMem = 88 := by
  obtain ⟨h, init⟩ := Option.isSome_iff_exists.mp
    (show (rtSystemHeapInit (fun _ => ⟨0, false, 0, 0⟩) (fun _ => 0) 100 400).isSome by decide)
  have start : machine.start ⟨h, fun _ => none⟩ := by
    refine ⟨⟨_, _, 100, 400, by decide, by decide, init⟩, ?_, fun _ => rfl⟩
    cases Option.some.inj init
    decide
  obtain ⟨tr, s, run, found⟩ := Run.reaches start
    [.malloc 60, .malloc 20, .realloc 112 8, .realloc 184 50, .malloc 10, .free 112]
    (fun s => decide (s.live 216 = some 50 ∧ s.live 132 = some 10 ∧ s.heap.usedMem = 88))
    (by cases Option.some.inj init; decide +kernel)
  obtain ⟨cells, sound⟩ := heap_sound run
  exact ⟨s, cells, sound, of_decide_eq_true found⟩

end RtThread.Mem

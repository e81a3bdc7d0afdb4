import RtThread.MemHeap.AnySize
import RtThread.MemPool
import RtThread.MemRealloc

/-! What callers of the allocators get for the size they ask for: rt_malloc, rt_calloc,
rt_malloc_align, rt_mp_create and rt_memheap_alloc. All of them compute with 32 bits before they
look whether the size is too large. A store outside of a block is followed in the data only. -/
namespace RtThread.AllocSizes
open Transition Tiling MemCalls
open Mem hiding Repr
open MemPool (sizeofPtr)

/-- The object has 8 bytes of name, 2 of type and flag, and is aligned. -/
def sizeofRtMempool : Nat := 52

def storeWord (h : Heap) (a v : Nat) : Heap :=
  { h with data := fun b => if a ≤ b ∧ b < a + sizeofPtr then BitVec.ofNat 8 (v >>> (8 * (b - a))) else h.data b }

/-- The pointer that rt_malloc_align makes of the one it has got. -/
def alignPtr (ptr align : Nat) : Nat :=
  let p := BitVec.ofNat 32 ptr
  let a := BitVec.ofNat 32 align
  (if p &&& (a - 1) = 0 then p + a else (p + (a - 1)) &&& ~~~(a - 1)).toNat

/-- The total aligned size. -/
def alignSize (size align : Nat) : Nat := (Mem.rtAlign size + Mem.rtAlign align) % 2 ^ 32

def rtMallocAlign (h : Heap) (size align : Nat) : Option (Heap × Nat) :=
  (rtMalloc h (alignSize size align)).map (fun r =>
    if r.2 = 0 then r
    else
      let p := alignPtr r.2 (Mem.rtAlign align)
      (storeWord r.1 ((p + 2 ^ 32 - sizeofPtr) % 2 ^ 32) r.2, p))

structure Pool where
  self : Nat
  startAddress : Nat
  size : Nat
  blockSize : Nat
  blockList : Nat
  blockTotalCount : Nat
  blockFreeCount : Nat

def newPool (self start size blockSize count : Nat) : Pool where
  self := self
  startAddress := start
  size := size
  blockSize := blockSize
  blockList := start
  blockTotalCount := count
  blockFreeCount := count

def header (start blockSize i : Nat) : Nat := (start + i * (blockSize + sizeofPtr)) % 2 ^ 32

def initFree (h : Heap) (start blockSize count : Nat) : Heap :=
  let linked := (List.range count).foldl
    (fun h offset => storeWord h (header start blockSize offset) (header start blockSize (offset + 1))) h
  storeWord linked (header start blockSize (count - 1)) 0

def poolSize (count blockSize : Nat) : Nat := (Mem.rtAlign blockSize + sizeofPtr) * count % 2 ^ 32

/-- `none` if an assertion fails. -/
def rtMpCreate (h : Heap) (count blockSize : Nat) : Option (Heap × Option Pool) :=
  if 0 < count ∧ 0 < blockSize then
    (rtMalloc h sizeofRtMempool).bind (fun mp =>
      if mp.2 = 0 then some (mp.1, none)
      else
        let size := poolSize count blockSize
        let blockSize := Mem.rtAlign blockSize
        (rtMalloc (rtMemset mp.1 mp.2 0 sizeofRtMempool) size).bind (fun r =>
          if r.2 = 0 then (rtFree r.1 mp.2).map (fun h => (h, none))
          else some (initFree r.1 r.2 blockSize count, some (newPool mp.2 r.2 size blockSize count))))
  else none

/-- rt_malloc finds a block for this size. -/
def Avail (h : Heap) (size : Nat) : Prop :=
  0 < size ∧ ∃ x, Lowest h (blockSize size) x ∧ x + blockSize size < h.memSizeAligned

/-- What rt_malloc of `size` bytes returns: `p` with `n` bytes of data behind it. -/
structure Served (h : Heap) (size : Nat) (h' : Heap) (p x n : Nat) : Prop where
  place : p = userPtr h x
  lowest : Lowest h (blockSize size) x
  holds : ∀ k, Holds h' p k ↔ k ≤ n
  large : blockSize size ≤ n
  tight : n < blockSize size + 24
  inside : p + n < 2 ^ 32
  aligned : n % 4 = 0

variable {h h' f : Heap} {cells cells' : List Cell} {c : Cell} {x y p n k size : Nat} {s : State}

theorem userPtr_inj : userPtr h x = userPtr h y ↔ x = y := by
  unfold userPtr
  lia

theorem holds_iff (shape : Shape h cells) (found : At cells x c) (used : c.used = true) :
    Holds h (userPtr h x) k ↔ k ≤ c.size - sizeofStructMem := by
  obtain ⟨_, large⟩ := dataSize_eq shape found
  obtain ⟨a, described, _⟩ := shape.laid.found found
  rw [Nat.zero_add] at described
  constructor
  · rintro ⟨y, same, _, _, long⟩
    cases userPtr_inj.mp same
    rw [described] at long
    simp only at long
    lia
  · intro le
    refine Room.holds shape ⟨c, found, used, ?_⟩
    unfold sizeofStructMem at *
    lia

theorem claimBlock_tight (next : (h.mem x).next < 2 ^ 32) (behind : x + sizeofStructMem ≤ (h.mem x).next) :
    ((claimBlock h x size).mem x).next < x + sizeofStructMem + size + 24 := by
  by_cases larger : size + sizeofStructMem + minSizeAligned ≤ Mem.sub32 (h.mem x).next (x + sizeofStructMem)
  · rw [claimBlock_split larger]
    have cut : ((splitBlock h x (x + sizeofStructMem + size)).mem x).next = x + sizeofStructMem + size := by
      unfold splitBlock Heap.setMem
      by_cases atEnd : (h.mem x).next ≠ h.memSizeAligned + sizeofStructMem
      · by_cases self : x = (h.mem x).next
        · unfold sizeofStructMem at behind
          lia
        · simp [atEnd, Function.update_of_ne self]
      · simp [atEnd]
    simp only [Heap.setMem, addUsed, Function.update_self, cut]
    lia
  · rw [claimBlock_whole larger]
    simp only [Heap.setMem, addUsed, Function.update_self]
    rw [Mem.sub32_eq behind next] at larger
    unfold sizeofStructMem minSizeAligned at *
    lia

theorem Lowest.fits (shape : Shape h cells) (lowest : Lowest h size x) : size ≤ h.memSizeAligned := by
  obtain ⟨c, found, _, large⟩ := (free_iff shape).mp lowest.1
  have inside := found.le
  have whole := shape.whole
  have last := shape.last
  lia

theorem blockSize_le (size : Nat) : Mem.rtAlign size ≤ blockSize size ∧ 12 ≤ blockSize size := by
  unfold blockSize minSizeAligned
  split <;> lia

theorem allocated_served (sound : Sound h cells) (lowest : Lowest h (blockSize size) x)
    (result : rtMalloc h size = some (h', userPtr h x)) (allocated : Allocated h cells h' cells' x (blockSize size)) :
    ∃ n, Served h size h' (userPtr h x) x n := by
  obtain ⟨sound', region, _, ⟨e, place, _⟩, c, found, used, room⟩ := allocated
  have shape := sound.toShape
  have shape' := sound'.toShape
  have same : userPtr h' x = userPtr h x := by simp only [userPtr, region.heapPtr]
  obtain ⟨a, header, large, mod⟩ := shape'.laid.found found
  obtain ⟨b, old, wide, _⟩ := shape.laid.found place
  rw [Nat.zero_add] at header old
  have inside := found.le
  have inside' := place.le
  have whole := shape.whole
  have whole' := shape'.whole
  have bound := shape.bound
  have bound' := shape'.bound
  obtain ⟨ptr, pointer, mem, _⟩ := rtMalloc_claimed result (by unfold userPtr sizeofStructMem; lia)
  have here : ptr = x := by
    rw [← same] at pointer
    unfold userPtr at pointer
    lia
  subst here
  unfold sizeofStructMem at bound bound' room
  have tight : (h'.mem ptr).next < ptr + sizeofStructMem + blockSize size + 24 := by
    rw [mem]
    apply claimBlock_tight
    · rw [old]
      simp only
      lia
    · rw [old]
      simp only [sizeofStructMem]
      lia
  rw [header] at tight
  unfold sizeofStructMem at tight
  simp only at tight
  refine ⟨c.size - sizeofStructMem, rfl, lowest, fun k => ?_, ?_, ?_, ?_, ?_⟩
  · rw [← same]
    exact holds_iff shape' found used
  · unfold sizeofStructMem
    lia
  · unfold sizeofStructMem
    lia
  · rw [← same]
    unfold userPtr sizeofStructMem
    lia
  · unfold sizeofStructMem
    lia

/-- rt_malloc serves every size for which it finds a block, and no other. -/
theorem rtMalloc_served (sound : Sound h cells) (small : size < 2 ^ 32) :
    (Avail h size ∧ ∃ h' x n cells', rtMalloc h size = some (h', userPtr h x) ∧
      Served h size h' (userPtr h x) x n ∧ Sound h' cells') ∨
    (¬ Avail h size ∧ rtMalloc h size = some (h, 0)) := by
  by_cases nothing : size = 0
  · exact Or.inr ⟨fun avail => by have positive := avail.1; lia, by simp [rtMalloc, nothing]⟩
  by_cases fits : Mem.rtAlign size ≤ h.memSizeAligned
  · rcases rtMalloc_cases sound (by lia) fits with
      ⟨x, h', cells', found, low, result, allocated⟩ | ⟨high, result⟩
    · have lowest := (firstFit_iff sound.toShape).mp found
      obtain ⟨n, served⟩ := allocated_served sound lowest result allocated
      exact Or.inl ⟨⟨by lia, x, lowest, low⟩, h', x, n, cells', result, served, allocated.sound⟩
    · refine Or.inr ⟨?_, result⟩
      rintro ⟨_, x, lowest, low⟩
      have above := high x ((firstFit_iff sound.toShape).mpr lowest)
      lia
  · refine Or.inr ⟨?_, ?_⟩
    · rintro ⟨_, x, lowest, _⟩
      have within := Lowest.fits sound.toShape lowest
      have least := (blockSize_le size).1
      lia
    · have beyond : h.memSizeAligned < Mem.rtAlign size := by lia
      simp [rtMalloc, nothing, beyond]

theorem tiny_unavail (tiny : Tiny s) : ¬ Avail s.heap size := by
  rintro ⟨_, x, lowest, _⟩
  exact tiny.nothing (blockSize_le size).2 lowest.1

theorem malloc_large (inv : MemCalls.Inv s) (wrapped : n = size % 2 ^ 32) :
    (∀ h p, rtMalloc s.heap n = some (h, p) → p ≠ 0 → Holds h p size) ↔ size + 3 < 2 ^ 32 ∨ ¬ Avail s.heap n := by
  rcases inv with tiny | ⟨held, ⟨cells, (sound : Sound s.heap cells), _⟩, _⟩
  · refine ⟨fun _ => Or.inr (tiny_unavail tiny), fun _ h p result nonzero => ?_⟩
    have same := congrArg Prod.snd (tiny_malloc tiny result)
    exact absurd same nonzero
  · rcases rtMalloc_served sound (wrapped ▸ Nat.mod_lt _ (by decide)) with
      ⟨avail, h', x, m, cells', result, served, _⟩ | ⟨none, result⟩
    · have place := served.place
      have inside := served.inside
      have nonzero : userPtr s.heap x ≠ 0 := by unfold userPtr sizeofStructMem; lia
      constructor
      · intro large
        left
        have bytes := (served.holds size).mp (large h' _ result nonzero)
        unfold userPtr sizeofStructMem at inside
        lia
      · rintro cond h p taken _
        rw [result] at taken
        cases Option.some.inj taken
        have noWrap := cond.resolve_right (fun none => none avail)
        have enough := served.large
        have least := (blockSize_le n).1
        rw [wrapped, Nat.mod_eq_of_lt (by lia), Mem.rtAlign_eq noWrap] at least
        rw [wrapped, Nat.mod_eq_of_lt (by lia)] at enough
        refine (served.holds size).mpr ?_
        lia
    · refine ⟨fun _ => Or.inr none, fun _ h p taken nonzero => ?_⟩
      rw [result] at taken
      cases Option.some.inj taken
      exact absurd rfl nonzero

theorem block_data (data : Nat → BitVec 8) : Block { h with data := data } x ↔ Block h x := by
  constructor
  · intro block
    induction block with
    | first => exact .first
    | next _ inside ih => exact .next ih inside
  · intro block
    induction block with
    | first => exact .first
    | next _ inside ih => exact .next (h := { h with data := data }) ih inside

theorem holds_data (data : Nat → BitVec 8) : Holds { h with data := data } p k ↔ Holds h p k := by
  unfold Holds
  simp only [block_data]
  rfl

theorem calloc_large {count : Nat} (inv : MemCalls.Inv s) :
    (∀ h p, rtCalloc s.heap count size = some (h, p) → p ≠ 0 → Holds h p (count * size)) ↔
      count * size + 3 < 2 ^ 32 ∨ ¬ Avail s.heap (count * size % 2 ^ 32) := by
  rw [← malloc_large inv rfl]
  constructor
  · intro large h p result nonzero
    have cleared := large (rtMemset h p 0 (count * size % 2 ^ 32)) p
      (by simp only [rtCalloc, result, Option.map_some, if_neg nonzero]) nonzero
    exact (holds_data _).mp cleared
  · intro large h p result nonzero
    obtain ⟨⟨m, q⟩, taken, same⟩ := Option.map_eq_some_iff.mp result
    simp only at same
    split at same
    · cases same
      contradiction
    · cases same
      exact (holds_data _).mpr (large m p taken nonzero)

theorem and_not_toNat {w : Nat} (x m : BitVec w) : (x &&& ~~~m).toNat + (x &&& m).toNat = x.toNat := by
  have disjoint : (x &&& ~~~m) &&& (x &&& m) = 0#w := by
    ext i inside
    simp
    grind
  have whole : (x &&& ~~~m) ||| (x &&& m) = x := by
    ext i inside
    simp
    grind
  rw [← BitVec.toNat_add_of_and_eq_zero disjoint, BitVec.add_eq_or_of_and_eq_zero _ _ disjoint, whole]

theorem and_toNat_le {w : Nat} (x m : BitVec w) : (x &&& m).toNat ≤ m.toNat := by
  rw [BitVec.toNat_and]
  exact Nat.and_le_right

theorem alignPtr_cases {a : Nat} (some_ : 0 < a) (small : a < 2 ^ 32) (low : p < 2 ^ 32) :
    (p + a < 2 ^ 32 ∧ alignPtr p a = p + a) ∨
    (p + a ≤ 2 ^ 32 ∧ p ≤ alignPtr p a ∧ alignPtr p a < p + a) ∨ (2 ^ 32 ≤ p + a ∧ alignPtr p a < p) := by
  have mask : (BitVec.ofNat 32 a - 1).toNat = a - 1 := by
    simp [BitVec.toNat_sub]
    lia
  have moved : (BitVec.ofNat 32 p + (BitVec.ofNat 32 a - 1)).toNat = (p + (a - 1)) % 2 ^ 32 := by
    rw [BitVec.toNat_add, mask, BitVec.toNat_ofNat, Nat.mod_eq_of_lt low]
  unfold alignPtr
  simp only
  split
  · rw [BitVec.toNat_add, BitVec.toNat_ofNat, BitVec.toNat_ofNat]
    lia
  · have parts := and_not_toNat (BitVec.ofNat 32 p + (BitVec.ofNat 32 a - 1)) (BitVec.ofNat 32 a - 1)
    have less := and_toNat_le (BitVec.ofNat 32 p + (BitVec.ofNat 32 a - 1)) (BitVec.ofNat 32 a - 1)
    rw [moved] at parts
    rw [mask] at less
    lia

theorem alignPtr_zero : alignPtr p 0 = 0 := by
  have ones : (BitVec.ofNat 32 0 - 1 : BitVec 32) = BitVec.allOnes 32 := by decide
  unfold alignPtr
  simp only [ones, BitVec.and_allOnes, BitVec.not_allOnes]
  split
  · rename_i zero
    simp [zero]
  · simp

/-- In the block that rt_malloc has returned. -/
def AlignHolds (h : Heap) (size align : Nat) : Prop :=
  ∀ h' p, rtMallocAlign h size align = some (h', p) → p ≠ 0 →
    ∃ m ptr n, rtMalloc h (alignSize size align) = some (m, ptr) ∧ Holds h' ptr n ∧ ptr ≤ p ∧ p + size ≤ ptr + n

def AlignFits (h : Heap) (size align : Nat) : Prop :=
  (size + 3 < 2 ^ 32 ∧ Mem.rtAlign size + Mem.rtAlign align < 2 ^ 32) ∨ ¬ Avail h (alignSize size align) ∨
    ∃ x, Lowest h (blockSize (alignSize size align)) x ∧ alignPtr (userPtr h x) (Mem.rtAlign align) = 0

theorem rtAlign_spec (n : Nat) : Mem.rtAlign n % 4 = 0 ∧ Mem.rtAlign n < 2 ^ 32 := by
  unfold Mem.rtAlign
  lia

theorem alignSize_spec (size align : Nat) : alignSize size align < 2 ^ 32 ∧ alignSize size align % 4 = 0 := by
  have first := rtAlign_spec size
  have second := rtAlign_spec align
  unfold alignSize
  lia

theorem blockSize_aligned (aligned : size % 4 = 0) (small : size < 2 ^ 32) : blockSize size = max 12 size := by
  unfold blockSize minSizeAligned
  rw [Mem.rtAlign_eq (by lia)]
  split <;> lia

theorem alignHolds_iff {align : Nat} (result : rtMalloc h (alignSize size align) = some (h', p)) (nonzero : p ≠ 0)
    (served : Served h (alignSize size align) h' p x n) : AlignHolds h size align ↔
      (alignPtr p (Mem.rtAlign align) ≠ 0 → p ≤ alignPtr p (Mem.rtAlign align) ∧
        alignPtr p (Mem.rtAlign align) + size ≤ p + n) := by
  obtain ⟨v, isV⟩ : ∃ v, v = alignPtr p (Mem.rtAlign align) := ⟨_, rfl⟩
  have returned : rtMallocAlign h size align =
      some (storeWord h' ((v + 2 ^ 32 - sizeofPtr) % 2 ^ 32) p, v) := by
    simp only [rtMallocAlign, result, Option.map_some, if_neg nonzero, isV]
  have same : ∀ k, Holds (storeWord h' ((v + 2 ^ 32 - sizeofPtr) % 2 ^ 32) p) p k ↔ k ≤ n :=
    fun k => (holds_data _).trans (served.holds k)
  rw [← isV]
  constructor
  · intro holds aligned
    obtain ⟨m, ptr, k, taken, inside, above, below⟩ := holds _ v returned aligned
    rw [result] at taken
    cases Option.some.inj taken
    have within := (same k).mp inside
    exact ⟨above, by lia⟩
  · rintro holds f q taken aligned
    rw [returned] at taken
    cases Option.some.inj taken
    obtain ⟨above, below⟩ := holds aligned
    exact ⟨h', p, n, result, (same n).mpr (Nat.le_refl n), above, below⟩

theorem alignHolds_null {align : Nat} (result : rtMalloc h (alignSize size align) = some (h', 0)) :
    AlignHolds h size align := by
  intro f q taken aligned
  simp only [rtMallocAlign, result, Option.map_some, if_pos] at taken
  cases Option.some.inj taken
  exact absurd rfl aligned

theorem alignHolds_of_fits {align : Nat} (inv : MemCalls.Inv s) (fits : AlignFits s.heap size align) :
    AlignHolds s.heap size align := by
  obtain ⟨small, mod⟩ := alignSize_spec size align
  rcases inv with tiny | ⟨held, ⟨cells, (sound : Sound s.heap cells), _⟩, _⟩
  · intro f q taken aligned
    obtain ⟨r, result, made⟩ := Option.map_eq_some_iff.mp taken
    rw [tiny_malloc tiny result, if_pos rfl] at made
    cases made
    exact absurd rfl aligned
  rcases rtMalloc_served sound small with ⟨avail, m, x, n, cells', result, served, _⟩ | ⟨none, result⟩
  · have inside := served.inside
    have large := served.large
    have nonzero : userPtr s.heap x ≠ 0 := by unfold userPtr sizeofStructMem; lia
    rw [alignHolds_iff result nonzero served]
    intro aligned
    rcases fits with ⟨noWrap, sum⟩ | none | ⟨y, lowest, zero⟩
    · have positive : 0 < Mem.rtAlign align := by
        by_contra none
        rw [Nat.le_zero.mp (Nat.not_lt.mp none), alignPtr_zero] at aligned
        exact aligned rfl
      have up := Mem.rtAlign_eq noWrap
      rw [blockSize_aligned mod small, alignSize, Nat.mod_eq_of_lt sum] at large
      rcases alignPtr_cases positive (rtAlign_spec align).2 (show userPtr s.heap x < 2 ^ 32 by lia) with
        ⟨_, here⟩ | ⟨_, above, below⟩ | ⟨wraps, _⟩ <;> lia
    · exact absurd avail none
    · have here : y = x := Nat.le_antisymm (lowest.2 x served.lowest.1) (served.lowest.2 y lowest.1)
      rw [here] at zero
      exact absurd zero aligned
  · exact alignHolds_null result

theorem alignFits_of_holds {align : Nat} (inv : MemCalls.Inv s) (high : 32 ≤ s.heap.heapPtr)
    (holds : AlignHolds s.heap size align) : AlignFits s.heap size align := by
  obtain ⟨small, mod⟩ := alignSize_spec size align
  rcases inv with tiny | ⟨held, ⟨cells, (sound : Sound s.heap cells), _⟩, _⟩
  · exact Or.inr (Or.inl (tiny_unavail tiny))
  rcases rtMalloc_served sound small with ⟨avail, m, x, n, cells', result, served, _⟩ | ⟨none, result⟩
  · have inside := served.inside
    have tight := served.tight
    have nonzero : userPtr s.heap x ≠ 0 := by unfold userPtr sizeofStructMem; lia
    have place : 44 ≤ userPtr s.heap x := by unfold userPtr sizeofStructMem; lia
    rw [alignHolds_iff result nonzero served] at holds
    by_cases zero : alignPtr (userPtr s.heap x) (Mem.rtAlign align) = 0
    · exact Or.inr (Or.inr ⟨x, served.lowest, zero⟩)
    · left
      obtain ⟨above, below⟩ := holds zero
      have noWrap : size + 3 < 2 ^ 32 := by lia
      refine ⟨noWrap, ?_⟩
      by_contra wraps
      have up := Mem.rtAlign_eq noWrap
      have first := (rtAlign_spec size).2
      have second := (rtAlign_spec align).2
      have rest : alignSize size align = Mem.rtAlign size + Mem.rtAlign align - 2 ^ 32 := by
        unfold alignSize
        lia
      rw [blockSize_aligned mod small, rest] at tight
      rcases alignPtr_cases (show 0 < Mem.rtAlign align by lia) second (show userPtr s.heap x < 2 ^ 32 by lia) with
        ⟨_, here⟩ | ⟨_, _, here⟩ | ⟨_, here⟩ <;> omega
  · exact Or.inr (Or.inl none)

/-- `count` blocks of `blockSize` bytes, with their headers, in the memory of the pool. -/
structure PoolFits (h : Heap) (pool : Pool) (count blockSize : Nat) : Prop where
  total : pool.blockTotalCount = count
  inside : ∃ n, Holds h pool.startAddress n ∧ ∀ i < count,
    pool.startAddress ≤ header pool.startAddress pool.blockSize i ∧
    header pool.startAddress pool.blockSize i + sizeofPtr + blockSize ≤ pool.startAddress + n
  disjoint : ∀ i < count, ∀ j < count, i ≠ j →
    header pool.startAddress pool.blockSize i + sizeofPtr + blockSize ≤ header pool.startAddress pool.blockSize j ∨
    header pool.startAddress pool.blockSize j + sizeofPtr + blockSize ≤ header pool.startAddress pool.blockSize i

def PoolHolds (h : Heap) (count blockSize : Nat) : Prop :=
  ∀ h' pool, rtMpCreate h count blockSize = some (h', some pool) → PoolFits h' pool count blockSize

/-- Nothing wraps, or an assertion fails, or there is no memory for the object or for the blocks. -/
def PoolSized (h : Heap) (count blockSize : Nat) : Prop :=
  blockSize = 0 ∨ (blockSize + 3 < 2 ^ 32 ∧ (Mem.rtAlign blockSize + sizeofPtr) * count < 2 ^ 32) ∨
    ∀ m mp, rtMalloc h sizeofRtMempool = some (m, mp) → mp ≠ 0 → ¬ Avail m (poolSize count blockSize)

theorem header_eq {start b i : Nat} (low : start + i * (b + sizeofPtr) < 2 ^ 32) :
    header start b i = start + i * (b + sizeofPtr) := Nat.mod_eq_of_lt low

theorem avail_data (data : Nat → BitVec 8) : Avail { h with data := data } size ↔ Avail h size := by
  unfold Avail Lowest Free
  simp only [block_data]

theorem initFree_holds {start b count : Nat} : Holds (initFree h start b count) p k ↔ Holds h p k := by
  have linked : ∀ (row : List Nat) (h : Heap), Holds (row.foldl
      (fun h offset => storeWord h (header start b offset) (header start b (offset + 1))) h) p k ↔ Holds h p k := by
    intro row
    induction row with
    | nil => exact fun h => Iff.rfl
    | cons i rest ih => exact fun h => (ih _).trans (holds_data _)
  exact (holds_data _).trans (linked _ h)

theorem blocks_inside {start b count i : Nat} (served : Served h (poolSize count b) h' start x n)
    (noWrap : b + 3 < 2 ^ 32) (product : (Mem.rtAlign b + sizeofPtr) * count < 2 ^ 32) (less : i < count) :
    header start (Mem.rtAlign b) i = start + i * (Mem.rtAlign b + sizeofPtr) ∧
      start + i * (Mem.rtAlign b + sizeofPtr) + sizeofPtr + b ≤ start + n := by
  have large := served.large
  have inside := served.inside
  have up := Mem.rtAlign_eq noWrap
  have mod : poolSize count b % 4 = 0 := by
    rw [poolSize, Nat.mod_eq_of_lt product, up]
    unfold sizeofPtr
    exact Nat.mod_eq_zero_of_dvd (Nat.dvd_mul_right_of_dvd (by lia) count)
  rw [blockSize_aligned mod (Nat.mod_lt _ (by decide)), poolSize, Nat.mod_eq_of_lt product] at large
  have step : (i + 1) * (Mem.rtAlign b + sizeofPtr) ≤ (Mem.rtAlign b + sizeofPtr) * count := by
    rw [Nat.mul_comm _ count]
    exact Nat.mul_le_mul_right _ less
  rw [Nat.succ_mul] at step
  have low : start + i * (Mem.rtAlign b + sizeofPtr) + sizeofPtr + b ≤ start + n := by lia
  exact ⟨header_eq (by lia), low⟩

theorem blocks_outside {start b count : Nat} (served : Served h (poolSize count b) h' start x n)
    (noWrap : b + 3 < 2 ^ 32) (product : 2 ^ 32 ≤ (Mem.rtAlign b + sizeofPtr) * count) :
    ∃ i < count, start + n < header start (Mem.rtAlign b) i + sizeofPtr + b := by
  have inside := served.inside
  have aligned := served.aligned
  have up := Mem.rtAlign_eq noWrap
  have positive : 0 < Mem.rtAlign b + sizeofPtr := by
    unfold sizeofPtr
    lia
  have parts := Nat.div_add_mod' n (Mem.rtAlign b + sizeofPtr)
  have less := Nat.mod_lt n positive
  have mod : n % (Mem.rtAlign b + sizeofPtr) % 4 = 0 := by
    rw [Nat.mod_mod_of_dvd, aligned]
    unfold sizeofPtr
    lia
  refine ⟨n / (Mem.rtAlign b + sizeofPtr), ?_, ?_⟩
  · rw [Nat.div_lt_iff_lt_mul positive, Nat.mul_comm]
    lia
  · rw [header_eq (by lia)]
    unfold sizeofPtr at *
    lia

theorem poolFits_iff {start b count : Nat} {pool : Pool} (served : Served h (poolSize count b) h' start x n)
    (some_ : 0 < count) (begins : pool.startAddress = start) (blocks : pool.blockSize = Mem.rtAlign b)
    (total : pool.blockTotalCount = count) (holds : ∀ k, Holds f pool.startAddress k ↔ k ≤ n) :
    PoolFits f pool count b ↔ b + 3 < 2 ^ 32 ∧ (Mem.rtAlign b + sizeofPtr) * count < 2 ^ 32 := by
  have bound := served.inside
  constructor
  · rintro ⟨_, ⟨m, within, all⟩, _⟩
    have le := (holds m).mp within
    rw [begins, blocks] at all
    have noWrap : b + 3 < 2 ^ 32 := by
      obtain ⟨_, first⟩ := all 0 some_
      rw [header_eq (by lia)] at first
      unfold sizeofPtr at first
      lia
    refine ⟨noWrap, ?_⟩
    by_contra wraps
    obtain ⟨i, less, outside⟩ := blocks_outside served noWrap (Nat.not_lt.mp wraps)
    have ends := (all i less).2
    lia
  · rintro ⟨noWrap, product⟩
    have block := fun i (less : i < count) => blocks_inside served noWrap product less
    refine ⟨total, ⟨n, (holds n).mpr (Nat.le_refl n), ?_⟩, ?_⟩
    · intro i less
      obtain ⟨place, ends⟩ := block i less
      rw [begins, blocks, place]
      exact ⟨Nat.le_add_right _ _, ends⟩
    · have order : ∀ i j, i < j → j < count →
          header start (Mem.rtAlign b) i + sizeofPtr + b ≤ header start (Mem.rtAlign b) j := by
        intro i j before less
        rw [(block i (by lia)).1, (block j less).1]
        have up := Mem.rtAlign_eq noWrap
        have step := Nat.mul_le_mul_right (Mem.rtAlign b + sizeofPtr) before
        rw [Nat.succ_mul] at step
        lia
      intro i first j second other
      rw [begins, blocks]
      rcases Nat.lt_or_gt_of_ne other with before | after
      · exact Or.inl (order i j before second)
      · exact Or.inr (order j i after first)

/-- The pool is the one with which the calls on a pool begin. -/
theorem rtMpCreate_pool {count b : Nat} {pool : Pool} (created : rtMpCreate h count b = some (h', some pool))
    (product : (Mem.rtAlign b + sizeofPtr) * count < 2 ^ 32) (k : Kernel) (word : Nat → Nat) :
    MemPool.rtMpCreate k word pool.self (fun _ => pool.startAddress) count b =
      some (MemPool.newPool k word pool.self pool.startAddress pool.blockSize pool.blockTotalCount) := by
  have same : RtThread.rtAlign b = Mem.rtAlign b := rfl
  unfold rtMpCreate at created
  split at created
  · rename_i asserts
    obtain ⟨mp, _, rest⟩ := Option.bind_eq_some_iff.mp created
    split at rest
    · cases rest
    · obtain ⟨r, _, made⟩ := Option.bind_eq_some_iff.mp rest
      split at made
      · obtain ⟨_, _, none⟩ := Option.map_eq_some_iff.mp made
        cases none
      · rename_i nonzero
        cases Option.some.inj made
        unfold MemPool.rtMpCreate
        simp only [newPool, MemPool.stride, same]
        rw [if_pos asserts, if_neg nonzero, if_pos product]
  · cases created

theorem poolHolds_null {count b : Nat} (result : ∀ r, rtMalloc h sizeofRtMempool = some r → r.2 = 0) :
    PoolHolds h count b ∧ PoolSized h count b := by
  constructor
  · intro f pool taken
    unfold rtMpCreate at taken
    split at taken
    · obtain ⟨mp, object, rest⟩ := Option.bind_eq_some_iff.mp taken
      rw [if_pos (result mp object)] at rest
      cases rest
    · cases taken
  · exact Or.inr (Or.inr fun m mp taken found => absurd (result _ taken) found)

theorem poolHolds_blocks {count b mp : Nat} (asserts : 0 < count ∧ 0 < b) (sound : Sound f cells)
    (object : rtMalloc h sizeofRtMempool = some (f, mp)) (found : mp ≠ 0) :
    PoolHolds h count b ↔ PoolSized h count b := by
  have cleared : Sound (rtMemset f mp 0 sizeofRtMempool) cells := Sound.setData sound _
  rcases rtMalloc_served cleared (show poolSize count b < 2 ^ 32 from Nat.mod_lt _ (by decide)) with
    ⟨avail, g, x, n, cells', result, served, _⟩ | ⟨none, result⟩
  · obtain ⟨start, isStart⟩ : ∃ p, p = userPtr (rtMemset f mp 0 sizeofRtMempool) x := ⟨_, rfl⟩
    rw [← isStart] at result served
    have nonzero : start ≠ 0 := by
      unfold userPtr sizeofStructMem at isStart
      lia
    have created : rtMpCreate h count b = some (initFree g start (Mem.rtAlign b) count,
        some (newPool mp start (poolSize count b) (Mem.rtAlign b) count)) := by
      rw [rtMpCreate, if_pos asserts, object, Option.bind_some, if_neg found]
      simp only [result, Option.bind_some, if_neg nonzero]
    have fits : PoolFits (initFree g start (Mem.rtAlign b) count)
        (newPool mp start (poolSize count b) (Mem.rtAlign b) count) count b ↔
        b + 3 < 2 ^ 32 ∧ (Mem.rtAlign b + sizeofPtr) * count < 2 ^ 32 :=
      poolFits_iff served asserts.1 rfl rfl rfl (fun k => initFree_holds.trans (served.holds k))
    have made : PoolHolds h count b ↔ b + 3 < 2 ^ 32 ∧ (Mem.rtAlign b + sizeofPtr) * count < 2 ^ 32 := by
      rw [← fits]
      constructor
      · exact fun holds => holds _ _ created
      · intro fitting g' pool taken
        rw [created] at taken
        cases Option.some.inj taken
        exact fitting
    rw [made]
    constructor
    · exact fun sized => Or.inr (Or.inl sized)
    · rintro (zero | sized | none)
      · exact absurd zero (by lia)
      · exact sized
      · exact absurd ((avail_data _).mp avail) (none f mp object found)
  · refine iff_of_true ?_ (Or.inr (Or.inr ?_))
    · intro g pool taken
      rw [rtMpCreate, if_pos asserts, object, Option.bind_some, if_neg found] at taken
      simp only [result, Option.bind_some, if_pos] at taken
      obtain ⟨_, _, same⟩ := Option.map_eq_some_iff.mp taken
      cases same
    · intro f' mp' again _ avail
      rw [object] at again
      cases Option.some.inj again
      exact none ((avail_data _).mpr avail)

theorem poolHolds_iff {count b : Nat} (inv : MemCalls.Inv s) : PoolHolds s.heap count b ↔ PoolSized s.heap count b := by
  have nothing : (∀ r, rtMalloc s.heap sizeofRtMempool = some r → r.2 = 0) →
      (PoolHolds s.heap count b ↔ PoolSized s.heap count b) :=
    fun none => iff_of_true (poolHolds_null none).1 (poolHolds_null none).2
  rcases inv with tiny | ⟨held, ⟨cells, (sound : Sound s.heap cells), _⟩, _⟩
  · exact nothing fun r taken => congrArg Prod.snd (tiny_malloc tiny taken)
  by_cases asserts : 0 < count ∧ 0 < b
  · rcases rtMalloc_served sound (show sizeofRtMempool < 2 ^ 32 by decide) with
      ⟨_, m, y, k, cells', object, _, sound'⟩ | ⟨_, result⟩
    · exact poolHolds_blocks asserts sound' object (by unfold userPtr sizeofStructMem; lia)
    · refine nothing fun r taken => ?_
      rw [result] at taken
      cases Option.some.inj taken
      rfl
  · refine iff_of_true ?_ ?_
    · intro f pool taken
      rw [rtMpCreate, if_neg asserts] at taken
      cases taken
    · by_cases zero : b = 0
      · exact Or.inl zero
      · have empty : count = 0 := by lia
        refine Or.inr (Or.inr fun m mp _ _ avail => ?_)
        have positive := avail.1
        rw [poolSize, empty, Nat.mul_zero] at positive
        exact absurd positive (by decide)

def MallocHolds (h : Heap) (size : Nat) : Prop :=
  ∀ h' p, rtMalloc h size = some (h', p) → p ≠ 0 → Holds h' p size

def CallocHolds (h : Heap) (count size : Nat) : Prop :=
  ∀ h' p, rtCalloc h count size = some (h', p) → p ≠ 0 → Holds h' p (count * size)

def MemheapHolds (h : MemHeap.Memheap) (size : Nat) : Prop :=
  ∀ h' p, MemHeap.rtMemheapAlloc h size = some (h', p) → p ≠ 0 → size ≤ MemHeap.dataSize h' p

/-- Where nothing wraps every result is as large as it was asked for, and where something does it
is not, unless there is no memory for what is left of the size either. For rt_malloc_align the
second half needs a heap that does not begin at the bottom of the address space. -/
theorem sizes_hold {tr : List Nat} {tr' : List MemHeap.Event} {m : MemHeap.System}
    (run : Run MemCalls.machine tr s) (run' : Run MemHeap.AnySize.machine tr' m) (small : size < 2 ^ 32)
    (count align : Nat) :
    (MallocHolds s.heap size ↔ size + 3 < 2 ^ 32 ∨ ¬ Avail s.heap size) ∧
    (CallocHolds s.heap count size ↔ count * size + 3 < 2 ^ 32 ∨ ¬ Avail s.heap (count * size % 2 ^ 32)) ∧
    (MemheapHolds m.heap size ↔ size + 3 < 2 ^ 32 ∨ ¬ MemHeap.AnySize.Serves m.heap size) ∧
    (AlignFits s.heap size align → AlignHolds s.heap size align) ∧
    (32 ≤ s.heap.heapPtr → AlignHolds s.heap size align → AlignFits s.heap size align) ∧
    (PoolHolds s.heap count size ↔ PoolSized s.heap count size) := by
  have inv := MemCalls.run_inv run
  refine ⟨malloc_large inv (Nat.mod_eq_of_lt small).symm, calloc_large inv,
    MemHeap.AnySize.alloc_large (MemHeap.AnySize.run_inv run') small, alignHolds_of_fits inv, ?_, poolHolds_iff inv⟩
  exact fun high holds => alignFits_of_holds inv high holds

/-- A heap with a block in use, and a memory heap with one. -/
theorem sizes_hold_twenty : ∃ tr s tr' m, Run MemCalls.machine tr s ∧ Run MemHeap.AnySize.machine tr' m ∧
    s.live 112 = true ∧ m.live 124 = some 60 ∧ MallocHolds s.heap 20 ∧ CallocHolds s.heap 3 20 ∧
    MemheapHolds m.heap 20 ∧ AlignHolds s.heap 20 8 ∧ PoolHolds s.heap 3 20 := by
  obtain ⟨h, init⟩ := Option.isSome_iff_exists.mp
    (show (rtSystemHeapInit (fun _ => ⟨0, false, 0, 0⟩) (fun _ => 0) 100 400).isSome by decide)
  have start : MemCalls.machine.start ⟨h, fun _ => false⟩ :=
    ⟨⟨_, _, 100, 400, by decide, by decide, init⟩, fun _ => rfl⟩
  obtain ⟨tr, s, run, live⟩ := Run.reaches start [.malloc 0xffffffff, .malloc 20]
    (fun s => decide (s.live 112 = true)) (by cases Option.some.inj init; decide +kernel)
  have start' : MemHeap.AnySize.machine.start ⟨MemHeap.rtMemheapInit (fun _ => 0) 50 20 100 400, fun _ => none⟩ :=
    ⟨⟨_, _, _, _, _, by decide, by decide, by decide, by decide, rfl⟩, fun _ => rfl⟩
  obtain ⟨tr', m, run', live'⟩ := Run.reaches start' [.alloc 60, .alloc 0xfffffffe]
    (fun m => decide (m.live 124 = some 60)) (by decide +kernel)
  obtain ⟨malloc, calloc, memheap, align, _, pool⟩ := sizes_hold run run' (show 20 < 2 ^ 32 by decide) 3 8
  exact ⟨tr, s, tr', m, run, run', of_decide_eq_true live, of_decide_eq_true live', malloc.mpr (Or.inl (by decide)),
    calloc.mpr (Or.inl (by decide)), memheap.mpr (Or.inl (by decide)), align (Or.inl (by decide)),
    pool.mpr (Or.inr (Or.inl (by decide)))⟩

theorem avail_new (free : (h.mem 0).used = false) (long : (h.mem 0).next = 288) (region : h.memSizeAligned = 276)
    (some_ : 0 < size) (fits : blockSize size < 276) : Avail h size := by
  refine ⟨some_, 0, ⟨⟨.first, free, ?_⟩, fun y _ => Nat.zero_le y⟩, by lia⟩
  unfold sizeofStructMem
  lia

theorem avail_behind (used : (h.mem 0).used = true ∧ (h.mem 0).next = 64)
    (free : (h.mem 64).used = false ∧ (h.mem 64).next = 288) (region : h.heapEnd = 288 ∧ h.memSizeAligned = 276)
    (some_ : 0 < size) (fits : 64 + blockSize size < 276) : Avail h size := by
  have only : ∀ y, Block h y → y = 0 ∨ y = 64 := by
    intro y block
    induction block with
    | first => exact Or.inl rfl
    | next _ inside ih =>
      rcases ih with rfl | rfl
      · exact Or.inr used.2
      · rw [free.2, region.1] at inside
        exact absurd inside (Nat.lt_irrefl _)
  have here : Block h 64 := used.2 ▸ Block.next .first (by lia)
  refine ⟨some_, 64, ⟨⟨here, free.1, ?_⟩, ?_⟩, by lia⟩
  · unfold sizeofStructMem
    lia
  · rintro y ⟨block, unused, _⟩
    rcases only y block with rfl | rfl
    · rw [used.1] at unused
      cases unused
    · exact Nat.le_refl _

/-- New heaps of 276 and of 352 bytes serve requests for nearly all of the memory there is. -/
theorem sizes_wrap : ∃ s m, Run MemCalls.machine [] s ∧ Run MemHeap.AnySize.machine [] m ∧
    ¬ MallocHolds s.heap 0xffffffff ∧ ¬ CallocHolds s.heap 0x40000001 4 ∧ ¬ MemheapHolds m.heap 0xffffffff ∧
    ¬ AlignHolds s.heap 0xfffffff0 32 ∧ ¬ PoolHolds s.heap 0x20000001 4 := by
  obtain ⟨h, init⟩ := Option.isSome_iff_exists.mp
    (show (rtSystemHeapInit (fun _ => ⟨0, false, 0, 0⟩) (fun _ => 0) 100 400).isSome by decide)
  have run : Run MemCalls.machine [] ⟨h, fun _ => false⟩ :=
    .start ⟨⟨_, _, 100, 400, by decide, by decide, init⟩, fun _ => rfl⟩
  have run' : Run MemHeap.AnySize.machine [] ⟨MemHeap.rtMemheapInit (fun _ => 0) 50 20 100 400, fun _ => none⟩ :=
    .start ⟨⟨_, _, _, _, _, by decide, by decide, by decide, by decide, rfl⟩, fun _ => rfl⟩
  have inv := MemCalls.run_inv run
  have shape : (h.mem 0).used = false ∧ (h.mem 0).next = 288 ∧ h.memSizeAligned = 276 ∧ h.heapPtr = 100 := by
    cases Option.some.inj init
    exact ⟨rfl, rfl, rfl, rfl⟩
  have object : (rtMalloc h sizeofRtMempool).any (fun r : Heap × Nat => decide (r.2 ≠ 0 ∧
      ((r.1.mem 0).used = true ∧ (r.1.mem 0).next = 64) ∧ ((r.1.mem 64).used = false ∧ (r.1.mem 64).next = 288) ∧
      r.1.heapEnd = 288 ∧ r.1.memSizeAligned = 276)) = true := by
    cases Option.some.inj init
    decide +kernel
  obtain ⟨⟨f, mp⟩, created, after⟩ := (Option.any_eq_true _ _).mp object
  obtain ⟨found, used, free, region⟩ := of_decide_eq_true after
  have avail := fun size (some_ : 0 < size) (fits : blockSize size < 276) =>
    avail_new shape.1 shape.2.1 shape.2.2.1 some_ fits
  refine ⟨_, _, run, run', ?_, ?_, ?_, ?_, ?_⟩
  · rw [MallocHolds, malloc_large inv (show 0xffffffff = 0xffffffff % 2 ^ 32 by decide)]
    exact fun fits => fits.elim (by decide) (fun none => none (avail _ (by decide) (by decide)))
  · rw [CallocHolds, calloc_large inv]
    exact fun fits => fits.elim (by decide) (fun none => none (avail _ (by decide) (by decide)))
  · rw [MemheapHolds, MemHeap.AnySize.alloc_large (MemHeap.AnySize.run_inv run') (by decide)]
    exact fun fits => fits.elim (by decide) (fun none => none ⟨by decide, _, .first (by decide), by decide⟩)
  · intro holds
    rcases alignFits_of_holds inv (show 32 ≤ h.heapPtr by lia) holds with ⟨_, sum⟩ | none | ⟨x, lowest, zero⟩
    · exact absurd sum (by decide)
    · exact none (avail _ (by decide) (by decide))
    · have first := lowest.2 0 ⟨.first, shape.1, by rw [shape.2.1]; decide⟩
      rw [Nat.le_zero.mp first, userPtr, shape.2.2.2] at zero
      exact absurd zero (by decide)
  · rw [poolHolds_iff inv]
    rintro (zero | ⟨_, product⟩ | none)
    · exact absurd zero (by decide)
    · exact absurd product (by decide)
    · exact none f mp created found (avail_behind used free region (by decide) (by decide))

end RtThread.AllocSizes

import RtThread.AllocSizes
import RtThread.Bytes

/-! rt_malloc_align and rt_free_align over any rt_malloc, with the hidden pointer in memory. -/
namespace RtThread.AlignedAlloc
open Bytes

abbrev Addr := BitVec 32

/-- `(n + uintptr_size) & ~uintptr_size`. -/
def roundUp (n : BitVec 32) : BitVec 32 := (n + 3) &&& ~~~ 3

def alignSize (size align : BitVec 32) : BitVec 32 := roundUp size + roundUp align

def alignPtr (ptr : Addr) (align : BitVec 32) : Addr :=
  if ptr &&& (align - 1) = 0 then ptr + align else (ptr + (align - 1)) &&& ~~~ (align - 1)

/-- rt_malloc is any function of the memory and the size. -/
def rtMallocAlign (rtMalloc : Memory 32 → BitVec 32 → Addr × Memory 32) (m : Memory 32)
    (size align : BitVec 32) : Addr × Memory 32 :=
  let block := rtMalloc m (alignSize size align)
  if block.1 ≠ 0 then
    let p := alignPtr block.1 (roundUp align)
    (p, write block.2 (p - 4) (toBytes 4 block.1))
  else block

/-- What rt_free_align passes to rt_free. -/
def rtFreeAlign (m : Memory 32) (ptr : Addr) : Addr := ofBytes 32 (read m (ptr - 4) 4)

def Inside (a : Addr) (n : Nat) (b : Addr) (k : Nat) : Prop :=
  ∀ i < k, (b + BitVec.ofNat 32 i - a).toNat < n

section Align
variable {ptr : Addr} {k : Nat}

theorem roundUp_toNat {n : BitVec 32} (fits : n.toNat + 3 < 2 ^ 32) : (roundUp n).toNat = (n.toNat + 3) / 4 * 4 := by
  have parts := AllocSizes.and_not_toNat (n + 3) 3
  have mask : ((n + 3) &&& 3).toNat = (n + 3).toNat % 4 := by
    rw [BitVec.toNat_and]
    exact Nat.and_two_pow_sub_one_eq_mod (n + 3).toNat 2
  have sum : (n + 3).toNat = n.toNat + 3 := by
    rw [BitVec.toNat_add]
    exact Nat.mod_eq_of_lt fits
  rw [roundUp]
  lia

theorem roundUp_twoPow (small : k < 32) : roundUp (BitVec.twoPow 32 k) = BitVec.twoPow 32 (max k 2) := by
  have all : ∀ j : Fin 32, roundUp (BitVec.twoPow 32 j.val) = BitVec.twoPow 32 (max j.val 2) := by decide
  exact all ⟨k, small⟩

theorem twoPow_sub_one (small : k < 32) : (BitVec.twoPow 32 k - 1).toNat = 2 ^ k - 1 := by
  have low : 2 ^ k < 2 ^ 32 := Nat.pow_lt_pow_right (by decide) small
  have value : (BitVec.twoPow 32 k).toNat = 2 ^ k := BitVec.toNat_twoPow_of_lt small
  have some : (1 : BitVec 32) ≤ BitVec.twoPow 32 k := by
    have positive := Nat.two_pow_pos k
    rw [BitVec.le_def, value]
    exact positive
  rw [BitVec.toNat_sub_of_le some, value]
  rfl

theorem mask_toNat (small : k < 32) (x : BitVec 32) :
    (x &&& (BitVec.twoPow 32 k - 1)).toNat = x.toNat % 2 ^ k := by
  rw [BitVec.toNat_and, twoPow_sub_one small, Nat.and_two_pow_sub_one_eq_mod]

theorem alignPtr_gap (word : 2 ≤ k) (small : k < 32) (aligned : ptr.toNat % 4 = 0) :
    ∃ gap, 4 ≤ gap ∧ gap ≤ 2 ^ k ∧ alignPtr ptr (BitVec.twoPow 32 k) = ptr + BitVec.ofNat 32 gap ∧
      (alignPtr ptr (BitVec.twoPow 32 k)).toNat % 2 ^ k = 0 := by
  have four : 4 ∣ 2 ^ k := Nat.pow_dvd_pow 2 word
  have whole : 2 ^ k ∣ 2 ^ 32 := Nat.pow_dvd_pow 2 (Nat.le_of_lt small)
  have positive := Nat.two_pow_pos k
  have value : (BitVec.twoPow 32 k).toNat = 2 ^ k := BitVec.toNat_twoPow_of_lt small
  by_cases on : ptr &&& (BitVec.twoPow 32 k - 1) = 0
  · have rest : ptr.toNat % 2 ^ k = 0 := by
      rw [← mask_toNat small, on]
      rfl
    have place : alignPtr ptr (BitVec.twoPow 32 k) = ptr + BitVec.twoPow 32 k := if_pos on
    refine ⟨2 ^ k, Nat.le_of_dvd positive four, le_rfl, ?_, ?_⟩
    · rw [place, ← value, BitVec.ofNat_toNat, BitVec.setWidth_eq]
    · rw [place, BitVec.toNat_add, value, Nat.mod_mod_of_dvd _ whole, Nat.add_mod_right, rest]
  · have rest : ptr.toNat % 2 ^ k ≠ 0 := by
      intro none
      exact on (BitVec.eq_of_toNat_eq (by rw [mask_toNat small, none]; rfl))
    have below : ptr.toNat % 2 ^ k < 2 ^ k := Nat.mod_lt _ positive
    have fourth : ptr.toNat % 2 ^ k % 4 = 0 := by rw [Nat.mod_mod_of_dvd _ four, aligned]
    have place : alignPtr ptr (BitVec.twoPow 32 k) =
        (ptr + (BitVec.twoPow 32 k - 1)) &&& ~~~ (BitVec.twoPow 32 k - 1) := if_neg on
    have parts := AllocSizes.and_not_toNat (ptr + (BitVec.twoPow 32 k - 1)) (BitVec.twoPow 32 k - 1)
    have total : (ptr + (BitVec.twoPow 32 k - 1)).toNat = (ptr.toNat + (2 ^ k - 1)) % 2 ^ 32 := by
      rw [BitVec.toNat_add, twoPow_sub_one small]
    have last : (ptr + (BitVec.twoPow 32 k - 1)).toNat % 2 ^ k = ptr.toNat % 2 ^ k - 1 := by
      have split := Nat.div_add_mod ptr.toNat (2 ^ k)
      rw [total, Nat.mod_mod_of_dvd _ whole,
        show ptr.toNat + (2 ^ k - 1) = ptr.toNat % 2 ^ k - 1 + 2 ^ k * (ptr.toNat / 2 ^ k + 1) by
          rw [Nat.mul_add]; lia,
        Nat.add_mul_mod_self_left, Nat.mod_eq_of_lt (by lia)]
    rw [mask_toNat small, last, ← place] at parts
    have bound := (alignPtr ptr (BitVec.twoPow 32 k)).isLt
    have low : 2 ^ k < 2 ^ 32 := Nat.pow_lt_pow_right (by decide) small
    refine ⟨2 ^ k - ptr.toNat % 2 ^ k, ?_, Nat.sub_le _ _, BitVec.eq_of_toNat_eq ?_, ?_⟩
    · obtain ⟨q, power⟩ := four
      lia
    · rw [BitVec.toNat_add, BitVec.toNat_ofNat]
      lia
    · have base : (alignPtr ptr (BitVec.twoPow 32 k)).toNat =
          (ptr + (BitVec.twoPow 32 k - 1)).toNat - (ptr + (BitVec.twoPow 32 k - 1)).toNat % 2 ^ k := by lia
      rw [base]
      exact Nat.sub_mod_eq_zero_of_mod_eq (Nat.mod_mod _ _).symm

end Align

section Blocks
variable {ptr p : Addr} {size gap n : Nat}

theorem offset_toNat (i : Nat) (small : gap + i < 2 ^ 32) :
    (ptr + BitVec.ofNat 32 gap + BitVec.ofNat 32 i - ptr).toNat = gap + i := by
  rw [BitVec.add_assoc, ← BitVec.ofNat_add, BitVec.add_comm, BitVec.add_sub_cancel, BitVec.toNat_ofNat,
    Nat.mod_eq_of_lt small]

theorem inside_of_gap (room : gap + size ≤ n) (small : n < 2 ^ 32) :
    Inside ptr n (ptr + BitVec.ofNat 32 gap) size := by
  intro i within
  rw [offset_toNat i (by lia)]
  lia

theorem hidden_gap (room : 4 ≤ gap) :
    ptr + BitVec.ofNat 32 gap - 4 = ptr + BitVec.ofNat 32 (gap - 4) := by
  have split : gap = gap - 4 + 4 := by lia
  conv_lhs => rw [split, BitVec.ofNat_add, ← BitVec.add_assoc]
  exact BitVec.add_sub_cancel _ 4

theorem hidden_apart (room : size + 4 ≤ 2 ^ 32) : Apart (p - 4) 4 p size := by
  intro i within
  have back : p - 4 + BitVec.ofNat 32 4 = p := BitVec.sub_add_cancel p 4
  have place := @offset_toNat (p - 4) 4 i (by lia)
  rw [back] at place
  rw [place]
  exact Nat.le_add_right 4 i

theorem hidden_before (i : Nat) (within : i < 4) : (p - 4 + BitVec.ofNat 32 i - p).toNat = 2 ^ 32 - 4 + i := by
  bv_omega

theorem rtFreeAlign_written {m m' : Memory 32}
    (kept : ∀ i < 4, m' (p - 4 + BitVec.ofNat 32 i) = write m (p - 4) (toBytes 4 ptr) (p - 4 + BitVec.ofNat 32 i)) :
    rtFreeAlign m' p = ptr := by
  have same : read m' (p - 4) 4 = read (write m (p - 4) (toBytes 4 ptr)) (p - 4) 4 :=
    List.map_congr_left fun i member => kept i (List.mem_range.mp member)
  have stored := @read_write 32 (toBytes 4 ptr) (by simp) m (p - 4)
  rw [length_toBytes] at stored
  rw [rtFreeAlign, same, stored, ofBytes_toBytes (by decide)]

end Blocks

/-- `p` serves a call for `size` and `align` from the block of `n` bytes at `ptr`. A memory in which
no byte of the block has changed but those of the caller gives the block back. -/
structure Placed (ptr : Addr) (n : Nat) (size align : BitVec 32) (p : Addr) (m : Memory 32) : Prop where
  multiple : p.toNat % align.toNat = 0
  data : Inside ptr n p size.toNat
  hidden : Inside ptr n (p - 4) 4
  apart : Apart (p - 4) 4 p size.toNat
  freed : ∀ m' : Memory 32, (∀ x, (x - ptr).toNat < n → size.toNat ≤ (x - p).toNat → m' x = m x) →
    rtFreeAlign m' p = ptr

section Calls
variable (rtMalloc : Memory 32 → BitVec 32 → Addr × Memory 32) (m : Memory 32) (size align : BitVec 32)

theorem rtMallocAlign_served (got : (rtMalloc m (alignSize size align)).1 ≠ 0) :
    rtMallocAlign rtMalloc m size align =
      (alignPtr (rtMalloc m (alignSize size align)).1 (roundUp align),
        write (rtMalloc m (alignSize size align)).2
          (alignPtr (rtMalloc m (alignSize size align)).1 (roundUp align) - 4)
          (toBytes 4 (rtMalloc m (alignSize size align)).1)) :=
  if_pos got

theorem max_twoPow (k : Nat) : 2 ^ max k 2 = max (2 ^ k) (2 ^ 2) := by
  rcases Nat.le_total k 2 with low | high
  · rw [Nat.max_eq_right low, Nat.max_eq_right (Nat.pow_le_pow_right Nat.two_pos low)]
  · rw [Nat.max_eq_left high, Nat.max_eq_left (Nat.pow_le_pow_right Nat.two_pos high)]

theorem alignSize_toNat {k : Nat} (small : k < 32)
    (fits : (size.toNat + 3) / 4 * 4 + max (2 ^ k) 4 < 2 ^ 32) :
    (alignSize size (BitVec.twoPow 32 k)).toNat = (size.toNat + 3) / 4 * 4 + 2 ^ max k 2 := by
  have first := roundUp_toNat (n := size) (by lia)
  have second : (roundUp (BitVec.twoPow 32 k)).toNat = 2 ^ max k 2 := by
    rw [roundUp_twoPow small, BitVec.toNat_twoPow_of_lt (by lia)]
  rw [alignSize, BitVec.toNat_add, first, second, Nat.mod_eq_of_lt (by rw [max_twoPow]; exact fits)]

/-- The aligned address, the hidden word and the way back, for every alignment that is a power of two. -/
theorem rtMallocAlign_placed {k : Nat} (power : align.toNat = 2 ^ k)
    (fits : (size.toNat + 3) / 4 * 4 + max (2 ^ k) 4 < 2 ^ 32)
    (got : (rtMalloc m (alignSize size align)).1 ≠ 0)
    (aligned : (rtMalloc m (alignSize size align)).1.toNat % 4 = 0) :
    Placed (rtMalloc m (alignSize size align)).1 (alignSize size align).toNat size align
      (rtMallocAlign rtMalloc m size align).1 (rtMallocAlign rtMalloc m size align).2 := by
  have small : k < 32 := (Nat.pow_lt_pow_iff_right (by decide)).mp (power ▸ align.isLt)
  obtain rfl : align = BitVec.twoPow 32 k :=
    BitVec.eq_of_toNat_eq (by rw [power, BitVec.toNat_twoPow_of_lt small])
  have total := alignSize_toNat size small fits
  have total_fits := (alignSize size (BitVec.twoPow 32 k)).isLt
  have whole : size.toNat ≤ (size.toNat + 3) / 4 * 4 := by lia
  rw [rtMallocAlign_served rtMalloc m size _ got, roundUp_twoPow small]
  generalize (rtMalloc m (alignSize size (BitVec.twoPow 32 k))).1 = ptr at aligned ⊢
  obtain ⟨gap, room, short, place, multiple⟩ := alignPtr_gap (Nat.le_max_right k 2) (by lia) aligned
  have data : Inside ptr (alignSize size (BitVec.twoPow 32 k)).toNat
      (ptr + BitVec.ofNat 32 gap) size.toNat := inside_of_gap (by lia) total_fits
  have hidden : Inside ptr (alignSize size (BitVec.twoPow 32 k)).toNat
      (ptr + BitVec.ofNat 32 (gap - 4)) 4 := inside_of_gap (by lia) total_fits
  rw [← hidden_gap room] at hidden
  rw [← place] at data hidden
  refine ⟨?_, data, hidden, hidden_apart (by lia), ?_⟩
  · rw [power]
    exact Nat.mod_eq_zero_of_dvd ((Nat.pow_dvd_pow 2 (Nat.le_max_left k 2)).trans (Nat.dvd_of_mod_eq_zero multiple))
  · intro m' kept
    refine rtFreeAlign_written fun i within => kept _ (hidden i within) ?_
    rw [hidden_before i within]
    lia

end Calls

/-- 10 bytes at a multiple of 64, from a block at 0x20000010. -/
theorem rtMallocAlign_placed_cacheLine :
    Placed 0x20000010 76 10 64 0x20000040
      (rtMallocAlign (fun m _ => (0x20000010, m)) (fun _ => 0) 10 64).2 :=
  @rtMallocAlign_placed (fun m _ => (0x20000010, m)) (fun _ => 0) 10 64 6 (by decide) (by decide) (by decide)
    (by decide)

end RtThread.AlignedAlloc

import RtThread.Bytes

/-! rt_memcpy, without RT_USING_TINY_SIZE, and rt_memmove of kservice.c, on a machine of 32 bits. -/
namespace RtThread.MemCopy
open Bytes

abbrev Addr := BitVec 32

/-- The pointers, the length that is left, and the memory. -/
structure Cursor where
  dst : Addr
  src : Addr
  len : BitVec 32
  mem : Memory 32

/-- `*dst++ = *src++` of a type of `size` bytes. -/
def Cursor.move (size : Nat) (c : Cursor) : Cursor :=
  { c with
    dst := c.dst + BitVec.ofNat 32 size
    src := c.src + BitVec.ofNat 32 size
    mem := write c.mem c.dst (read c.mem c.src size) }

def unaligned (x y : Addr) : Bool := (x &&& 3 ||| y &&& 3) ≠ 0

/-- TOO_SMALL; the comparison is one of unsigned numbers. -/
def tooSmall (len : BitVec 32) : Bool := len < 16

theorem toNat_sub_lt {len size : BitVec 32} (enough : size ≤ len) (some : 0 < size.toNat) :
    (len - size).toNat < len.toNat := by
  have bound : size.toNat ≤ len.toNat := enough
  rw [BitVec.toNat_sub_of_le enough]
  lia

theorem one_le_of_ne_zero {len : BitVec 32} (some : len ≠ 0) : 1 ≤ len := by
  have positive : len.toNat ≠ 0 := fun h => some (BitVec.eq_of_toNat_eq h)
  exact Nat.one_le_iff_ne_zero.mpr positive

/-- The loop over four words. -/
def bigBlocks (c : Cursor) : Cursor :=
  if 16 ≤ c.len then bigBlocks { (((c.move 4).move 4).move 4).move 4 with len := c.len - 16 } else c
termination_by c.len.toNat
decreasing_by exact toNat_sub_lt ‹16 ≤ c.len› (by decide)

def littleBlocks (c : Cursor) : Cursor :=
  if 4 ≤ c.len then littleBlocks { c.move 4 with len := c.len - 4 } else c
termination_by c.len.toNat
decreasing_by exact toNat_sub_lt ‹4 ≤ c.len› (by decide)

/-- `while (len--)` with one byte each time. -/
def bytesUp (c : Cursor) : Cursor :=
  if c.len ≠ 0 then bytesUp { c.move 1 with len := c.len - 1 } else c
termination_by c.len.toNat
decreasing_by exact toNat_sub_lt (one_le_of_ne_zero ‹c.len ≠ 0›) (by decide)

/-- The loop of rt_memmove from the end, `*(--tmp) = *(--s)`. -/
def bytesDown (c : Cursor) : Cursor :=
  if c.len ≠ 0 then
    bytesDown
      { dst := c.dst - 1
        src := c.src - 1
        len := c.len - 1
        mem := write c.mem (c.dst - 1) (read c.mem (c.src - 1) 1) }
  else c
termination_by c.len.toNat
decreasing_by exact toNat_sub_lt (one_le_of_ne_zero ‹c.len ≠ 0›) (by decide)

def rtMemcpy (dst src : Addr) (count : BitVec 32) (m : Memory 32) : Addr × Memory 32 :=
  let c : Cursor := ⟨dst, src, count, m⟩
  let rest := if !tooSmall count && !unaligned src dst then littleBlocks (bigBlocks c) else c
  (dst, (bytesUp rest).mem)

def rtMemmove (dest src : Addr) (n : BitVec 32) (m : Memory 32) : Addr × Memory 32 :=
  if src < dest ∧ dest < src + n then (dest, (bytesDown ⟨dest + n, src + n, n, m⟩).mem)
  else (dest, (bytesUp ⟨dest, src, n, m⟩).mem)

/-- `count` bytes at `dst` are those that were at `src`, and no other byte has changed. -/
def CopyOf (m m' : Memory 32) (dst src : Addr) (count : Nat) : Prop :=
  (∀ i < count, m' (dst + BitVec.ofNat 32 i) = m (src + BitVec.ofNat 32 i)) ∧
    ∀ x, (∀ i < count, x ≠ dst + BitVec.ofNat 32 i) → m' x = m x

theorem copied_copyOf {m : Memory 32} {dst src : Addr} {count : Nat} (small : count < 2 ^ 32) :
    CopyOf m (copied m dst src 0 count) dst src count := by
  constructor
  · intro i inside
    have offset : dst + BitVec.ofNat 32 i - dst = BitVec.ofNat 32 i := by
      rw [BitVec.add_comm, BitVec.add_sub_cancel]
    have place : (BitVec.ofNat 32 i).toNat = i := by
      rw [BitVec.toNat_ofNat, Nat.mod_eq_of_lt (by lia)]
    rw [copied, offset, place, if_pos ⟨Nat.zero_le i, inside⟩]
  · intro x outside
    refine if_neg fun within => outside _ within.2 ?_
    rw [BitVec.ofNat_toNat, BitVec.setWidth_eq, BitVec.add_comm, BitVec.sub_add_cancel]

section Loops
variable {m : Memory 32} {dst src : Addr} {count k : Nat} {c : Cursor}

/-- A byte is not written before it is read when the copying starts from the first. -/
def Ascending (dst src : Addr) (count : Nat) : Prop :=
  ∀ d : BitVec 32, d.toNat < count → d.toNat ≤ (src + d - dst).toNat

/-- The same when it starts from the last. -/
def Descending (dst src : Addr) (count : Nat) : Prop :=
  ∀ d : BitVec 32, d.toNat < count → (src + d - dst).toNat ≤ d.toNat ∨ count ≤ (src + d - dst).toNat

/-- The pointers stand at the byte `k`, and those before it are copied. -/
structure Reached (m : Memory 32) (dst src : Addr) (k : Nat) (c : Cursor) : Prop where
  dst_at : c.dst = dst + BitVec.ofNat 32 k
  src_at : c.src = src + BitVec.ofNat 32 k
  mem_copied : c.mem = copied m dst src 0 k

theorem Reached.move (size : Nat) (reached : Reached m dst src k c) (order : Ascending dst src count)
    (inside : k + size ≤ count) (fits : count ≤ 2 ^ 32) : Reached m dst src (k + size) (c.move size) := by
  refine ⟨?_, ?_, ?_⟩
  · rw [Cursor.move, reached.dst_at, BitVec.add_assoc, BitVec.ofNat_add]
  · rw [Cursor.move, reached.src_at, BitVec.add_assoc, BitVec.ofNat_add]
  · have unread : ∀ d : BitVec 32, k ≤ d.toNat → d.toNat < k + size →
        ¬ (0 ≤ (src + d - dst).toNat ∧ (src + d - dst).toNat < k) := by
      intro d from_k before
      have behind := order d (by lia)
      lia
    rw [Cursor.move, reached.dst_at, reached.src_at, reached.mem_copied, write_read _ _ _ (by lia),
      copied_append _ _ _ (Nat.zero_le k) (Nat.le_add_right k size) unread]

theorem Reached.with_len {len : BitVec 32} (reached : Reached m dst src k c) :
    Reached m dst src k { c with len := len } :=
  ⟨reached.dst_at, reached.src_at, reached.mem_copied⟩

theorem bigBlocks_reached (order : Ascending dst src count) (fits : count ≤ 2 ^ 32)
    (reached : Reached m dst src k c) (left : k + c.len.toNat = count) :
    ∃ k', Reached m dst src k' (bigBlocks c) ∧ k' + (bigBlocks c).len.toNat = count := by
  fun_induction bigBlocks c generalizing k with
  | case1 c enough ih =>
    have bound : 16 ≤ c.len.toNat := enough
    have first := reached.move 4 order (by lia) fits
    have second := first.move 4 order (by lia) fits
    have third := second.move 4 order (by lia) fits
    have fourth := third.move 4 order (by lia) fits
    refine ih fourth.with_len ?_
    simp only [BitVec.toNat_sub_of_le enough]
    have sixteen : (16 : BitVec 32).toNat = 16 := rfl
    lia
  | case2 c => exact ⟨k, reached, left⟩

theorem littleBlocks_reached (order : Ascending dst src count) (fits : count ≤ 2 ^ 32)
    (reached : Reached m dst src k c) (left : k + c.len.toNat = count) :
    ∃ k', Reached m dst src k' (littleBlocks c) ∧ k' + (littleBlocks c).len.toNat = count := by
  fun_induction littleBlocks c generalizing k with
  | case1 c enough ih =>
    have bound : 4 ≤ c.len.toNat := enough
    have next := reached.move 4 order (by lia) fits
    refine ih next.with_len ?_
    simp only [BitVec.toNat_sub_of_le enough]
    have four : (4 : BitVec 32).toNat = 4 := rfl
    lia
  | case2 c => exact ⟨k, reached, left⟩

theorem bytesUp_mem (order : Ascending dst src count) (fits : count ≤ 2 ^ 32)
    (reached : Reached m dst src k c) (left : k + c.len.toNat = count) :
    (bytesUp c).mem = copied m dst src 0 count := by
  fun_induction bytesUp c generalizing k with
  | case1 c some ih =>
    have enough := one_le_of_ne_zero some
    have bound : 1 ≤ c.len.toNat := enough
    have next := reached.move 1 order (by lia) fits
    refine ih next.with_len ?_
    simp only [BitVec.toNat_sub_of_le enough]
    have one : (1 : BitVec 32).toNat = 1 := rfl
    lia
  | case2 c none =>
    have empty : c.len = 0 := by simpa using none
    have last : k = count := by
      rw [empty] at left
      exact left
    rw [reached.mem_copied, last]

theorem reached_start (len : BitVec 32) : Reached m dst src 0 ⟨dst, src, len, m⟩ :=
  ⟨(BitVec.add_zero dst).symm, (BitVec.add_zero src).symm, (copied_none m dst src).symm⟩

/-- The pointers stand behind the last of the first `k` bytes, and those from there on are copied. -/
structure Lowered (m : Memory 32) (dst src : Addr) (count k : Nat) (c : Cursor) : Prop where
  dst_at : c.dst = dst + BitVec.ofNat 32 k
  src_at : c.src = src + BitVec.ofNat 32 k
  mem_copied : c.mem = copied m dst src k count

theorem pred_add (x : Addr) (k : Nat) : x + BitVec.ofNat 32 (k + 1) - 1 = x + BitVec.ofNat 32 k := by
  rw [BitVec.ofNat_add, ← BitVec.add_assoc]
  exact BitVec.add_sub_cancel _ 1

theorem bytesDown_mem (order : Descending dst src count) (lowered : Lowered m dst src count k c)
    (left : c.len.toNat = k) (inside : k ≤ count) :
    (bytesDown c).mem = copied m dst src 0 count := by
  fun_induction bytesDown c generalizing k with
  | case1 c some ih =>
    have enough := one_le_of_ne_zero some
    have bound : 1 ≤ c.len.toNat := enough
    obtain ⟨j, rfl⟩ : ∃ j, k = j + 1 := ⟨k - 1, by lia⟩
    have unread : ∀ d : BitVec 32, j ≤ d.toNat → d.toNat < j + 1 →
        ¬ (j + 1 ≤ (src + d - dst).toNat ∧ (src + d - dst).toNat < count) := by
      intro d from_j before
      have apart := order d (by lia)
      lia
    refine @ih j ⟨?_, ?_, ?_⟩ ?_ (by lia)
    · simp only [lowered.dst_at, pred_add]
    · simp only [lowered.src_at, pred_add]
    · simp only [lowered.dst_at, lowered.src_at, lowered.mem_copied, pred_add]
      rw [write_read _ _ _ (by omega), copied_prepend _ _ _ (Nat.le_succ j) inside unread]
    · simp only [BitVec.toNat_sub_of_le enough]
      have one : (1 : BitVec 32).toNat = 1 := rfl
      lia
  | case2 c none =>
    have empty : c.len = 0 := by simpa using none
    have first : k = 0 := by
      rw [← left, empty]
      rfl
    rw [lowered.mem_copied, first]

end Loops

section Calls
variable {dst src : Addr} {count : BitVec 32}

theorem apart_ascending (apart : Apart dst count.toNat src count.toNat) : Ascending dst src count.toNat := by
  intro d inside
  have beyond := apart d.toNat inside
  rw [BitVec.ofNat_toNat, BitVec.setWidth_eq] at beyond
  lia

theorem distance {d : BitVec 32} (src_fits : src.toNat + count.toNat ≤ 2 ^ 32) (inside : d.toNat < count.toNat) :
    (src + d - dst).toNat = if dst.toNat ≤ src.toNat + d.toNat then src.toNat + d.toNat - dst.toNat
      else src.toNat + d.toNat + 2 ^ 32 - dst.toNat := by
  have bound := dst.isLt
  have sum : (src + d).toNat = src.toNat + d.toNat := by
    rw [BitVec.toNat_add, Nat.mod_eq_of_lt (by lia)]
  rw [BitVec.toNat_sub, sum]
  split <;> lia

theorem forward_ascending (src_fits : src.toNat + count.toNat ≤ 2 ^ 32)
    (dst_fits : dst.toNat + count.toNat ≤ 2 ^ 32) (forward : ¬ (src < dst ∧ dst < src + count)) :
    Ascending dst src count.toNat := by
  intro d inside
  rw [distance src_fits inside]
  have place : ¬ (src.toNat < dst.toNat ∧ dst.toNat < (src.toNat + count.toNat) % 2 ^ 32) := by
    rwa [← BitVec.toNat_add]
  split <;> lia

theorem backward_descending (src_fits : src.toNat + count.toNat ≤ 2 ^ 32)
    (dst_fits : dst.toNat + count.toNat ≤ 2 ^ 32) (behind : src < dst) :
    Descending dst src count.toNat := by
  intro d inside
  rw [distance src_fits inside]
  have place : src.toNat < dst.toNat := behind
  split <;> lia

theorem rtMemcpy_copyOf (order : Ascending dst src count.toNat) (m : Memory 32) :
    CopyOf m (rtMemcpy dst src count m).2 dst src count.toNat := by
  have fits := Nat.le_of_lt count.isLt
  have start : Reached m dst src 0 ⟨dst, src, count, m⟩ := reached_start count
  have all : (rtMemcpy dst src count m).2 = copied m dst src 0 count.toNat := by
    rw [rtMemcpy]
    split
    · obtain ⟨k, big, big_left⟩ := bigBlocks_reached order fits start (Nat.zero_add _)
      obtain ⟨l, little, little_left⟩ := littleBlocks_reached order fits big big_left
      exact bytesUp_mem order fits little little_left
    · exact bytesUp_mem order fits start (Nat.zero_add _)
  rw [all]
  exact copied_copyOf count.isLt

theorem rtMemmove_copyOf (src_fits : src.toNat + count.toNat ≤ 2 ^ 32)
    (dst_fits : dst.toNat + count.toNat ≤ 2 ^ 32) (m : Memory 32) :
    CopyOf m (rtMemmove dst src count m).2 dst src count.toNat := by
  have fits := Nat.le_of_lt count.isLt
  have all : (rtMemmove dst src count m).2 = copied m dst src 0 count.toNat := by
    rw [rtMemmove]
    split
    · next behind =>
      have last : Lowered m dst src count.toNat count.toNat ⟨dst + count, src + count, count, m⟩ :=
        ⟨by simp, by simp, (copied_none m dst src).symm⟩
      exact bytesDown_mem (backward_descending src_fits dst_fits behind.1) last rfl (Nat.le_refl _)
    · next forward =>
      exact bytesUp_mem (forward_ascending src_fits dst_fits forward) fits (reached_start count)
        (Nat.zero_add _)
  rw [all]
  exact copied_copyOf count.isLt

end Calls

/-- Both copies do what a copy byte by byte does, for counts that an `int` holds. -/
theorem copies_exact (m : Memory 32) (dst src : Addr) (count : Nat) (small : count < 2 ^ 31)
    (src_fits : src.toNat + count ≤ 2 ^ 32) (dst_fits : dst.toNat + count ≤ 2 ^ 32) :
    (Apart dst count src count → CopyOf m (rtMemcpy dst src (BitVec.ofNat 32 count) m).2 dst src count) ∧
      CopyOf m (rtMemmove dst src (BitVec.ofNat 32 count) m).2 dst src count := by
  obtain ⟨n, rfl⟩ : ∃ n : BitVec 32, count = n.toNat :=
    ⟨BitVec.ofNat 32 count, by rw [BitVec.toNat_ofNat, Nat.mod_eq_of_lt (by lia)]⟩
  rw [BitVec.ofNat_toNat, BitVec.setWidth_eq]
  exact ⟨fun apart => rtMemcpy_copyOf (apart_ascending apart) m, rtMemmove_copyOf src_fits dst_fits m⟩

/-- 23 bytes: four words at once, one word, three bytes. -/
theorem copies_exact_aligned :
    CopyOf (fun a => a.setWidth 8)
        (rtMemcpy 0x20000100 0x20000000 (BitVec.ofNat 32 23) (fun a => a.setWidth 8)).2 0x20000100 0x20000000 23 ∧
      CopyOf (fun a => a.setWidth 8)
        (rtMemmove 0x20000100 0x20000000 (BitVec.ofNat 32 23) (fun a => a.setWidth 8)).2 0x20000100 0x20000000 23 :=
  have both := copies_exact (fun a => a.setWidth 8) 0x20000100 0x20000000 23 (by decide) (by decide) (by decide)
  ⟨both.1 (by unfold Apart; decide), both.2⟩

end RtThread.MemCopy

import RtThread.ExchangeSort
import RtThread.Sfud

/-! The erasers in the parameter table of a flash, and what hardware_init takes from them. -/
namespace RtThread.Sfud
open ExchangeSort

def eraserMax : Nat := 4

/-- The sizes and commands of the basic table, which is `table`, that are not left out. -/
def tableErasers (table : List UInt8) : List Eraser :=
  (List.range eraserMax).filterMap (fun i =>
    if table.getD (28 + 2 * i) 0 ≠ 0 then
      some ⟨2 ^ (table.getD (28 + 2 * i) 0).toNat % 2 ^ 32, table.getD (28 + 2 * i + 1) 0⟩
    else none)

/-- The eraser at the second place is smaller, and the two are exchanged. -/
def exchanged (x y : Eraser) : Bool := x.size ≠ 0 && y.size ≠ 0 && decide (y.size < x.size)

/-- What read_basic_table leaves in the eraser array, which was zero. -/
def readErasers (table : List UInt8) : List Eraser :=
  let filled := tableErasers table
  sort exchanged eraserMax (filled ++ List.replicate (eraserMax - filled.length) ⟨0, 0⟩)

def eraserArray (erasers : List Eraser) (i : Fin 4) : Eraser := erasers.getD i ⟨0, 0⟩

/-- The granularity that hardware_init looks for in the array. -/
def smallestEraser (e : Fin 4 → Eraser) : Eraser :=
  (List.ofFn e).tail.foldl (fun gran x => if x.size ≠ 0 ∧ x.size < gran.size then x else gran)
    ((List.ofFn e).headD ⟨0, 0⟩)

/-- The chip that hardware_init makes of a parameter table. -/
def sfdpFlash (capacity writeGran retryTimes : Nat) (table : List UInt8) : Flash :=
  let e := eraserArray (readErasers table)
  { capacity := capacity
    writeMode := if writeGran = 1 then 2 else wmPage256B
    eraseGran := (smallestEraser e).size
    eraseGranCmd := (smallestEraser e).cmd
    addrIn4Byte := decide (2 ^ 24 < capacity)
    retryTimes := retryTimes
    sfdp := some e }

/-- The table names no size that 32 bits do not hold. -/
def Proper (table : List UInt8) : Prop := ∀ i < eraserMax, table.getD (28 + 2 * i) 0 < 32

section
variable {table : List UInt8} {l : List Eraser}

theorem tableErasers_few : (tableErasers table).length ≤ eraserMax := by
  have few := List.length_filterMap_le (fun i =>
    if table.getD (28 + 2 * i) 0 ≠ 0 then
      some (⟨2 ^ (table.getD (28 + 2 * i) 0).toNat % 2 ^ 32, table.getD (28 + 2 * i + 1) 0⟩ : Eraser)
    else none) (List.range eraserMax)
  rw [List.length_range] at few
  exact few

theorem tableErasers_nonzero (proper : Proper table) : ∀ e ∈ tableErasers table, e.size ≠ 0 := by
  intro e inside
  obtain ⟨i, few, made⟩ := List.mem_filterMap.mp inside
  split at made
  · cases made
    have small : (table.getD (28 + 2 * i) 0).toNat < 32 := proper i (List.mem_range.mp few)
    have held : 2 ^ (table.getD (28 + 2 * i) 0).toNat < 2 ^ 32 := Nat.pow_lt_pow_right (by decide) small
    have some_ := Nat.two_pow_pos (table.getD (28 + 2 * i) 0).toNat
    rw [Nat.mod_eq_of_lt held]
    exact Nat.ne_of_gt some_
  · cases made

theorem exchanged_key (x y : Eraser) (some_ : x.size ≠ 0) (some_' : y.size ≠ 0) :
    exchanged x y = decide (y.size < x.size) := by
  simp [exchanged, some_, some_']

theorem readErasers_sorted (proper : Proper table) : ∃ sorted, sorted.Perm (tableErasers table) ∧
    sorted.Pairwise (fun x y => x.size ≤ y.size) ∧ (∀ e ∈ sorted, e.size ≠ 0) ∧
      readErasers table = sorted ++ List.replicate (eraserMax - sorted.length) ⟨0, 0⟩ := by
  have nonzero := tableErasers_nonzero proper
  refine ⟨sort exchanged eraserMax (tableErasers table), sort_perm, ?_, ?_, ?_⟩
  · exact sort_sorted (P := fun e => e.size ≠ 0) exchanged_key nonzero tableErasers_few
  · exact fun e inside => nonzero e (sort_perm.mem_iff.mp inside)
  · rw [sort_perm.length_eq]
    refine sort_append ?_ tableErasers_few
    intro x z inside
    rw [List.eq_of_mem_replicate inside]
    simp [exchanged]

theorem eraserArray_named (proper : Proper table) {i : Fin 4} (some_ : (eraserArray (readErasers table) i).size ≠ 0) :
    eraserArray (readErasers table) i ∈ tableErasers table := by
  obtain ⟨sorted, same, _, _, whole⟩ := readErasers_sorted proper
  unfold eraserArray at some_ ⊢
  rw [List.getD_eq_getElem?_getD] at some_ ⊢
  cases found : (readErasers table)[i.val]? with
  | none =>
    rw [found] at some_
    exact absurd rfl some_
  | some e =>
    rw [found, Option.getD_some] at some_
    have inside := List.mem_of_getElem? found
    rw [whole, List.mem_append] at inside
    rcases inside with inside | blank
    · exact same.mem_iff.mp inside
    · exact absurd (by rw [List.eq_of_mem_replicate blank]) some_

/-- hardware_init takes the first eraser of the array where no other one is smaller. -/
theorem smallestEraser_first (ordered : ∀ i : Fin 4, (eraserArray l i).size ≠ 0 →
    (eraserArray l 0).size ≤ (eraserArray l i).size) : smallestEraser (eraserArray l) = eraserArray l 0 := by
  have stays (i : Fin 4) : ¬ ((eraserArray l i).size ≠ 0 ∧ (eraserArray l i).size < (eraserArray l 0).size) :=
    fun both => absurd (ordered i both.1) (by omega)
  have array : List.ofFn (eraserArray l) = [eraserArray l 0, eraserArray l 1, eraserArray l 2, eraserArray l 3] :=
    rfl
  simp only [smallestEraser, array, List.tail_cons, List.headD_cons, List.foldl_cons, List.foldl_nil,
    if_neg (stays _)]

/-- A flash that is found by its parameter table has an eraser where the table names one, and its
granularity is that of the smallest. -/
theorem sfdpFlash_gran (proper : Proper table) (some_ : tableErasers table ≠ [])
    (capacity writeGran retryTimes : Nat) :
    let f := sfdpFlash capacity writeGran retryTimes table
    smallest f = f.eraseGran ∧ 0 < smallest f ∧ ⟨f.eraseGran, f.eraseGranCmd⟩ ∈ tableErasers table ∧
      ∀ e ∈ tableErasers table, f.eraseGran ≤ e.size := by
  intro f
  obtain ⟨sorted, same, ordered, nonzero, whole⟩ := readErasers_sorted proper
  obtain ⟨first, rest, rfl⟩ : ∃ first rest, sorted = first :: rest := by
    cases sorted with
    | nil => exact absurd same.symm.eq_nil some_
    | cons first rest => exact ⟨first, rest, rfl⟩
  have front : eraserArray (readErasers table) 0 = first := by
    rw [whole]
    rfl
  have least : ∀ e ∈ tableErasers table, first.size ≤ e.size := by
    intro e inside
    rcases List.mem_cons.mp (same.mem_iff.mpr inside) with rfl | behind
    · exact Nat.le_refl _
    · exact List.rel_of_pairwise_cons ordered behind
  have gran : smallestEraser (eraserArray (readErasers table)) = first := by
    rw [smallestEraser_first, front]
    intro i named
    rw [front]
    exact least _ (eraserArray_named proper named)
  have inside : first ∈ tableErasers table := same.mem_iff.mp List.mem_cons_self
  refine ⟨?_, ?_, ?_, ?_⟩
  · simp only [f, sfdpFlash, smallest, gran, front]
  · simp only [f, sfdpFlash, smallest, front]
    exact Nat.pos_of_ne_zero (nonzero first List.mem_cons_self)
  · simp only [f, sfdpFlash, gran]
    exact inside
  · simp only [f, sfdpFlash, gran]
    exact least

/-- The erasers of a W25Q128, the largest one named first. -/
def w25Table : List UInt8 := List.replicate 28 0 ++ [16, 0xD8, 12, 0x20, 0, 0xFF, 15, 0x52]

theorem sfdpFlash_gran_w25 :
    let f := sfdpFlash 16777216 256 60000 w25Table
    smallest f = f.eraseGran ∧ 0 < smallest f ∧ ⟨f.eraseGran, f.eraseGranCmd⟩ ∈ tableErasers w25Table ∧
      ∀ e ∈ tableErasers w25Table, f.eraseGran ≤ e.size :=
  sfdpFlash_gran (by unfold Proper; decide) (by decide) 16777216 256 60000

/-- A chip that erases as its parameter table says, and takes addresses of three bytes up to 16 MB and of
four beyond. -/
structure Describes (table : List UInt8) (capacity : Nat) (k : NorFlash.Kind) : Prop where
  page : k.page = 256
  addrBytes : k.addrBytes = if 2 ^ 24 < capacity then 4 else 3
  capacity : k.capacity = capacity
  chipErase : k.chipErase = []
  erasers : ∀ e ∈ tableErasers table, k.eraser e.cmd = some e.size

end

end RtThread.Sfud

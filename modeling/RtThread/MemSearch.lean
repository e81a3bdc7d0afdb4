import RtThread.MemCalls

/-! The search loop of rt_malloc, turn by turn, in any region that rt_system_heap_init takes. -/
namespace RtThread.MemCalls
open Transition Tiling
open Mem hiding Repr

/-- The values that `ptr` has in the loop; the condition of the loop fails for the last one, or its
block is taken. -/
def visits (h : Heap) (size : Nat) : Nat → Nat → List Nat
  | fuel, ptr =>
    if ptr < Mem.sub32 h.memSizeAligned size then
      let mem := h.mem ptr
      if mem.used = false ∧ size ≤ Mem.sub32 mem.next (ptr + sizeofStructMem) then [ptr]
      else
        match fuel with
        | 0 => [ptr]
        | fuel + 1 => ptr :: visits h size fuel mem.next
    else [ptr]

/-- The checks in front of the loop let the size pass. -/
def Searched (h : Heap) (size : Nat) : Prop := size ≠ 0 ∧ Mem.rtAlign size ≤ h.memSizeAligned

structure Climbs (h : Heap) (size : Nat) : Prop where
  ends : ∃ fuel r, search h size fuel h.lfree = some r
  increasing : ∀ fuel, (visits h size fuel h.lfree).Pairwise (· < ·)
  inside : ∀ fuel, ∀ x ∈ visits h size fuel h.lfree, x ≤ h.heapEnd

structure Terminates (h : Heap) (size : Nat) : Prop where
  returns : ∃ r, rtMalloc h size = some r
  climbs : Searched h size → Climbs h (blockSize size)

variable {h : Heap} {L R cells : List Cell} {size : Nat} {s : State}

theorem visits_one {x : Nat} (inside : x ≤ h.heapEnd) :
    [x].Pairwise (· < ·) ∧ ∀ y ∈ [x], x ≤ y ∧ y ≤ h.heapEnd := by
  refine ⟨List.pairwise_singleton _ _, fun y here => ?_⟩
  cases List.mem_singleton.mp here
  exact ⟨Nat.le_refl _, inside⟩

/-- By induction on the blocks from `ptr` on. -/
theorem visits_increasing (shape : Shape h (L ++ R)) (fits : size ≤ h.memSizeAligned) (fuel : Nat) :
    (visits h size fuel (total L)).Pairwise (· < ·) ∧
      ∀ x ∈ visits h size fuel (total L), total L ≤ x ∧ x ≤ h.heapEnd := by
  induction R generalizing L fuel with
  | nil =>
    have whole := shape.whole
    have last := shape.last
    have bound := shape.bound
    rw [List.append_nil] at whole
    unfold sizeofStructMem at last bound
    have stops : ¬ total L < Mem.sub32 h.memSizeAligned size := by
      rw [Mem.sub32_eq fits (by lia)]
      lia
    unfold visits
    rw [if_neg stops]
    exact visits_one (by lia)
  | cons c rest ih =>
    have shape' : Shape h (L ++ [c] ++ rest) := by simpa using shape
    obtain ⟨header, large, _, ends⟩ := shape'.header
    have inside : total L ≤ h.heapEnd := by lia
    have next : (h.mem (total L)).next = total (L ++ [c]) := by simp [header, total]
    unfold visits
    split
    · dsimp only
      split
      · exact visits_one inside
      · cases fuel with
        | zero => exact visits_one inside
        | succ fuel =>
          have ahead : total L < total (L ++ [c]) := by
            rw [total_append]
            simp only [total]
            lia
          have later := ih shape' fuel
          rw [next]
          constructor
          · refine List.pairwise_cons.mpr ⟨fun x here => ?_, later.1⟩
            have above := (later.2 x here).1
            lia
          · refine List.forall_mem_cons.mpr ⟨⟨Nat.le_refl _, inside⟩, fun x here => ?_⟩
            have between := later.2 x here
            lia
    · exact visits_one inside

theorem climbs (sound : Sound h cells) (fits : size ≤ h.memSizeAligned) : Climbs h size := by
  obtain ⟨A, B, rfl, start, _⟩ := firstFit_firstFree 0 cells
  have cursor : h.lfree = total A := sound.lowest.trans start.symm
  constructor
  · exact ⟨B.length, _, cursor ▸ search_firstFit sound.toShape fits B.length (Nat.le_refl _)⟩
  · intro fuel
    exact cursor ▸ (visits_increasing sound.toShape fits fuel).1
  · intro fuel x here
    exact ((visits_increasing sound.toShape fits fuel).2 x (cursor ▸ here)).2

theorem tiny_endless (tiny : Tiny s) (fuel : Nat) : search s.heap 12 fuel s.heap.lfree = none := by
  obtain ⟨small, ends, first, ⟨used, next⟩, lowest, _⟩ := tiny
  unfold minSizeAligned at small
  unfold sizeofStructMem at ends
  have bound : s.heap.heapEnd < Mem.sub32 s.heap.memSizeAligned 12 := by
    unfold Mem.sub32
    lia
  have atEnd : ∀ fuel, search s.heap 12 fuel s.heap.heapEnd = none := by
    intro fuel
    induction fuel with
    | zero =>
      unfold search
      rw [if_pos bound]
      simp [used]
    | succ fuel ih =>
      unfold search
      rw [if_pos bound]
      simpa [used, next] using ih
  have tooLarge : ¬ 12 ≤ Mem.sub32 s.heap.heapEnd sizeofStructMem := by
    unfold Mem.sub32 sizeofStructMem
    lia
  have begins : 0 < Mem.sub32 s.heap.memSizeAligned 12 := by lia
  rw [lowest]
  unfold search
  rw [if_pos begins]
  cases fuel with
  | zero => simp [first, tooLarge]
  | succ fuel => simpa [first, tooLarge] using atEnd fuel

theorem tiny_blockSize (tiny : Tiny s) (searched : Searched s.heap size) : blockSize size = 12 := by
  have small := tiny.small
  have fits := searched.2
  unfold blockSize minSizeAligned at *
  split <;> lia

theorem tiny_terminates (tiny : Tiny s) : Terminates s.heap size ↔ ¬ Searched s.heap size := by
  constructor
  · intro terminates searched
    obtain ⟨fuel, r, ended⟩ := (terminates.climbs searched).ends
    rw [tiny_blockSize tiny searched, tiny_endless tiny fuel] at ended
    cases ended
  · intro refused
    refine ⟨⟨(s.heap, 0), ?_⟩, fun searched => absurd searched refused⟩
    unfold rtMalloc
    split
    · rfl
    · rename_i nonzero
      have beyond : s.heap.memSizeAligned < Mem.rtAlign size :=
        Nat.lt_of_not_le (fun fits => refused ⟨nonzero, fits⟩)
      dsimp only
      rw [if_pos beyond]

theorem blockSize_le (room : minSizeAligned ≤ h.memSizeAligned) (searched : Searched h size) :
    blockSize size ≤ h.memSizeAligned := by
  unfold blockSize
  split
  · exact room
  · exact searched.2

theorem malloc_terminates {tr : List Nat} (run : Run machine tr s) (small : size < 2 ^ 32) :
    Terminates s.heap size ↔ ¬ (Searched s.heap size ∧ s.heap.memSizeAligned < minSizeAligned) := by
  rcases run_inv run with tiny | ⟨held, inv, _⟩
  · rw [tiny_terminates tiny, and_iff_left tiny.small]
  · obtain ⟨cells, sound, _⟩ := id inv
    have room : minSizeAligned ≤ s.heap.memSizeAligned := sound.room
    refine iff_of_true ?_ (fun bad => absurd bad.2 (Nat.not_lt.mpr room))
    constructor
    · obtain ⟨h', p, _, result, _⟩ := malloc_keeps inv small
      exact ⟨(h', p), result⟩
    · exact fun searched => climbs sound (blockSize_le room searched)

/-- The heap is one free block of 24 bytes. -/
theorem malloc_terminates_one : ∃ s, Run machine [] s ∧ Terminates s.heap 8 := by
  obtain ⟨h, init⟩ := Option.isSome_iff_exists.mp
    (show (rtSystemHeapInit (fun _ => ⟨0, false, 0, 0⟩) (fun _ => 0) 100 148).isSome by decide)
  have run : Run machine [] ⟨h, fun _ => false⟩ :=
    .start ⟨⟨_, _, 100, 148, by decide, by decide, init⟩, fun _ => rfl⟩
  refine ⟨_, run, (malloc_terminates run (by decide)).mpr ?_⟩
  cases Option.some.inj init
  rintro ⟨_, tiny⟩
  exact absurd tiny (by decide)

/-- A region of 32 bytes is taken, and has 8 of them for blocks: rt_malloc does not come back. -/
theorem malloc_endless : ∃ s, Run machine [] s ∧ s.heap.memSizeAligned = 8 ∧
    (∀ fuel, search s.heap (blockSize 4) fuel s.heap.lfree = none) ∧ ¬ Terminates s.heap 4 := by
  obtain ⟨h, init⟩ := Option.isSome_iff_exists.mp
    (show (rtSystemHeapInit (fun _ => ⟨0, false, 0, 0⟩) (fun _ => 0) 100 132).isSome by decide)
  have start : Start ⟨h, fun _ => false⟩ := ⟨⟨_, _, 100, 132, by decide, by decide, init⟩, fun _ => rfl⟩
  have eight : h.memSizeAligned = 8 := by
    cases Option.some.inj init
    rfl
  have tiny : Tiny ⟨h, fun _ => false⟩ := by
    rcases start_inv start with tiny | ⟨_, ⟨cells, sound, _⟩, _⟩
    · exact tiny
    · have room : 12 ≤ h.memSizeAligned := sound.room
      lia
  have searched : Searched h 4 := ⟨by decide, by rw [eight]; decide⟩
  have endless : ∀ fuel, search h (blockSize 4) fuel h.lfree = none := by
    intro fuel
    rw [tiny_blockSize tiny searched]
    exact tiny_endless tiny fuel
  refine ⟨_, .start start, eight, endless, fun terminates => ?_⟩
  obtain ⟨fuel, r, ended⟩ := (terminates.climbs searched).ends
  rw [endless fuel] at ended
  cases ended

end RtThread.MemCalls

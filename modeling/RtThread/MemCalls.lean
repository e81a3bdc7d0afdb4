import RtThread.Mem

/-! The small memory allocator under calls with any sizes that a rt_size_t holds, also those
that RT_ALIGN and the product of rt_calloc wrap, and in any region that rt_system_heap_init
takes. rt_malloc looks at the free blocks in order, but not at one that it would fill up to
the end of the heap. -/
namespace RtThread.MemCalls
open Transition Tiling
open Mem hiding Repr

def rtMemset (h : Heap) (p : Nat) (value : BitVec 8) (n : Nat) : Heap :=
  { h with data := fun a => if p ≤ a ∧ a < p + n then value else h.data a }

def rtCalloc (h : Heap) (count size : Nat) : Option (Heap × Nat) :=
  (rtMalloc h (count * size % 2 ^ 32)).map (fun r =>
    if r.2 = 0 then r else (rtMemset r.1 r.2 0 (count * size % 2 ^ 32), r.2))

/-- The heap and the pointers that have been returned and not freed. -/
structure State where
  heap : Heap
  live : Nat → Bool

inductive Call where
  | malloc (size : Nat)
  | calloc (count size : Nat)
  | free (rmem : Nat)
  | realloc (rmem newsize : Nat)
  | store (rmem i : Nat) (value : BitVec 8)

def State.owns (s : State) (p : Nat) : Bool := p = 0 || s.live p

def State.allows (s : State) : Call → Bool
  | .malloc size => size < 2 ^ 32
  | .calloc count size => count < 2 ^ 32 && size < 2 ^ 32
  | .free rmem => s.owns rmem
  | .realloc rmem newsize => s.owns rmem && newsize < 2 ^ 32
  | .store rmem i _ => s.live rmem && i < dataSize s.heap rmem

def State.returned (s : State) (r : Heap × Nat) : State × List Nat :=
  (⟨r.1, if r.2 = 0 then s.live else Function.update s.live r.2 true⟩, [r.2])

/-- rt_realloc frees the block if the size is 0 when it is aligned. -/
def State.call (s : State) : Call → Option (State × List Nat)
  | .malloc size => (rtMalloc s.heap size).map s.returned
  | .calloc count size => (rtCalloc s.heap count size).map s.returned
  | .free rmem => (rtFree s.heap rmem).map (fun h => (⟨h, Function.update s.live rmem false⟩, []))
  | .realloc rmem newsize =>
    (rtRealloc s.heap rmem newsize).map (fun r =>
      let freed : State := ⟨s.heap, Function.update s.live rmem false⟩
      if Mem.rtAlign newsize = 0 ∨ r.2 ≠ 0 then freed.returned r else s.returned r)
  | .store rmem i value =>
    some (⟨{ s.heap with data := Function.update s.heap.data (rmem + i) value }, s.live⟩, [])

def step (s : State) (call : Call) : Option (State × List Nat) := if s.allows call then s.call call else none

/-- After rt_system_heap_init of a region that it takes. -/
def Start (s : State) : Prop :=
  (∃ ram data beginAddr endAddr, beginAddr < 2 ^ 32 ∧ endAddr < 2 ^ 32 ∧
    rtSystemHeapInit ram data beginAddr endAddr = some s.heap) ∧ ∀ p, s.live p = false

def machine : Machine State Call Nat where
  start := Start
  step := step

/-- There is a block at `x`. -/
inductive Block (h : Heap) : Nat → Prop where
  | first : Block h 0
  | next {x : Nat} : Block h x → (h.mem x).next < h.heapEnd → Block h (h.mem x).next

/-- A free block with `size` bytes of data or more. -/
def Free (h : Heap) (size x : Nat) : Prop :=
  Block h x ∧ (h.mem x).used = false ∧ x + sizeofStructMem + size ≤ (h.mem x).next

def Lowest (h : Heap) (size x : Nat) : Prop := Free h size x ∧ ∀ y, Free h size y → x ≤ y

/-- The size of the block that rt_malloc looks for. -/
def blockSize (size : Nat) : Nat := if Mem.rtAlign size < minSizeAligned then minSizeAligned else Mem.rtAlign size

/-- A region without room for the smallest block: what is in it is free and stays so. -/
structure Tiny (s : State) : Prop where
  small : s.heap.memSizeAligned < minSizeAligned
  ends : s.heap.heapEnd = s.heap.memSizeAligned + sizeofStructMem
  first : (s.heap.mem 0).next = s.heap.heapEnd
  last : (s.heap.mem s.heap.heapEnd).used = true ∧ (s.heap.mem s.heap.heapEnd).next = s.heap.heapEnd
  lowest : s.heap.lfree = 0
  none : ∀ p, s.live p = false

/-- The heap is sound, and every pointer is that of a block in use. -/
def Pointed (s : State) : Prop :=
  ∃ held : Nat → Option Nat, Mem.Inv ⟨s.heap, held⟩ ∧ ∀ p, s.live p = (held p).isSome

def Inv (s : State) : Prop := Tiny s ∨ Pointed s

variable {h h' : Heap} {L R cells cells' : List Cell} {c : Cell} {x y p size : Nat} {s s' : State}
  {held : Nat → Option Nat}

/-- The block that was found is put in use. -/
structure Allocated (h : Heap) (cells : List Cell) (h' : Heap) (cells' : List Cell) (x size : Nat) : Prop where
  sound : Sound h' cells'
  region : SameRegion h h'
  keeps : Keeps cells cells'
  taken : Taken cells cells' x size

/-- rt_malloc takes the lowest free block that is large enough, or else changes nothing. -/
theorem rtMalloc_cases (sound : Sound h cells) (some_ : 0 < size)
    (fits : Mem.rtAlign size ≤ h.memSizeAligned) :
    (∃ x h' cells', firstFit (blockSize size + sizeofStructMem) cells = some x ∧
      x + blockSize size < h.memSizeAligned ∧ rtMalloc h size = some (h', userPtr h x) ∧
      Allocated h cells h' cells' x (blockSize size)) ∨
    ((∀ x, firstFit (blockSize size + sizeofStructMem) cells = some x →
      h.memSizeAligned ≤ x + blockSize size) ∧ rtMalloc h size = some (h, 0)) := by
  rcases rtMalloc_firstFit sound some_ fits rfl with
    ⟨x, h', cells', found, low, result, sound', same, keeps, taken⟩ | missed
  · exact Or.inl ⟨x, h', cells', found, low, result, sound', same, keeps, taken⟩
  · exact Or.inr missed

theorem Sound.setData (sound : Sound h cells) (data : Nat → BitVec 8) : Sound { h with data := data } cells :=
  ⟨⟨⟨sound.laid, sound.whole, sound.last, sound.stop, sound.counted, sound.aligned, sound.bound, sound.room⟩,
    sound.lowest⟩, sound.apart⟩

theorem setData_inv (inv : Mem.Inv ⟨h, held⟩) (data : Nat → BitVec 8) : Mem.Inv ⟨{ h with data := data }, held⟩ := by
  obtain ⟨cells, sound, owned⟩ := inv
  exact ⟨cells, Sound.setData sound data, owned⟩

theorem rtMalloc_wrapped (room : minSizeAligned ≤ h.memSizeAligned) (some_ : 0 < size) (wraps : Mem.rtAlign size = 0) :
    rtMalloc h size = rtMalloc h 1 := by
  have nonzero : ¬ size = 0 := by lia
  have one : Mem.rtAlign 1 = 4 := rfl
  unfold minSizeAligned at room
  have fits : ¬ h.memSizeAligned < 4 := by lia
  unfold rtMalloc minSizeAligned
  simp [nonzero, wraps, one, fits]

theorem malloc_keeps (inv : Mem.Inv ⟨h, held⟩) (small : size < 2 ^ 32) :
    ∃ h' p n, rtMalloc h size = some (h', p) ∧
      Mem.Inv ⟨h', if p = 0 then held else Function.update held p (some n)⟩ := by
  obtain ⟨cells, sound, owned⟩ := id inv
  have room : minSizeAligned ≤ h.memSizeAligned := sound.room
  by_cases wraps : Mem.rtAlign size = 0 ∧ 0 < size
  · have space : 1 ≤ h.memSizeAligned := by
      unfold minSizeAligned at room
      lia
    obtain ⟨h', p, result, _, inv'⟩ := malloc_inv inv space
    exact ⟨h', p, 1, by rw [rtMalloc_wrapped room wraps.2 wraps.1, result], inv' 1 (Nat.le_refl 1)⟩
  · by_cases fits : size ≤ h.memSizeAligned
    · obtain ⟨h', p, result, _, inv'⟩ := malloc_inv inv fits
      exact ⟨h', p, size, result, inv' size (Nat.le_refl size)⟩
    · refine ⟨h, 0, 0, ?_, by simpa using inv⟩
      have beyond : h.memSizeAligned < Mem.rtAlign size := by
        unfold Mem.rtAlign at *
        lia
      have nonzero : ¬ size = 0 := by lia
      simp [rtMalloc, nonzero, beyond]

theorem calloc_keeps (inv : Mem.Inv ⟨h, held⟩) (count size : Nat) :
    ∃ h' p n, rtCalloc h count size = some (h', p) ∧
      Mem.Inv ⟨h', if p = 0 then held else Function.update held p (some n)⟩ := by
  obtain ⟨h', p, n, result, inv'⟩ := malloc_keeps inv
    (show count * size % 2 ^ 32 < 2 ^ 32 from Nat.mod_lt _ (by decide))
  by_cases null : p = 0
  · refine ⟨h', p, n, ?_, inv'⟩
    rw [rtCalloc, result]
    simp [null]
  · refine ⟨rtMemset h' p 0 (count * size % 2 ^ 32), p, n, ?_, setData_inv inv' _⟩
    rw [rtCalloc, result]
    simp [null]

theorem returned_inv {r : Heap × Nat} {n : Nat} (live : ∀ p, s.live p = (held p).isSome)
    (inv : Mem.Inv ⟨r.1, if r.2 = 0 then held else Function.update held r.2 (some n)⟩) :
    Pointed (s.returned r).1 := by
  refine ⟨_, inv, ?_⟩
  intro p
  simp only [State.returned]
  split
  · exact live p
  · by_cases here : p = r.2
    · rw [here, Function.update_self, Function.update_self]
      rfl
    · rw [Function.update_of_ne here, Function.update_of_ne here]
      exact live p

theorem freed_live (live : ∀ p, s.live p = (held p).isSome) (rmem : Nat) :
    ∀ p, Function.update s.live rmem false p = (Function.update held rmem none p).isSome := by
  intro p
  by_cases here : p = rmem
  · rw [here, Function.update_self, Function.update_self]
    rfl
  · rw [Function.update_of_ne here, Function.update_of_ne here]
    exact live p

theorem owns_held {rmem : Nat} (live : ∀ p, s.live p = (held p).isSome) (owns : s.owns rmem = true) :
    System.owns ⟨s.heap, held⟩ rmem = true := by
  rw [State.owns, live] at owns
  exact owns

theorem rtAlign_le (small : size < 2 ^ 32) (some_ : Mem.rtAlign size ≠ 0) :
    size ≤ Mem.rtAlign size ∧ size + 3 < 2 ^ 32 := by
  unfold Mem.rtAlign at *
  lia

theorem realloc_keeps {rmem n : Nat} (inv : Mem.Inv ⟨s.heap, held⟩) (live : ∀ p, s.live p = (held p).isSome)
    (owns : s.owns rmem = true) (small : n < 2 ^ 32) :
    ∃ r, rtRealloc s.heap rmem n = some r ∧ Pointed (if Mem.rtAlign n = 0 ∨ r.2 ≠ 0 then
      (State.mk s.heap (Function.update s.live rmem false)).returned r else s.returned r).1 := by
  have held' := owns_held live owns
  have freed := freed_live live rmem
  by_cases zero : Mem.rtAlign n = 0
  · obtain ⟨h', result, inv'⟩ := free_inv inv held'
    refine ⟨(h', 0), by simp [rtRealloc, zero, result], ?_⟩
    rw [if_pos (Or.inl zero)]
    exact returned_inv (s := ⟨s.heap, _⟩) freed (n := 0) (by simpa using inv')
  · obtain ⟨least, _⟩ := rtAlign_le small zero
    have nonzero : n ≠ 0 := by
      rintro rfl
      exact zero rfl
    by_cases fits : n ≤ s.heap.memSizeAligned
    · obtain ⟨h', p, result, _, inv'⟩ := realloc_inv inv held' fits
      refine ⟨(h', p), result, ?_⟩
      rw [if_neg nonzero] at inv'
      by_cases null : p = 0
      · rw [if_neg (by simp [zero, null])]
        exact returned_inv live (n := 0) (by simpa [null] using inv')
      · rw [if_pos (Or.inr null)]
        refine returned_inv (s := ⟨s.heap, _⟩) freed (n := n) ?_
        rwa [if_neg null] at inv' ⊢
    · refine ⟨(s.heap, 0), ?_, ?_⟩
      · have beyond : s.heap.memSizeAligned < Mem.rtAlign n := by lia
        simp [rtRealloc, beyond]
      · rw [if_neg (by simp [zero])]
        exact returned_inv live (n := 0) (by simpa using inv)

theorem pointed_step {call : Call} (pointed : Pointed s) (allowed : s.allows call = true) :
    ∃ s' es, s.call call = some (s', es) ∧ Pointed s' := by
  obtain ⟨held, inv, live⟩ := pointed
  cases call with
  | malloc size =>
    obtain ⟨h', p, n, result, inv'⟩ := malloc_keeps inv
      (show size < 2 ^ 32 by simpa [State.allows] using allowed)
    exact ⟨_, _, by simp only [State.call, result]; rfl, returned_inv live inv'⟩
  | calloc count size =>
    obtain ⟨h', p, n, result, inv'⟩ := calloc_keeps inv count size
    exact ⟨_, _, by simp only [State.call, result]; rfl, returned_inv live inv'⟩
  | free rmem =>
    obtain ⟨h', result, inv'⟩ := free_inv inv (owns_held live allowed)
    exact ⟨_, _, by simp only [State.call, result]; rfl, _, inv', freed_live live rmem⟩
  | realloc rmem newsize =>
    simp only [State.allows, Bool.and_eq_true, decide_eq_true_eq] at allowed
    obtain ⟨r, result, pointed'⟩ := realloc_keeps inv live allowed.1 allowed.2
    exact ⟨_, _, by simp only [State.call, result]; rfl, pointed'⟩
  | store rmem i value => exact ⟨_, _, rfl, held, setData_inv inv _, live⟩

/-- In a tiny region the search ends only if it is not begun. -/
theorem tiny_malloc (tiny : Tiny s) {r : Heap × Nat} (result : rtMalloc s.heap size = some r) : r = (s.heap, 0) := by
  obtain ⟨small, ends, first, ⟨used, next⟩, lowest, _⟩ := tiny
  unfold minSizeAligned at small
  unfold sizeofStructMem at ends
  have atEnd : ∀ fuel, search s.heap 12 fuel s.heap.heapEnd = none ∨
      search s.heap 12 fuel s.heap.heapEnd = some none := by
    intro fuel
    induction fuel with
    | zero =>
      unfold search
      split <;> simp [used]
    | succ fuel ih =>
      unfold search
      split
      · simpa [used, next] using ih
      · exact Or.inr rfl
  have tooLarge : ¬ 12 ≤ Mem.sub32 s.heap.heapEnd sizeofStructMem := by
    unfold Mem.sub32 sizeofStructMem
    lia
  simp only [rtMalloc] at result
  split at result
  · exact (Option.some.inj result).symm
  split at result
  · exact (Option.some.inj result).symm
  · rename_i fits
    have least : (if Mem.rtAlign size < minSizeAligned then minSizeAligned else Mem.rtAlign size) = 12 := by
      unfold minSizeAligned
      split <;> lia
    have searched : search s.heap 12 (s.heap.heapEnd + 1) 0 = none ∨
        search s.heap 12 (s.heap.heapEnd + 1) 0 = some none := by
      unfold search
      split
      · simpa [first, tooLarge] using atEnd s.heap.heapEnd
      · exact Or.inr rfl
    simp only [least, lowest] at result
    rcases searched with ended | ended <;> rw [ended] at result
    · cases result
    · exact (Option.some.inj result).symm

theorem returned_null (s : State) : s.returned (s.heap, 0) = (s, [0]) := rfl

theorem tiny_dropped (tiny : Tiny s) : State.mk s.heap (Function.update s.live 0 false) = s := by
  have unheld := tiny.none 0
  rw [← unheld, Function.update_eq_self]

theorem tiny_owns {rmem : Nat} (tiny : Tiny s) (owns : s.owns rmem = true) : rmem = 0 := by
  simpa [State.owns, tiny.none rmem] using owns

theorem tiny_step {call : Call} {es : List Nat} (tiny : Tiny s) (allowed : s.allows call = true)
    (taken : s.call call = some (s', es)) : s' = s := by
  cases call with
  | malloc size =>
    simp only [State.call] at taken
    obtain ⟨r, result, made⟩ := Option.map_eq_some_iff.mp taken
    rw [tiny_malloc tiny result, returned_null] at made
    exact (congrArg Prod.fst made).symm
  | calloc count size =>
    simp only [State.call, rtCalloc] at taken
    obtain ⟨r, result, made⟩ := Option.map_eq_some_iff.mp taken
    obtain ⟨q, result', made'⟩ := Option.map_eq_some_iff.mp result
    rw [tiny_malloc tiny result', if_pos rfl] at made'
    rw [← made', returned_null] at made
    exact (congrArg Prod.fst made).symm
  | free rmem =>
    simp only [State.call] at taken
    obtain ⟨h', result, made⟩ := Option.map_eq_some_iff.mp taken
    rw [tiny_owns tiny allowed] at result made
    cases Option.some.inj (show some s.heap = some h' from result)
    rw [tiny_dropped tiny] at made
    exact (congrArg Prod.fst made).symm
  | realloc rmem newsize =>
    simp only [State.allows, Bool.and_eq_true] at allowed
    simp only [State.call] at taken
    obtain ⟨r, result, made⟩ := Option.map_eq_some_iff.mp taken
    rw [tiny_owns tiny allowed.1] at result made
    have same : r = (s.heap, 0) := by
      simp only [rtRealloc] at result
      split at result
      · exact (Option.some.inj result).symm
      split at result
      · exact (Option.some.inj result).symm
      · rw [if_pos trivial] at result
        exact tiny_malloc tiny result
    simp only [same, tiny_dropped tiny, ite_self] at made
    rw [returned_null] at made
    exact (congrArg Prod.fst made).symm
  | store rmem i value => simp [State.allows, tiny.none rmem] at allowed

theorem start_inv (start : Start s) : Inv s := by
  obtain ⟨⟨ram, data, beginAddr, endAddr, _, high, init⟩, nothing⟩ := start
  by_cases small : s.heap.memSizeAligned < minSizeAligned
  · left
    simp only [rtSystemHeapInit] at init
    split at init
    · have heap := Option.some.inj init
      rw [← heap] at small
      refine ⟨by rw [← heap]; exact small, by rw [← heap], ?_, ?_, by rw [← heap], nothing⟩
      · rw [← heap]
        simp [Function.update_of_ne, sizeofStructMem]
      · rw [← heap]
        simp
    · cases init
  · refine Or.inr ⟨fun _ => none, ⟨_, init_sound high init (Nat.not_lt.mp small), ?_⟩, nothing⟩
    intro p n held
    cases held

theorem run_inv {tr : List Nat} (run : Run machine tr s) : Inv s := by
  refine run.always (I := Inv) (fun _ => start_inv) ?_
  intro s call s' es inv taken
  change step s call = some (s', es) at taken
  unfold step at taken
  split at taken
  · rename_i allowed
    rcases inv with tiny | pointed
    · left
      rw [tiny_step tiny allowed taken]
      exact tiny
    · right
      obtain ⟨t, fs, result, pointed'⟩ := pointed_step pointed allowed
      rw [result] at taken
      cases Option.some.inj taken
      exact pointed'
  · cases taken

theorem block_iff (shape : Shape h cells) : Block h x ↔ ∃ c, At cells x c := by
  have whole := shape.whole
  have last := shape.last
  constructor
  · intro block
    induction block with
    | first =>
      cases cells with
      | nil =>
        simp only [total] at whole
        unfold sizeofStructMem at last
        lia
      | cons c rest => exact ⟨c, Or.inl ⟨rfl, rfl⟩⟩
    | next _ inside ih =>
      obtain ⟨c, found⟩ := ih
      obtain ⟨L, R, rfl, rfl⟩ := found.split
      rw [show L ++ c :: R = L ++ [c] ++ R by simp] at shape
      obtain ⟨header, _, _, ends⟩ := shape.header
      rw [header] at inside ⊢
      cases R with
      | nil =>
        simp only [total] at ends inside
        lia
      | cons d R =>
        have here : At (L ++ [c] ++ d :: R) (total (L ++ [c])) d := at_middle
        exact ⟨d, by simpa [total] using here⟩
  · rintro ⟨c, found⟩
    obtain ⟨L, R, rfl, rfl⟩ := found.split
    clear found
    induction L using List.reverseRecOn generalizing c R with
    | nil => exact .first
    | append_singleton L b ih =>
      rw [show L ++ [b] ++ c :: R = L ++ b :: (c :: R) by simp] at shape whole
      have before := ih b (c :: R) shape whole
      rw [show L ++ b :: (c :: R) = L ++ [b] ++ (c :: R) by simp] at shape
      obtain ⟨header, _, _, ends⟩ := shape.header
      have positive := shape.positive c (by simp)
      simp only [total] at ends
      have place : total (L ++ [b]) = (h.mem (total L)).next := by simp [header, total]
      rw [place]
      refine before.next ?_
      rw [header]
      simp only
      lia

theorem free_iff (shape : Shape h cells) : Free h size x ↔ FreeAt cells (size + sizeofStructMem) x := by
  have header : ∀ c, At cells x c → (h.mem x).used = c.used ∧ (h.mem x).next = x + c.size := by
    intro c found
    obtain ⟨L, R, rfl, rfl⟩ := found.split
    rw [show L ++ c :: R = L ++ [c] ++ R by simp] at shape
    simp [shape.header.1]
  constructor
  · rintro ⟨block, free, holds⟩
    obtain ⟨c, found⟩ := (block_iff shape).mp block
    obtain ⟨used, next⟩ := header c found
    exact ⟨c, found, by rw [← used, free], by lia⟩
  · rintro ⟨c, found, free, holds⟩
    obtain ⟨used, next⟩ := header c found
    exact ⟨(block_iff shape).mpr ⟨c, found⟩, by rw [used, free], by lia⟩

theorem firstFit_iff (shape : Shape h cells) :
    firstFit (size + sizeofStructMem) cells = some x ↔ Lowest h size x := by
  constructor
  · intro found
    obtain ⟨here, least⟩ := firstFit_some found
    exact ⟨(free_iff shape).mpr here, fun y free => least y ((free_iff shape).mp free)⟩
  · rintro ⟨free, least⟩
    have here := (free_iff shape).mp free
    cases found : firstFit (size + sizeofStructMem) cells with
    | none => exact absurd here (firstFit_none found)
    | some y =>
      obtain ⟨there, least'⟩ := firstFit_some found
      exact congrArg some (Nat.le_antisymm (least' x here) (least y ((free_iff shape).mpr there)))

theorem Tiny.nothing (tiny : Tiny s) (least : minSizeAligned ≤ size) : ¬ Free s.heap size x := by
  rintro ⟨block, _, holds⟩
  have small := tiny.small
  have ends := tiny.ends
  have first := tiny.first
  unfold sizeofStructMem at holds ends
  cases block with
  | first => lia
  | next before inside =>
    have only : ∀ y, Block s.heap y → y = 0 := by
      intro y block
      induction block with
      | first => rfl
      | next _ inside ih =>
        rw [ih, first] at inside
        exact absurd inside (Nat.lt_irrefl _)
    rw [only _ before, first] at inside
    exact absurd inside (Nat.lt_irrefl _)

theorem aligned_fits (shape : Shape h cells) (fits : size ≤ h.memSizeAligned) :
    Mem.rtAlign size ≤ h.memSizeAligned := by
  have whole := shape.whole
  have last := shape.last
  have bound := shape.bound
  have mod : total cells % 4 = 0 := by
    apply Shape.start_mod (h := h) (R := [])
    simpa using shape
  unfold sizeofStructMem at last bound
  rw [rtAlign_eq (by lia)]
  lia

/-- rt_malloc takes the lowest block that is large enough, if it does not end up exactly at
the end of the heap. -/
theorem malloc_takes_lowest {tr : List Nat} (run : Run machine tr s) (some_ : 0 < size)
    (fits : size ≤ s.heap.memSizeAligned) (lowest : Lowest s.heap (blockSize size) x) :
    (∃ h p, rtMalloc s.heap size = some (h, p) ∧ p ≠ 0 ∧ p = userPtr s.heap x) ↔
      x + blockSize size < s.heap.memSizeAligned := by
  rcases run_inv run with tiny | ⟨held, ⟨cells, sound, _⟩, _⟩
  · refine absurd lowest.1 (tiny.nothing ?_)
    unfold blockSize
    split <;> lia
  · have bound := sound.bound
    have last := sound.last
    unfold sizeofStructMem at bound last
    have here := (firstFit_iff sound.toShape).mpr lowest
    rcases rtMalloc_cases sound some_ (aligned_fits sound.toShape fits) with
      ⟨y, h', cells', found, low, result, _⟩ | ⟨high, result⟩
    · cases Option.some.inj (here.symm.trans found)
      exact ⟨fun _ => low, fun _ => ⟨h', _, result, by simp [userPtr, sizeofStructMem], rfl⟩⟩
    · have above := high x here
      constructor
      · rintro ⟨h', p, taken, nonzero, _⟩
        rw [result] at taken
        cases Option.some.inj taken
        exact absurd rfl nonzero
      · intro low
        exact absurd low (Nat.not_lt.mpr above)

/-- The first block has been freed and is taken again. -/
theorem malloc_takes_lowest_freed : ∃ tr s, Run machine tr s ∧ s.live 136 = true ∧
    ∃ h p, rtMalloc s.heap 8 = some (h, p) ∧ p ≠ 0 ∧ p = userPtr s.heap 0 := by
  obtain ⟨h, init⟩ := Option.isSome_iff_exists.mp
    (show (rtSystemHeapInit (fun _ => ⟨0, false, 0, 0⟩) (fun _ => 0) 100 224).isSome by decide)
  have start : machine.start ⟨h, fun _ => false⟩ := ⟨⟨_, _, 100, 224, by decide, by decide, init⟩, fun _ => rfl⟩
  obtain ⟨tr, s, run, found⟩ := Run.reaches start [.malloc 12, .malloc 12, .free 112]
    (fun s => decide (s.live 136 = true ∧ s.heap.memSizeAligned = 100 ∧ (s.heap.mem 0).used = false ∧
      (s.heap.mem 0).next = 24)) (by cases Option.some.inj init; decide +kernel)
  obtain ⟨live, size, free, next⟩ := of_decide_eq_true found
  have lowest : Lowest s.heap (blockSize 8) 0 := by
    refine ⟨⟨.first, free, ?_⟩, fun y _ => Nat.zero_le y⟩
    rw [next]
    decide
  refine ⟨tr, s, run, live, (malloc_takes_lowest run (by decide) ?_ lowest).mpr ?_⟩
  · rw [size]
    decide
  · rw [size]
    decide

/-- The heap is one free block, and not all of it can be had. -/
theorem malloc_misses_last : ∃ s, Run machine [] s ∧ s.heap.memSizeAligned = 24 ∧ Lowest s.heap (blockSize 24) 0 ∧
    rtMalloc s.heap 24 = some (s.heap, 0) := by
  obtain ⟨h, init⟩ := Option.isSome_iff_exists.mp
    (show (rtSystemHeapInit (fun _ => ⟨0, false, 0, 0⟩) (fun _ => 0) 100 148).isSome by decide)
  refine ⟨⟨h, fun _ => false⟩, .start ⟨⟨_, _, 100, 148, by decide, by decide, init⟩, fun _ => rfl⟩, ?_⟩
  cases Option.some.inj init
  exact ⟨rfl, ⟨⟨.first, rfl, by decide⟩, fun y _ => Nat.zero_le y⟩, rfl⟩

end RtThread.MemCalls

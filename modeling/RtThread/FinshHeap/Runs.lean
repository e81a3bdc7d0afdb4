import RtThread.FinshHeap
import RtThread.Run

/-! Runs of calls of the finsh heap: what each one does to the tiling, and which pointers its callers
may use. -/
namespace RtThread.FinshHeap
open Tiling Linked Transition

def Heap.list (h : Heap) : Bool → Nat
  | false => h.freeList
  | true => h.allocateList

/-- What a call finds and leaves. As the last block is free, none in use lies behind all the free ones. -/
structure Sound (h : Heap) (cells : List Cell) : Prop where
  some_ : h.base ≠ 0
  shape : Shape h.base h.mem h.list cells
  noTwoFree : NoTwoFree cells
  ends : EndsFree cells

variable {h h' : Heap} {cells L R : List Cell} {c : Cell} {p size : Nat} {b : Nat × Cell}
  {globalVariable : Nat → FinshVar} {A B rem : List (Nat × Cell)}

theorem free_sound (sound : Sound h (L ++ [c] ++ R)) (used : c.used = true)
    (isP : p = h.base + total L + headerSize) : ∃ h' cells', finshHeapFree h p = some h' ∧ h'.base = h.base ∧
      Sound h' cells' ∧
      blocks true h.base cells' = blocks true h.base L ++ blocks true (h.base + total L + c.size) R := by
  obtain ⟨some_, shape, noTwoFree, ends⟩ := sound
  obtain ⟨left, right, _, _⟩ := noTwoFree_middle.mp noTwoFree
  obtain ⟨taken, p', removed, _⟩ := shape.remove used
  obtain ⟨linked, q, inserted, shape', _⟩ := shape.insert taken used some_ removed (fun _ _ => rfl)
    (fun none_ => absurd none_ (ends.behind used))
  obtain ⟨mem', cells', merged, result, apart, ends', same⟩ := shape'.merge rfl rfl some_ left right
    ends.right
  refine ⟨{ h with mem := mem', freeList := q, allocateList := p' }, cells', ?_, rfl, ⟨some_, ?_, apart, ends'⟩, same⟩
  · have header : p - headerSize = h.base + total L := by lia
    have merged' : finshBlockMerge linked q (h.base + total L) = some mem' := by simpa using merged
    have removed' : finshBlockRemove h.mem h.allocateList (h.base + total L) = some (taken, p') := removed
    have inserted' : finshBlockInsert taken h.freeList (h.base + total L) = some (linked, q) := inserted
    simp only [finshHeapFree, header, removed', Option.bind_some, inserted', merged', Option.map_some]
  · have lists : Heap.list { h with mem := mem', freeList := q, allocateList := p' } =
        fun u => if u = true then p' else q := by
      funext u
      cases u <;> rfl
    rw [lists]
    exact result

theorem Sound.sorted (sound : Sound h cells) (used : Bool) : Sorted (blocks used h.base cells) :=
  sorted_blocks sound.shape.large

theorem Sound.nonnull (sound : Sound h cells) (member : b ∈ placed h.base cells) : b.1 ≠ 0 := by
  have behind := (placed_inside member).1
  have base := sound.some_
  lia

theorem sorted_parts {A' B' : List (Nat × Cell)} (sorted : Sorted (A ++ b :: B))
    (same : A' ++ b :: B' = A ++ b :: B) : A' = A ∧ B' = B := by
  have before : b ∉ A := fun member => sorted_others sorted (List.mem_append_left B member) rfl
  have behind : b ∉ B := fun member => sorted_others sorted (List.mem_append_right A member) rfl
  obtain ⟨left, _, right⟩ := (List.append_cons_inj_of_notMem before behind).mp same.symm
  exact ⟨left.symm, right.symm⟩

theorem free_block (sound : Sound h cells) (split : blocks true h.base cells = A ++ b :: B) :
    ∃ h' cells', finshHeapFree h (b.1 + headerSize) = some h' ∧ h'.base = h.base ∧ Sound h' cells' ∧
      blocks true h.base cells' = A ++ B := by
  obtain ⟨member, used⟩ := mem_blocks.mp (show b ∈ blocks true h.base cells by rw [split]; simp)
  obtain ⟨L, R, rfl, place⟩ := placed_split member
  obtain ⟨h', cells', freed, base, sound', left⟩ := free_sound sound used (congrArg (· + headerSize) place)
  refine ⟨h', cells', freed, base, sound', ?_⟩
  have sorted := sound.sorted true
  rw [split] at sorted
  have pair : (h.base + total L, b.2) = b := by rw [← place]
  rw [List.append_assoc, blocks_append, List.singleton_append, blocks_here used, pair] at split
  obtain ⟨rfl, rfl⟩ := sorted_parts sorted split
  exact left

def firstOf : List (Nat × Cell) → Nat
  | [] => 0
  | b :: _ => b.1

theorem chained_first {mem : Nat → Nat} (chained : Chained mem p A) : p = firstOf A := by
  cases A with
  | nil => exact chained
  | cons b A => exact chained.1

theorem gcLoop_sound {fuel header : Nat} (sound : Sound h cells) (split : blocks true h.base cells = A ++ rem)
    (first : header = firstOf rem) (enough : rem.length ≤ fuel) :
    ∃ h' cells', gcLoop globalVariable fuel header h = some h' ∧ h'.base = h.base ∧ Sound h' cells' ∧
      blocks true h.base cells' = A ++ rem.filter (fun b => referred globalVariable (b.1 + headerSize)) := by
  induction rem generalizing A fuel header h cells with
  | nil =>
    obtain rfl : header = 0 := first
    refine ⟨h, cells, ?_, rfl, sound, split⟩
    unfold gcLoop
    exact if_pos rfl
  | cons b rest ih =>
    obtain rfl : header = b.1 := first
    have member : b ∈ placed h.base cells := (mem_blocks.mp (show b ∈ blocks true h.base cells by
      rw [split]; simp)).1
    have chained := sound.shape.lists true
    rw [split] at chained
    obtain ⟨_, _, _, _, tail⟩ := listed_append.mp chained
    have next : h.mem (b.1 + 4) = firstOf rest := chained_first tail
    cases fuel with
    | zero => simp at enough
    | succ fuel =>
      have enough' : rest.length ≤ fuel := by simpa using enough
      unfold gcLoop
      rw [if_neg (sound.nonnull member)]
      dsimp only
      by_cases wanted : referred globalVariable (b.1 + headerSize) = true
      · obtain ⟨h', cells', done, base, sound', left⟩ := ih (A := A ++ [b]) sound (by simpa using split) next enough'
        rw [if_pos wanted, Option.bind_some, List.filter_cons, if_pos wanted]
        exact ⟨h', cells', done, base, sound', by simpa using left⟩
      · obtain ⟨h₁, cells₁, freed, base, sound₁, left⟩ := free_block sound split
        rw [← base] at left
        obtain ⟨h', cells', done, base', sound', left'⟩ := ih sound₁ left next enough'
        rw [if_neg wanted, freed, Option.bind_some, List.filter_cons, if_neg wanted]
        exact ⟨h', cells', done, base'.trans base, sound', base ▸ left'⟩

theorem gc_sound (globalVariable : Nat → FinshVar) (sound : Sound h cells) :
    ∃ h' cells', finshHeapGc h globalVariable = some h' ∧ h'.base = h.base ∧ Sound h' cells' ∧ blocks true h.base cells' =
      (blocks true h.base cells).filter (fun b => referred globalVariable (b.1 + headerSize)) := by
  have first : h.allocateList = firstOf (blocks true h.base cells) := chained_first (sound.shape.lists true)
  have short := (@blocks_length cells true h.base).trans sound.shape.short
  exact gcLoop_sound (A := []) sound rfl first short

theorem findFit_found {mem : Nat → Nat} {fuel : Nat} (fits : Nat → Bool) (chained : Chained mem p A)
    (enough : A.length ≤ fuel) : ∃ r, findFit mem fits fuel p = some r ∧
      (r = 0 ∨ ∃ b ∈ A, r = b.1 ∧ fits (mem b.1) = true) := by
  induction A generalizing p fuel with
  | nil =>
    obtain rfl : p = 0 := chained
    refine ⟨0, ?_, Or.inl rfl⟩
    unfold findFit
    rw [if_pos (Or.inl rfl)]
  | cons b A ih =>
    obtain ⟨rfl, some_, rest⟩ := chained
    unfold findFit
    by_cases here : fits (mem b.1) = true
    · exact ⟨b.1, if_pos (Or.inr here), Or.inr ⟨b, by simp, rfl, here⟩⟩
    · rw [if_neg (by simp [some_, here])]
      cases fuel with
      | zero => simp at enough
      | succ fuel =>
        obtain ⟨r, found, outcome⟩ := ih rest (by simpa using enough)
        refine ⟨r, found, outcome.imp id ?_⟩
        rintro ⟨n, member, fit⟩
        exact ⟨n, List.mem_cons_of_mem _ member, fit⟩

theorem search_found (sound : Sound h cells) (fits : Nat → Bool) :
    ∃ r, findFit h.mem fits finshHeapMax h.freeList = some r ∧
      (r = 0 ∨ ∃ b ∈ blocks false h.base cells, r = b.1 ∧ fits (h.mem b.1) = true) :=
  findFit_found fits (sound.shape.lists false) ((@blocks_length cells false h.base).trans sound.shape.short)

theorem firstSearch_found (sound : Sound h cells) (small : size + headerSize < 2 ^ 32) :
    ∃ r, firstSearch h size = some r ∧
      (r = 0 ∨ ∃ b ∈ blocks false h.base cells, r = b.1 ∧ size + headerSize ≤ h.mem b.1) := by
  obtain ⟨r, found, outcome⟩ := search_found sound (fun length => (size + headerSize) % 2 ^ 32 < length)
  refine ⟨r, found, outcome.imp id ?_⟩
  rintro ⟨b, member, place, fit⟩
  rw [Nat.mod_eq_of_lt small, decide_eq_true_eq] at fit
  exact ⟨b, member, place, Nat.le_of_lt fit⟩

theorem secondSearch_found (sound : Sound h cells) (small : size + headerSize < 2 ^ 32) :
    ∃ r, secondSearch h size = some r ∧
      (r = 0 ∨ ∃ b ∈ blocks false h.base cells, r = b.1 ∧ size + headerSize ≤ h.mem b.1) := by
  obtain ⟨r, found, outcome⟩ := search_found sound (fun length => (size + headerSize) % 2 ^ 32 ≤ length)
  refine ⟨r, found, outcome.imp id ?_⟩
  rintro ⟨b, member, place, fit⟩
  rw [Nat.mod_eq_of_lt small, decide_eq_true_eq] at fit
  exact ⟨b, member, place, fit⟩

/-- What an allocation gets: a block of its own with the size asked for, all zero. -/
structure Taken (base : Nat) (before after : List (Nat × Cell)) (size p : Nat) (mem : Nat → Nat) : Prop where
  placed : ∃ A B, before = A ++ B ∧ after = A ++ (p - headerSize, ⟨size + headerSize, true⟩) :: B
  header : base + headerSize ≤ p
  inside : p + size ≤ base + finshHeapMax
  zero : ∀ y, p ≤ y → y < p + size → mem y = 0

theorem takeBlock_shape {x : Nat} (some_ : h.base ≠ 0) (shape : Shape h.base h.mem h.list (L ++ [c] ++ R))
    (free : c.used = false) (room : size + 16 ≤ c.size) (aligned : size % 4 = 0) (isX : x = h.base + total L) :
    ∃ h', takeBlock h x size = some (h', x + headerSize) ∧ h'.base = h.base ∧
      Shape h.base h'.mem h'.list (L ++ [⟨size + 8, true⟩] ++ ⟨c.size - (size + 8), false⟩ :: R) ∧
      ∀ y, x + 8 ≤ y → y < x + 8 + size → h'.mem y = 0 := by
  have cut := shape.split free room aligned
  rw [← isX] at cut
  have cut' : Shape h.base (finshBlockSplit h.mem x size) h.list
      (L ++ [⟨size + 8, false⟩] ++ ⟨c.size - (size + 8), false⟩ :: R) := by simpa using cut
  obtain ⟨taken, p', removed, _⟩ := cut'.remove rfl
  obtain ⟨linked, q, inserted, shape', _⟩ := cut'.insert (setNext taken (h.base + total L) 0) rfl some_
    removed (fun y other => setNext_other _ other) (fun _ => setNext_self _)
  have claimed : Shape h.base linked (fun u => if u = false then p' else q)
      (L ++ [⟨size + 8, true⟩] ++ ⟨c.size - (size + 8), false⟩ :: R) := shape'
  let mem' := fun y => if x + 8 ≤ y ∧ y < x + 8 + size then 0 else linked y
  have result : Shape h.base mem' (fun u => if u = false then p' else q)
      (L ++ [⟨size + 8, true⟩] ++ ⟨c.size - (size + 8), false⟩ :: R) :=
    claimed.data (fun y away => if_neg (by simp only at away; lia))
  have lists : Heap.list { h with mem := mem', freeList := p', allocateList := q } =
      fun u => if u = false then p' else q := by
    funext u
    cases u <;> rfl
  refine ⟨{ h with mem := mem', freeList := p', allocateList := q }, ?_, rfl, lists ▸ result,
    fun y low high => if_pos ⟨low, high⟩⟩
  have removed' : finshBlockRemove (finshBlockSplit h.mem x size) h.freeList x = some (taken, p') := by
    rw [isX]
    exact isX ▸ removed
  have inserted' : finshBlockInsert (setNext taken x 0) h.allocateList x = some (linked, q) := by
    rw [isX]
    exact inserted
  simp only [takeBlock, removed', Option.bind_some, inserted', Option.map_some, headerSize]
  rfl

theorem takeBlock_sound (sound : Sound h cells) (member : b ∈ blocks false h.base cells)
    (room : size + headerSize ≤ h.mem b.1) (aligned : size % 4 = 0) :
    ∃ h' cells', takeBlock h b.1 size = some (h', b.1 + headerSize) ∧ h'.base = h.base ∧ Sound h' cells' ∧
      Taken h.base (blocks true h.base cells) (blocks true h.base cells') size (b.1 + headerSize) h'.mem := by
  obtain ⟨some_, shape, noTwoFree, ends⟩ := sound
  obtain ⟨listed, free⟩ := mem_blocks.mp member
  obtain ⟨x, c⟩ := b
  have length := (shape.headers _ listed).length
  have bound := (placed_inside listed).2
  rw [shape.whole] at bound
  obtain ⟨L, R, rfl, isX⟩ := placed_split listed
  simp only [headerSize] at *
  obtain ⟨h', took, base, result, zero⟩ := takeBlock_shape some_ shape free (by lia) aligned isX
  refine ⟨h', _, took, base, ⟨base ▸ some_, base ▸ result, ?_, ?_⟩, ?_⟩
  · have apart := (NoTwoFree.claim noTwoFree free (a := size + 8)).2 (c.size - (size + 8))
    simpa using apart
  · have last := EndsFree.join (L := L ++ [⟨size + 8, true⟩]) (c := ⟨c.size - (size + 8), false⟩) ends.right rfl
    simpa using last
  · refine ⟨⟨blocks true h.base L, blocks true (x + c.size) R, ?_, ?_⟩, ?_, ?_, zero⟩
    · simp [blocks_other, free, isX]
    · have behind : x + (size + 8) + (c.size - (size + 8)) = x + c.size := by lia
      have parts : blocks true x (⟨size + 8, true⟩ :: ⟨c.size - (size + 8), false⟩ :: R) =
          (x, ⟨size + 8, true⟩) :: blocks true (x + (size + 8) + (c.size - (size + 8))) R := rfl
      rw [List.append_assoc, blocks_append, List.singleton_append, ← isX, parts, behind]
      rfl
    · change h.base + 8 ≤ x + 8
      lia
    · lia

/-- The blocks in use that an allocation still finds when it searches for the last time. -/
def remaining (h : Heap) (globalVariable : Nat → FinshVar) (size : Nat) (used : List (Nat × Cell)) :
    List (Nat × Cell) :=
  if firstSearch h size = some 0 then used.filter (fun b => referred globalVariable (b.1 + headerSize)) else used

theorem allocate_sound (globalVariable : Nat → FinshVar) (sound : Sound h cells) (small : size < 2 ^ 31) :
    ∃ h' p cells', finshHeapAllocate h globalVariable size = some (h', p) ∧ h'.base = h.base ∧ Sound h' cells' ∧
      let before := remaining h globalVariable (heapAlignSize size) (blocks true h.base cells)
      let after := blocks true h.base cells'
      (p = 0 ∧ after = before) ∨ Taken h.base before after (heapAlignSize size) p h'.mem := by
  have bound : heapAlignSize size + headerSize < 2 ^ 32 := by
    simp only [heapAlignSize, headerSize]
    lia
  have aligned : heapAlignSize size % 4 = 0 := Nat.mul_mod_left _ 4
  simp only [finshHeapAllocate, remaining]
  generalize heapAlignSize size = size at *
  obtain ⟨r, searched, outcome⟩ := firstSearch_found sound bound
  rw [searched, Option.bind_some]
  rcases outcome with rfl | ⟨b, member, rfl, room⟩
  · rw [if_neg (by simp), if_pos rfl]
    obtain ⟨h₁, cells₁, collected, base, sound₁, left⟩ := gc_sound globalVariable sound
    rw [collected, Option.bind_some]
    obtain ⟨r, searched', outcome⟩ := secondSearch_found sound₁ bound
    rw [searched', Option.bind_some]
    rcases outcome with rfl | ⟨b, member, rfl, room⟩
    · rw [if_pos rfl]
      exact ⟨h₁, 0, cells₁, rfl, base, sound₁, Or.inl ⟨rfl, left⟩⟩
    · have some_ := sound₁.nonnull (mem_blocks.mp member).1
      obtain ⟨h', cells', took, base', sound', taken⟩ := takeBlock_sound sound₁ member room aligned
      rw [if_neg some_, took]
      rw [base, left] at taken
      exact ⟨h', _, cells', rfl, base'.trans base, sound', Or.inr taken⟩
  · have some_ := sound.nonnull (mem_blocks.mp member).1
    obtain ⟨h', cells', took, base, sound', taken⟩ := takeBlock_sound sound member room aligned
    rw [if_pos some_, if_neg (by simpa using some_), took]
    exact ⟨h', _, cells', rfl, base, sound', Or.inr taken⟩

/-- The heap and what its callers know: the pointers they hold with the sizes asked for. -/
structure System where
  heap : Heap
  live : Nat → Option Nat

inductive Action where
  | allocate (size : Nat) (globalVariable : Nat → FinshVar)
  | free (ptr : Nat)
  | store (ptr i v : Nat)

inductive Event where
  | allocate (size p : Nat)
  | free (ptr : Nat)
  | store (ptr i v : Nat)
  deriving DecidableEq

def System.allows (s : System) : Action → Bool
  | .allocate size _ => size < 2 ^ 31
  | .free ptr => (s.live ptr).isSome
  | .store ptr i _ => (s.live ptr).any (fun n => i < n)

/-- The pointers that are left by the time an allocation has found a block: a collection has taken those
away that no variable refers to. -/
def System.kept (s : System) (globalVariable : Nat → FinshVar) (size : Nat) (p : Nat) : Option Nat :=
  if firstSearch s.heap (heapAlignSize size) = some 0 then
    if referred globalVariable p then s.live p else none
  else s.live p

def System.call (s : System) : Action → Option (System × List Event)
  | .allocate size globalVariable =>
    (finshHeapAllocate s.heap globalVariable size).map (fun r =>
      let live := s.kept globalVariable size
      (⟨r.1, if r.2 = 0 then live else Function.update live r.2 (some size)⟩, [.allocate size r.2]))
  | .free ptr =>
    (finshHeapFree s.heap ptr).map (fun h => (⟨h, Function.update s.live ptr none⟩, [.free ptr]))
  | .store ptr i v =>
    some (⟨{ s.heap with mem := Function.update s.heap.mem (ptr + i) v }, s.live⟩, [.store ptr i v])

def step (s : System) (a : Action) : Option (System × List Event) :=
  if s.allows a then s.call a else none

/-- After finsh_heap_init; finsh_heap is aligned and lies inside of the address space. -/
def Start (s : System) : Prop :=
  (∃ base mem, base ≠ 0 ∧ base % 4 = 0 ∧ base + finshHeapMax ≤ 2 ^ 32 ∧ s.heap = finshHeapInit base mem) ∧
    ∀ p, s.live p = none

def machine : Machine System Action Event where
  start := Start
  step := step

/-- The blocks in use are those that the callers hold, each of the size asked for, rounded up. -/
structure Owned (live : Nat → Option Nat) (used : List (Nat × Cell)) : Prop where
  block : ∀ p n, live p = some n → ∃ b ∈ used, p = b.1 + headerSize ∧
    b.2.size = heapAlignSize n + headerSize ∧ n + headerSize ≤ b.2.size
  live : ∀ b ∈ used, ∃ n, live (b.1 + headerSize) = some n

variable {live live' : Nat → Option Nat} {used : List (Nat × Cell)} {s s' : System} {tr es : List Event} {n : Nat}

theorem Owned.filter (owned : Owned live used) (keep : Nat → Bool) :
    Owned (fun p => if keep p then live p else none) (used.filter (fun b => keep (b.1 + headerSize))) := by
  constructor
  · intro p n held
    split at held
    · rename_i wanted
      obtain ⟨b, member, rfl, size⟩ := owned.block p n held
      exact ⟨b, List.mem_filter.mpr ⟨member, wanted⟩, rfl, size⟩
    · cases held
  · intro b member
    obtain ⟨member, wanted⟩ := List.mem_filter.mp member
    obtain ⟨n, held⟩ := owned.live b member
    exact ⟨n, (if_pos wanted).trans held⟩

theorem Owned.remove (owned : Owned live (A ++ b :: B)) (sorted : Sorted (A ++ b :: B)) :
    Owned (Function.update live (b.1 + headerSize) none) (A ++ B) := by
  constructor
  · intro p n held
    by_cases same : p = b.1 + headerSize
    · rw [same, Function.update_self] at held
      cases held
    · rw [Function.update_of_ne same] at held
      obtain ⟨m, member, rfl, size⟩ := owned.block p n held
      refine ⟨m, ?_, rfl, size⟩
      have other : m ≠ b := fun equal => same (by rw [equal])
      simp only [List.mem_append, List.mem_cons] at member ⊢
      tauto
  · intro m member
    obtain ⟨n, held⟩ := owned.live m (by simp at member ⊢; tauto)
    refine ⟨n, ?_⟩
    have other := sorted_others sorted member
    rw [Function.update_of_ne (by lia), held]

theorem Owned.insert (owned : Owned live (A ++ B)) (size : b.2.size = heapAlignSize n + headerSize)
    (room : n + headerSize ≤ b.2.size) (sorted : Sorted (A ++ b :: B)) :
    Owned (Function.update live (b.1 + headerSize) (some n)) (A ++ b :: B) ∧ live (b.1 + headerSize) = none := by
  refine ⟨⟨?_, ?_⟩, ?_⟩
  · intro p m held
    by_cases same : p = b.1 + headerSize
    · rw [same, Function.update_self] at held
      cases held
      exact ⟨b, by simp, same, size, room⟩
    · rw [Function.update_of_ne same] at held
      obtain ⟨d, member, place, sizes⟩ := owned.block p m held
      exact ⟨d, by simp at member ⊢; tauto, place, sizes⟩
  · intro d member
    by_cases same : d.1 = b.1
    · exact ⟨n, by rw [same, Function.update_self]⟩
    · have old : d ∈ A ++ B := by
        have other : d ≠ b := fun equal => same (by rw [equal])
        simp only [List.mem_append, List.mem_cons] at member ⊢
        tauto
      obtain ⟨m, held⟩ := owned.live d old
      exact ⟨m, by rw [Function.update_of_ne (by lia), held]⟩
  · cases held : live (b.1 + headerSize) with
    | none => rfl
    | some m =>
      obtain ⟨d, member, place, _⟩ := owned.block _ m held
      exact absurd (by lia) (sorted_others sorted member)

structure Inv (s : System) (cells : List Cell) : Prop where
  sound : Sound s.heap cells
  aligned : s.heap.base % 4 = 0
  owned : Owned s.live (blocks true s.heap.base cells)

theorem start_inv (start : Start s) : ∃ cells, Inv s cells := by
  obtain ⟨⟨base, mem, some_, aligned, _, heap⟩, idle⟩ := start
  refine ⟨[⟨finshHeapMax, false⟩], ⟨?_, ?_, ?_, ?_⟩, ?_, ?_⟩
  · rw [heap]
    exact some_
  · rw [heap]
    refine ⟨rfl, ?_, ?_⟩
    · intro b member
      obtain rfl : b = (base, ⟨finshHeapMax, false⟩) := by simpa [finshHeapInit] using member
      refine ⟨by simp only; decide, by simp only; decide, ?_⟩
      simp only [finshHeapInit]
      rw [setNext_other _ (by lia), Function.update_self]
      rfl
    · rintro (_ | _)
      · exact ⟨rfl, some_, setNext_self _⟩
      · rfl
  · simp [NoTwoFree]
  · exact ⟨[], _, rfl, rfl⟩
  · rw [heap]
    exact aligned
  · refine ⟨fun p n held => ?_, fun b member => ?_⟩
    · rw [idle p] at held
      cases held
    · cases member

theorem Inv.block (inv : Inv s cells) (held : s.live p = some n) :
    ∃ A b B, blocks true s.heap.base cells = A ++ b :: B ∧ p = b.1 + headerSize := by
  obtain ⟨b, member, place, _⟩ := inv.owned.block p n held
  obtain ⟨A, B, split⟩ := List.append_of_mem member
  exact ⟨A, b, B, split, place⟩

theorem free_inv (inv : Inv s cells) (held : (s.live p).isSome = true) :
    ∃ h' cells', finshHeapFree s.heap p = some h' ∧ h'.base = s.heap.base ∧ Inv ⟨h', Function.update s.live p none⟩ cells' := by
  obtain ⟨n, held⟩ := Option.isSome_iff_exists.mp held
  obtain ⟨A, b, B, split, rfl⟩ := inv.block held
  obtain ⟨h', cells', freed, base, sound, left⟩ := free_block inv.sound split
  have sorted := inv.sound.sorted true
  have owned := inv.owned
  rw [split] at sorted owned
  refine ⟨h', cells', freed, base, sound, base ▸ inv.aligned, ?_⟩
  rw [base, left]
  exact owned.remove sorted

theorem heapAlignSize_ge (small : n < 2 ^ 31) : n ≤ heapAlignSize n := by
  simp only [heapAlignSize]
  lia

theorem store_inv {i v : Nat} (inv : Inv s cells) (held : s.live p = some n) (inside : i < n) :
    Inv ⟨{ s.heap with mem := Function.update s.heap.mem (p + i) v }, s.live⟩ cells := by
  obtain ⟨⟨some_, shape, noTwoFree, ends⟩, aligned, owned⟩ := inv
  obtain ⟨b, member, rfl, _, room⟩ := owned.block p n held
  obtain ⟨L, R, rfl, place⟩ := placed_split (mem_blocks.mp member).1
  refine ⟨⟨some_, shape.data fun y away => ?_, noTwoFree, ends⟩, aligned, owned⟩
  refine Function.update_of_ne ?_ _ _
  simp only [headerSize] at room ⊢
  lia

/-- What the caller of an allocation gets. -/
structure Fresh (s : System) (globalVariable : Nat → FinshVar) (size p : Nat) (s' : System) : Prop where
  held : s'.live p = some size
  new : s.kept globalVariable size p = none
  others : ∀ q, q ≠ p → s'.live q = s.kept globalVariable size q
  aligned : p % 4 = 0
  inside : s.heap.base ≤ p ∧ p + size ≤ s.heap.base + finshHeapMax
  zero : ∀ y, p ≤ y → y < p + size → s'.heap.mem y = 0

theorem Inv.kept (inv : Inv s cells) (globalVariable : Nat → FinshVar) (size : Nat) :
    Owned (s.kept globalVariable size)
      (remaining s.heap globalVariable (heapAlignSize size) (blocks true s.heap.base cells)) := by
  simp only [remaining]
  by_cases collects : firstSearch s.heap (heapAlignSize size) = some 0
  · have kept : s.kept globalVariable size = fun p => if referred globalVariable p then s.live p else none := by
      funext p
      exact if_pos collects
    rw [if_pos collects, kept]
    exact inv.owned.filter (referred globalVariable)
  · have kept : s.kept globalVariable size = s.live := by
      funext p
      exact if_neg collects
    rw [if_neg collects, kept]
    exact inv.owned

theorem allocate_inv (g : Nat → FinshVar) (inv : Inv s cells) (small : size < 2 ^ 31) :
    ∃ s' p cells', step s (.allocate size g) = some (s', [.allocate size p]) ∧
      s'.heap.base = s.heap.base ∧ Inv s' cells' ∧ (p ≠ 0 → Fresh s g size p s') ∧
      (p = 0 → s'.live = s.kept g size) := by
  have permitted : s.allows (.allocate size g) = true := decide_eq_true small
  obtain ⟨h', p, cells', allocated, base, sound, outcome⟩ := allocate_sound g inv.sound small
  have owned := inv.kept g size
  rcases outcome with ⟨rfl, left⟩ | ⟨⟨A, B, before, after⟩, header, inside, zero⟩
  · refine ⟨⟨h', s.kept g size⟩, 0, cells', ?_, base, ⟨sound, base ▸ inv.aligned, ?_⟩,
      fun some_ => absurd rfl some_, fun _ => rfl⟩
    · rw [step, if_pos permitted]
      simp [System.call, allocated]
    · rw [base, left]
      exact owned
  · have some_ : p ≠ 0 := by
      have positive := inv.sound.some_
      lia
    have place : p - headerSize + headerSize = p := by lia
    have sorted := sound.sorted true
    rw [base, after] at sorted
    rw [before] at owned
    have rounded := heapAlignSize_ge small
    obtain ⟨grown, new⟩ := owned.insert rfl (Nat.add_le_add_right rounded _) sorted
    simp only [place] at grown new
    have member : (p - headerSize, ⟨heapAlignSize size + headerSize, true⟩) ∈ placed h'.base cells' := by
      refine (mem_blocks.mp (show _ ∈ blocks true h'.base cells' from ?_)).1
      rw [base, after]
      simp
    refine ⟨⟨h', Function.update (s.kept g size) p (some size)⟩, p, cells', ?_, base,
      ⟨sound, base ▸ inv.aligned, by rw [base, after]; exact grown⟩, fun _ => ?_, fun null => absurd null some_⟩
    · rw [step, if_pos permitted]
      simp [System.call, allocated, some_]
    · refine ⟨Function.update_self .., new, fun q other => Function.update_of_ne other .., ?_,
        ⟨by lia, by lia⟩, fun y low high => zero y low (by lia)⟩
      have multiple := placed_mod (fun b inside => (sound.shape.headers b inside).aligned)
        (base ▸ inv.aligned) _ member
      simp only [headerSize] at multiple place
      lia

theorem step_inv {a : Action} (inv : Inv s cells) (taken : step s a = some (s', es)) : ∃ cells', Inv s' cells' := by
  cases allowed : s.allows a with
  | false => simp [step, allowed] at taken
  | true =>
    cases a with
    | allocate size globalVariable =>
      obtain ⟨s₁, p, cells', done, _, inv', _⟩ := allocate_inv globalVariable inv (of_decide_eq_true allowed)
      cases taken.symm.trans done
      exact ⟨cells', inv'⟩
    | free ptr =>
      obtain ⟨h', cells', freed, _, inv'⟩ := free_inv inv allowed
      simp only [step, allowed, if_true, System.call, freed, Option.map_some] at taken
      cases taken
      exact ⟨cells', inv'⟩
    | store ptr i v =>
      obtain ⟨n, held, inside⟩ := (Option.any_eq_true _ _).mp allowed
      simp only [step, allowed, if_true, System.call] at taken
      cases taken
      exact ⟨cells, store_inv inv held (of_decide_eq_true inside)⟩

theorem run_inv (run : Run machine tr s) : ∃ cells, Inv s cells :=
  run.always (I := fun s => ∃ cells, Inv s cells) (fun _ start => start_inv start)
    (fun _ _ _ _ ⟨_, inv⟩ taken => step_inv inv taken)

/-- The blocks of the two lists tile finsh_heap, and the callers hold those in use. -/
structure Tiled (s : System) (cells : List Cell) : Prop where
  whole : total cells = finshHeapMax
  headers : ∀ b ∈ placed s.heap.base cells, Describes s.heap.mem b
  freeList : Chained s.heap.mem s.heap.freeList (blocks false s.heap.base cells)
  allocateList : Chained s.heap.mem s.heap.allocateList (blocks true s.heap.base cells)
  sorted : ∀ used, Sorted (blocks used s.heap.base cells)
  noTwoFree : NoTwoFree cells
  owned : Owned s.live (blocks true s.heap.base cells)
  apart : ∀ p q n m, s.live p = some n → s.live q = some m → p ≠ q → p + n ≤ q ∨ q + m ≤ p

theorem Inv.tiled (inv : Inv s cells) : Tiled s cells := by
  have shape := inv.sound.shape
  refine ⟨shape.whole, shape.headers, shape.lists false, shape.lists true, inv.sound.sorted, inv.sound.noTwoFree,
    inv.owned, fun p q n m first second other => ?_⟩
  obtain ⟨a, member, rfl, _, room⟩ := inv.owned.block p n first
  obtain ⟨b, member', rfl, _, room'⟩ := inv.owned.block q m second
  rcases placed_apart (mem_blocks.mp member).1 (mem_blocks.mp member').1 with rfl | before | behind
  · exact absurd rfl other
  · lia
  · lia

/-- In every state that is reached the heap is tiled, and the next call keeps its promise. -/
theorem heap_tiled (run : Run machine tr s) : (∃ cells, Tiled s cells) ∧
    (∀ size globalVariable, size < 2 ^ 31 → ∃ s' p,
      step s (.allocate size globalVariable) = some (s', [.allocate size p]) ∧
      (p ≠ 0 → Fresh s globalVariable size p s') ∧ (p = 0 → s'.live = s.kept globalVariable size)) ∧
    ∀ ptr, (s.live ptr).isSome = true → ∃ h,
      step s (.free ptr) = some (⟨h, Function.update s.live ptr none⟩, [.free ptr]) := by
  obtain ⟨cells, inv⟩ := run_inv run
  refine ⟨⟨cells, inv.tiled⟩, fun size globalVariable small => ?_, fun ptr held => ?_⟩
  · obtain ⟨s', p, _, done, _, _, fresh, failed⟩ := allocate_inv globalVariable inv small
    exact ⟨s', p, done, fresh, failed⟩
  · obtain ⟨h, _, freed, _⟩ := free_inv inv held
    exact ⟨h, by simp [step, System.allows, held, System.call, freed]⟩

def started : System := ⟨finshHeapInit 0x20000000 (fun _ => 7), fun _ => none⟩

theorem started_start : Start started :=
  ⟨⟨0x20000000, _, by decide, by decide, by decide, rfl⟩, fun _ => rfl⟩

def oneVariable (p : Nat) (i : Nat) : FinshVar := if i = 0 then ⟨7, p⟩ else ⟨finshTypeUnknown, p⟩

def collectingTrace : List Event :=
  [.allocate 21 0x20000008, .allocate 50 0x20000028, .store 0x20000008 4 99, .allocate 50 0x20000028,
    .free 0x20000008]

/-- The third allocation collects the second block and gets its memory. -/
theorem heap_tiled_collected : ∃ s cells, Run machine collectingTrace s ∧ Tiled s cells := by
  obtain ⟨s, run, _⟩ := Run.shows (M := machine) started_start
    [.allocate 21 (oneVariable 0), .allocate 50 (oneVariable 0), .store 0x20000008 4 99,
      .allocate 50 (oneVariable 0x20000008), .free 0x20000008]
    collectingTrace (fun _ => true) (by decide +kernel)
  obtain ⟨⟨cells, tiled⟩, _⟩ := heap_tiled run
  exact ⟨s, cells, run, tiled⟩

end RtThread.FinshHeap

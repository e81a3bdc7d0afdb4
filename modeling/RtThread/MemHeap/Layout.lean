import RtThread.Circle
import RtThread.MemHeap
import RtThread.Tiling

/-! How a memory heap lies in memory: its items tile the pool and its free ones form a
circle. Each small step of the calls (cutting an item, joining two, taking one out of the
free list) keeps this, whatever it leaves half done. -/
namespace RtThread.MemHeap
open Tiling Linked Memheap

def Region.limit (g : Region) : Nat := g.startAddr + g.poolSize

/-- The item that follows the one at `x`, behind the last one the first. -/
def Region.behind (g : Region) (x : Nat) (c : Cell) : Nat :=
  if x + c.size = g.limit then g.startAddr else x + c.size

def magicOf (used : Bool) : Nat := if used then rtMemheapMagic ||| rtMemheapUsed else rtMemheapMagic

/-- The header at `x` describes the cell `c`, the one before starting at `before`. -/
structure Describes (h : Memheap) (before x : Nat) (c : Cell) : Prop where
  magic : h.magic x = magicOf c.used
  pool : h.poolPtr x = h.self
  next : h.next x = h.behind x c
  prev : h.prev x = before
  large : rtMemheapSize ≤ c.size
  aligned : c.size % 4 = 0

/-- Items that do not overlap. -/
def Spots (S : Nat → Prop) : Prop := ∀ y z, S y → S z → y = z ∨ y + rtMemheapSize ≤ z ∨ z + rtMemheapSize ≤ y

def Off (S : Nat → Prop) (a : Nat) : Prop := ∀ z, S z → a < z ∨ z + rtMemheapSize ≤ a

/-- The pool of `h` is cut into `cells` and `frees` are the items of its free list, all of
them at spots in `S`. Besides these, memory is as it was in `h₀`. -/
structure Rep (S : Nat → Prop) (h₀ h : Memheap) (cells : List Cell) (frees : List Nat) : Prop where
  region : h.toRegion = h₀.toRegion
  apart : Spots S
  laid : Laid (Describes h) (h.limit - rtMemheapSize) h.startAddr cells
  whole : total cells = h.poolSize
  circle : Circle h.nextFree h.prevFree h.freeList frees
  nodup : (h.freeList :: frees).Nodup
  spots : ∀ y c, At cells y c → S (h.startAddr + y)
  listed : ∀ z ∈ h.freeList :: frees, S z
  only : ∀ a, Off S a → h.mem a = h₀.mem a

structure SameItem (h h' : Memheap) (x : Nat) : Prop where
  magic : h'.magic x = h.magic x
  pool : h'.poolPtr x = h.poolPtr x
  next : h'.next x = h.next x
  prev : h'.prev x = h.prev x

structure SameLinks (h h' : Memheap) (x : Nat) : Prop where
  nextFree : h'.nextFree x = h.nextFree x
  prevFree : h'.prevFree x = h.prevFree x

/-- The item at `x` has swallowed the one at `y` behind it. -/
structure Joined (S : Nat → Prop) (h h' : Memheap) (x y : Nat) : Prop where
  region : h'.toRegion = h.toRegion
  links : ∀ z, S z → SameLinks h h' z
  magic : ∀ z, S z → h'.magic z = h.magic z
  pool : ∀ z, S z → h'.poolPtr z = h.poolPtr z
  next : ∀ z, S z → h'.next z = if z = x then h.next y else h.next z
  prev : ∀ z, S z → h'.prev z = if z = h.next y then x else h.prev z
  off : ∀ a, Off S a → h'.mem a = h.mem a

variable {S S' : Nat → Prop} {h h' h₀ : Memheap} {x y z a b n p size : Nat} {L M M' R cells : List Cell}
  {c d : Cell} {frees frees' : List Nat}

namespace Memheap

@[simp] theorem put_size : (h.put a b).availableSize = h.availableSize := rfl
@[simp] theorem setMagic_size : (h.setMagic x a).availableSize = h.availableSize := rfl
@[simp] theorem setNext_size : (h.setNext x a).availableSize = h.availableSize := rfl
@[simp] theorem setPrev_size : (h.setPrev x a).availableSize = h.availableSize := rfl
@[simp] theorem setNextFree_size : (h.setNextFree x a).availableSize = h.availableSize := rfl
@[simp] theorem setPrevFree_size : (h.setPrevFree x a).availableSize = h.availableSize := rfl
@[simp] theorem unlinkFree_size : (h.unlinkFree x).availableSize = h.availableSize := rfl
@[simp] theorem insertFree_size : (h.insertFree x).availableSize = h.availableSize := rfl
@[simp] theorem buildItem_size : (h.buildItem x y).availableSize = h.availableSize := rfl
@[simp] theorem takeRoom_size : (h.takeRoom n).availableSize = sub32 h.availableSize n := rfl
@[simp] theorem giveRoom_size : (h.giveRoom n).availableSize = (h.availableSize + n) % 2 ^ 32 := rfl

theorem next_setPrev (other : y + 8 ≠ x + 12) : (h.setPrev x a).next y = h.next y :=
  Function.update_of_ne other _ _

theorem next_setNext (other : y ≠ x) : (h.setNext x a).next y = h.next y :=
  Function.update_of_ne (by lia) _ _

theorem prev_setPrev (other : y ≠ x) : (h.setPrev x a).prev y = h.prev y :=
  Function.update_of_ne (by lia) _ _

theorem prev_setNext (other : y + 12 ≠ x + 8) : (h.setNext x a).prev y = h.prev y :=
  Function.update_of_ne other _ _

theorem setNext_setPrev (other : x + 8 ≠ y + 12) :
    (h.setNext x a).setPrev y b = (h.setPrev y b).setNext x a := by
  simp only [setNext, setPrev, put, Function.update_comm other]

end Memheap

section
variable (apart : Spots S)
include apart

theorem unlinkFree_reads (here : S x) (before : S (h.prevFree x)) (behind : S (h.nextFree x))
    (other : h.nextFree x ≠ x) (spot : S z) :
    SameItem h (h.unlinkFree x) z ∧
    (h.unlinkFree x).nextFree z = (if z = h.prevFree x then h.nextFree x else h.nextFree z) ∧
    (h.unlinkFree x).prevFree z = if z = h.nextFree x then h.prevFree x else h.prevFree z := by
  have first := apart z _ spot before
  have second := apart z _ spot behind
  have third := apart x _ here before
  have fourth := apart x _ here behind
  have fifth := apart _ _ before behind
  refine ⟨⟨?_, ?_, ?_, ?_⟩, ?_, ?_⟩ <;>
    simp only [unlinkFree, setPrevFree, setNextFree, magic, poolPtr, Memheap.next, Memheap.prev, nextFree,
      prevFree, put, Function.update_apply, rtMemheapSize] at * <;> grind

theorem insertFree_reads (here : S x) (head : S h.freeList) (behind : S (h.nextFree h.freeList))
    (fresh : x ≠ h.freeList ∧ x ≠ h.nextFree h.freeList) (spot : S z) :
    SameItem h (h.insertFree x) z ∧
    (h.insertFree x).nextFree z =
      (if z = h.freeList then x else if z = x then h.nextFree h.freeList else h.nextFree z) ∧
    (h.insertFree x).prevFree z =
      if z = h.nextFree h.freeList then x else if z = x then h.freeList else h.prevFree z := by
  have first := apart z _ spot here
  have second := apart z _ spot head
  have third := apart z _ spot behind
  have fourth := apart x _ here head
  have fifth := apart x _ here behind
  have sixth := apart _ _ head behind
  refine ⟨⟨?_, ?_, ?_, ?_⟩, ?_, ?_⟩ <;>
    simp only [insertFree, setPrevFree, setNextFree, magic, poolPtr, Memheap.next, Memheap.prev, nextFree,
      prevFree, put, Function.update_apply, rtMemheapSize] at * <;> grind

theorem buildItem_reads (here : S x) (new : S y) (behind : S (h.next x))
    (fresh : x ≠ y ∧ y ≠ h.next x ∧ h.next x ≠ x) (spot : S z) :
    SameLinks h (h.buildItem x y) z ∧
    (h.buildItem x y).magic z = (if z = y then rtMemheapMagic else h.magic z) ∧
    (h.buildItem x y).poolPtr z = (if z = y then h.self else h.poolPtr z) ∧
    (h.buildItem x y).next z = (if z = x then y else if z = y then h.next x else h.next z) ∧
    (h.buildItem x y).prev z = if z = h.next x then y else if z = y then x else h.prev z := by
  have first := apart z _ spot here
  have second := apart z _ spot new
  have third := apart z _ spot behind
  have fourth := apart x _ here new
  have fifth := apart x _ here behind
  have sixth := apart _ _ new behind
  refine ⟨⟨?_, ?_⟩, ?_, ?_, ?_, ?_⟩ <;>
    simp only [buildItem, setMagic, setPoolPtr, setNext, setPrev, magic, poolPtr, Memheap.next, Memheap.prev,
      nextFree, prevFree, put, Function.update_apply, rtMemheapSize] at * <;> grind

/-- The two writes of a merge, as rt_memheap_free and rt_memheap_realloc do them. -/
theorem join_reads (here : S x) (next : S y) (behind : S (h.next y))
    (fresh : x ≠ y ∧ y ≠ h.next y ∧ h.next y ≠ x) :
    Joined S h ((h.setPrev (h.next y) x).setNext x (h.next y)) x y := by
  have first := apart _ _ here next
  have second := apart _ _ here behind
  refine ⟨rfl, fun z spot => ⟨?_, ?_⟩, fun z spot => ?_, fun z spot => ?_, fun z spot => ?_, fun z spot => ?_,
    fun a off => ?_⟩
  case refine_7 =>
    have third := off _ here
    have fourth := off _ behind
    simp only [setNext, setPrev, Memheap.next, put, Function.update_apply, rtMemheapSize] at *
    grind
  all_goals
    have third := apart _ _ spot here
    have fourth := apart _ _ spot behind
    simp only [setNext, setPrev, magic, poolPtr, Memheap.next, Memheap.prev,
      nextFree, prevFree, put, Function.update_apply, rtMemheapSize] at *
    grind

theorem unlinkFree_off (here : S x) (before : S (h.prevFree x)) (behind : S (h.nextFree x))
    (other : h.nextFree x ≠ x) (off : Off S a) : (h.unlinkFree x).mem a = h.mem a := by
  have first := off _ before
  have second := off _ behind
  have third := apart x _ here behind
  simp only [unlinkFree, setPrevFree, setNextFree, nextFree, prevFree, put, Function.update_apply,
    rtMemheapSize] at *
  grind

theorem insertFree_off (here : S x) (head : S h.freeList) (behind : S (h.nextFree h.freeList))
    (fresh : x ≠ h.freeList ∧ x ≠ h.nextFree h.freeList) (off : Off S a) :
    (h.insertFree x).mem a = h.mem a := by
  have first := off _ here
  have second := off _ head
  have third := off _ behind
  have fourth := apart x _ here head
  simp only [insertFree, setPrevFree, setNextFree, nextFree, put, Function.update_apply,
    rtMemheapSize] at *
  grind

theorem buildItem_off (here : S x) (new : S y) (behind : S (h.next x))
    (fresh : x ≠ y ∧ y ≠ h.next x ∧ h.next x ≠ x) (off : Off S a) : (h.buildItem x y).mem a = h.mem a := by
  have first := off _ here
  have second := off _ new
  have third := off _ behind
  have fourth := apart x _ here new
  have fifth := apart x _ here behind
  simp only [buildItem, setMagic, setPoolPtr, setNext, setPrev, Memheap.next, put, Function.update_apply,
    rtMemheapSize] at *
  grind
end

theorem Describes.frame (holds : Describes h a x c) (region : h'.toRegion = h.toRegion)
    (same : SameItem h h' x) : Describes h' a x c := by
  refine ⟨same.magic.trans holds.magic, ?_, ?_, same.prev.trans holds.prev, holds.large, holds.aligned⟩
  · rw [same.pool, holds.pool, region]
  · rw [same.next, holds.next, region]

theorem Region.behind_eq {g : Region} (inside : x + c.size < g.limit) : g.behind x c = x + c.size := by
  rw [Region.behind, if_neg (by lia)]

theorem described (h : Memheap) : ∀ a y c, Describes h a y c → 0 < c.size := by
  intro a y c holds
  have large := holds.large
  unfold rtMemheapSize at large
  lia

namespace Rep

theorem start (rep : Rep S h₀ h cells frees) : h.startAddr = h₀.startAddr := congrArg Region.startAddr rep.region

theorem list (rep : Rep S h₀ h cells frees) : h.freeList = h₀.freeList := congrArg Region.freeList rep.region

theorem header (rep : Rep S h₀ h (L ++ [c] ++ R) frees) (isX : x = h₀.startAddr + total L) :
    Describes h (lastStart (h.limit - rtMemheapSize) h.startAddr L) x c := by
  have laid := rep.laid
  rw [← rep.start] at isX
  subst isX
  rw [List.append_assoc, laid_append] at laid
  exact laid.2.1

theorem large (rep : Rep S h₀ h (L ++ c :: R) frees) : rtMemheapSize ≤ c.size ∧ c.size % 4 = 0 := by
  have holds := (show Rep S h₀ h (L ++ [c] ++ R) frees by simpa using rep).header rfl
  exact ⟨holds.large, holds.aligned⟩

theorem size_le (rep : Rep S h₀ h (L ++ c :: R) frees) : total L + c.size + total R = h.poolSize := by
  have whole := rep.whole
  simp only [total_append, total] at whole
  lia

theorem next_eq (rep : Rep S h₀ h (L ++ c :: d :: R) frees) :
    h.next (h.startAddr + total L) = h.startAddr + total L + c.size := by
  have rep' : Rep S h₀ h (L ++ [c] ++ d :: R) frees := by simpa using rep
  rw [(rep'.header (rep.start ▸ rfl)).next, Region.behind, if_neg]
  have last := (show Rep S h₀ h ((L ++ [c]) ++ d :: R) frees by simpa using rep).large.1
  have whole := rep.size_le
  simp only [total] at whole
  unfold Region.limit rtMemheapSize at *
  lia

theorem spot (rep : Rep S h₀ h (L ++ c :: R) frees) : S (h.startAddr + total L) :=
  rep.spots _ c at_middle

theorem spot_behind (rep : Rep S h₀ h (L ++ c :: d :: R) frees) : S (h.startAddr + total L + c.size) := by
  have found := rep.spots (total (L ++ [c])) d (by simpa using at_middle (L := L ++ [c]) (c := d) (R := R))
  simpa [total, Nat.add_assoc] using found

theorem replace (rep : Rep S h₀ h (L ++ M ++ R) frees) (same : total M' = total M)
    (region : h'.toRegion = h.toRegion) (links : ∀ z, S z → SameLinks h h' z)
    (off : ∀ a, Off S a → h'.mem a = h.mem a)
    (spots : ∀ y c, At M' y c → S (h.startAddr + total L + y))
    (others : ∀ z, S z → z < h.startAddr + total L ∨ h.startAddr + total L + total M < z → SameItem h h' z)
    (border : ∀ z, S z → z = h.startAddr + total L + total M → h'.magic z = h.magic z ∧
      h'.poolPtr z = h.poolPtr z ∧ h'.next z = h.next z ∧
      h'.prev z = lastStart (lastStart (h.limit - rtMemheapSize) h.startAddr L) (h.startAddr + total L) M')
    (middle : Laid (Describes h') (lastStart (h.limit - rtMemheapSize) h.startAddr L)
      (h.startAddr + total L) M') : Rep S h₀ h' (L ++ M' ++ R) frees := by
  have start : h'.startAddr = h.startAddr := congrArg Region.startAddr region
  have pool : h'.poolSize = h.poolSize := congrArg Region.poolSize region
  have list : h'.freeList = h.freeList := congrArg Region.freeList region
  have limit : h'.limit = h.limit := congrArg Region.limit region
  have whole := rep.whole
  simp only [total_append] at whole
  refine ⟨region.trans rep.region, rep.apart, ?_, ?_, ?_, list ▸ rep.nodup, ?_, list ▸ rep.listed, ?_⟩
  · rw [limit, start]
    refine rep.laid.replaceAt (described h) same ?_ ?_ middle
    · intro a y c found outside holds
      refine holds.frame region (others _ (rep.spots y c found) ?_)
      lia
    · rintro r rest rfl holds
      have found := rep.spots (total (L ++ M)) r at_middle
      rw [total_append, ← Nat.add_assoc] at found
      obtain ⟨magic, pool, next, prev⟩ := border _ found rfl
      refine ⟨magic.trans holds.magic, ?_, ?_, prev, holds.large, holds.aligned⟩
      · rw [pool, holds.pool, region]
      · rw [next, holds.next, region]
  · simp only [total_append]
    lia
  · rw [list]
    exact rep.circle.frame (fun z here => ⟨(links z (rep.listed z here)).1, (links z (rep.listed z here)).2⟩)
  · intro y c found
    rw [start]
    rcases found.replace same.symm with ⟨z, rfl, inside⟩ | outside
    · rw [← Nat.add_assoc]
      exact spots z c inside
    · exact rep.spots y c outside
  · intro a away
    rw [off a away, rep.only a away]

theorem build (rep : Rep S h₀ h (L ++ [c] ++ d :: R) frees) (parts : a + b = c.size)
    (low : rtMemheapSize ≤ a) (high : rtMemheapSize ≤ b) (aligned : a % 4 = 0)
    (isX : x = h₀.startAddr + total L) (isY : y = x + a) (new : S y) :
    Rep S h₀ (h.buildItem x y) (L ++ [⟨a, c.used⟩, ⟨b, false⟩] ++ d :: R) frees := by
  subst isY
  have holds := rep.header isX
  rw [← rep.start] at isX
  have rep' : Rep S h₀ h (L ++ c :: d :: R) frees := by simpa using rep
  have next := rep'.next_eq
  have here := rep'.spot
  have behind := rep'.spot_behind
  have last := (show Rep S h₀ h ((L ++ [c]) ++ d :: R) frees by simpa using rep).large.1
  have whole := rep'.size_le
  simp only [total] at whole
  rw [← isX] at next here behind
  rw [← next] at behind
  have fresh : x ≠ x + a ∧ x + a ≠ h.next x ∧ h.next x ≠ x := by
    unfold rtMemheapSize at *
    lia
  have reads := fun z spot => buildItem_reads (z := z) rep.apart here new behind fresh spot
  unfold rtMemheapSize at *
  apply rep.replace
  · simp [total, parts]
  · rfl
  · exact fun z spot => (reads z spot).1
  · exact fun a off => buildItem_off rep.apart here new behind fresh off
  · rintro y e (⟨rfl, _⟩ | ⟨y, rfl, ⟨rfl, _⟩ | ⟨_, _, none⟩⟩)
    · rwa [← isX]
    · rwa [← isX, Nat.add_zero]
    · exact absurd none (by simp [At])
  · intro z spot outside
    obtain ⟨_, magic, pool, next', prev⟩ := reads z spot
    simp only [total, ← isX, Nat.add_zero] at outside
    refine ⟨?_, ?_, ?_, ?_⟩
    · rw [magic, if_neg (by lia)]
    · rw [pool, if_neg (by lia)]
    · rw [next', if_neg (by lia), if_neg (by lia)]
    · rw [prev, if_neg (by lia), if_neg (by lia)]
  · intro z spot place
    obtain ⟨_, magic, pool, next', prev⟩ := reads z spot
    simp only [total, ← isX, Nat.add_zero] at place
    refine ⟨?_, ?_, ?_, ?_⟩
    · rw [magic, if_neg (by lia)]
    · rw [pool, if_neg (by lia)]
    · rw [next', if_neg (by lia), if_neg (by lia)]
    · rw [prev, if_pos (by lia)]
      simp [lastStart, isX]
  · obtain ⟨_, magic, pool, next', prev⟩ := reads x here
    obtain ⟨_, magic', pool', next'', prev'⟩ := reads (x + a) new
    have limit : (h.buildItem x (x + a)).limit = h.limit := rfl
    have inside : x + c.size < h.limit := by
      unfold Region.limit
      lia
    rw [← isX]
    refine ⟨⟨?_, ?_, ?_, ?_, low, aligned⟩, ⟨?_, ?_, ?_, ?_, high, ?_⟩, trivial⟩
    · rw [magic, if_neg (by lia), holds.magic]
    · rw [pool, if_neg (by lia), holds.pool]
      rfl
    · rw [next', if_pos rfl, Region.behind_eq (by simp only; lia)]
    · rw [prev, if_neg (by lia), if_neg (by lia), holds.prev]
      rfl
    · rw [magic', if_pos rfl]
      rfl
    · rw [pool', if_pos rfl]
      rfl
    · rw [next'', if_neg (by lia), if_pos rfl, next, Region.behind_eq (by simp only; lia)]
      simp only
      lia
    · rw [prev', if_neg (by lia), if_pos rfl]
    · have multiple := holds.aligned
      simp only
      lia

theorem join {r : Cell} (rep : Rep S h₀ h (L ++ [c, d] ++ r :: R) frees) (isX : x = h₀.startAddr + total L)
    (isY : y = x + c.size) (joined : Joined S h h' x y) :
    Rep S h₀ h' (L ++ [⟨c.size + d.size, c.used⟩] ++ r :: R) frees := by
  subst isY
  have holds := (show Rep S h₀ h (L ++ [c] ++ (d :: r :: R)) frees by simpa using rep).header isX
  rw [← rep.start] at isX
  have rep' : Rep S h₀ h (L ++ c :: d :: r :: R) frees := by simpa using rep
  have second : Rep S h₀ h ((L ++ [c]) ++ d :: r :: R) frees := by simpa using rep
  have third : Rep S h₀ h ((L ++ [c] ++ [d]) ++ r :: R) frees := by simpa using rep
  have here := rep'.spot
  have next := second.next_eq
  have multiple := second.large
  have whole := second.size_le
  have last := third.large.1
  have first := holds.large
  simp only [total, total_append, ← isX, Nat.add_zero, ← Nat.add_assoc] at next whole here
  unfold rtMemheapSize at *
  apply rep.replace
  · simp [total]
  · exact joined.region
  · exact joined.links
  · exact joined.off
  · rintro y e (⟨rfl, _⟩ | ⟨_, _, none⟩)
    · rwa [← isX]
    · exact absurd none (by simp [At])
  · intro z spot outside
    simp only [total, ← isX, Nat.add_zero] at outside
    refine ⟨joined.magic z spot, joined.pool z spot, ?_, ?_⟩
    · rw [joined.next z spot, if_neg (by lia)]
    · rw [joined.prev z spot, if_neg (by lia)]
  · intro z spot place
    simp only [total, ← isX, Nat.add_zero] at place
    refine ⟨joined.magic z spot, joined.pool z spot, ?_, ?_⟩
    · rw [joined.next z spot, if_neg (by lia)]
    · rw [joined.prev z spot, if_pos (by lia)]
      simp [lastStart, isX]
  · rw [← isX]
    refine ⟨⟨?_, ?_, ?_, ?_, ?_, ?_⟩, trivial⟩
    · rw [joined.magic x here, holds.magic]
    · rw [joined.pool x here, holds.pool, joined.region]
    · rw [joined.next x here, if_pos rfl, next, joined.region, Region.behind_eq]
      · simp only
        lia
      · unfold Region.limit
        simp only
        lia
    · rw [joined.prev x here, if_neg (by lia), holds.prev]
      rfl
    · simp only
      unfold rtMemheapSize
      lia
    · have aligned := holds.aligned
      simp only
      lia

/-- Two neighbours, not the last. -/
structure Pair (S : Nat → Prop) (h : Memheap) (x y : Nat) (c d : Cell) : Prop where
  first : S x
  second : S y
  third : S (h.next y)
  next : h.next x = y
  prev : h.prev y = x
  next' : h.next y = y + d.size
  large : rtMemheapSize ≤ c.size ∧ rtMemheapSize ≤ d.size

theorem pair {r : Cell} (rep : Rep S h₀ h (L ++ [c, d] ++ r :: R) frees) (isX : x = h₀.startAddr + total L)
    (isY : y = x + c.size) : Pair S h x y c d := by
  have first : Rep S h₀ h (L ++ c :: d :: r :: R) frees := by simpa using rep
  have second : Rep S h₀ h ((L ++ [c]) ++ d :: r :: R) frees := by simpa using rep
  have back := (show Rep S h₀ h ((L ++ [c]) ++ [d] ++ r :: R) frees by simpa using rep).header (x := y)
    (by rw [total_append, isY, isX]; simp [total, Nat.add_assoc]) |>.prev
  have next := first.next_eq
  have next' := second.next_eq
  have here := first.spot
  have there := first.spot_behind
  have behind := second.spot_behind
  simp only [total_append, total, Nat.add_zero, ← Nat.add_assoc, lastStart_snoc, rep.start, ← isX, ← isY] at *
  exact ⟨here, there, next' ▸ behind, next, back, next', first.large.1, second.large.1⟩

section
variable {r : Cell} (rep : Rep S h₀ h (L ++ [c, d] ++ r :: R) frees) (isX : x = h₀.startAddr + total L)
  (isY : y = x + c.size)
include rep isX isY

theorem join_writes (isN : n = h.next y) :
    Rep S h₀ ((h.setPrev n x).setNext x n) (L ++ [⟨c.size + d.size, c.used⟩] ++ r :: R) frees := by
  have pair := rep.pair isX isY
  have large := pair.large
  have next := pair.next'
  unfold rtMemheapSize at large
  subst isN
  exact rep.join isX isY (join_reads rep.apart pair.first pair.second pair.third ⟨by lia, by lia, by lia⟩)

theorem join_right : Rep S h₀ ((h.setPrev (h.next y) x).setNext x ((h.setPrev (h.next y) x).next y))
    (L ++ [⟨c.size + d.size, c.used⟩] ++ r :: R) frees := by
  have pair := rep.pair isX isY
  have apart := rep.apart _ _ pair.second pair.third
  have next := pair.next'
  have large := pair.large
  unfold rtMemheapSize at apart large
  rw [next_setPrev (by lia)]
  exact rep.join_writes isX isY rfl

theorem join_links : Rep S h₀ ((h.setPrev (h.next y) (h.prev y)).setNext
      ((h.setPrev (h.next y) (h.prev y)).prev y) ((h.setPrev (h.next y) (h.prev y)).next y))
    (L ++ [⟨c.size + d.size, c.used⟩] ++ r :: R) frees := by
  have pair := rep.pair isX isY
  have apart := rep.apart _ _ pair.second pair.third
  have next := pair.next'
  have large := pair.large
  unfold rtMemheapSize at apart large
  rw [next_setPrev (by lia), prev_setPrev (by lia), pair.prev]
  exact rep.join_writes isX isY rfl

theorem join_left : Rep S h₀ ((h.setNext (h.prev y) (h.next y)).setPrev ((h.setNext (h.prev y) (h.next y)).next y)
      ((h.setNext (h.prev y) (h.next y)).prev y))
    (L ++ [⟨c.size + d.size, c.used⟩] ++ r :: R) frees := by
  have pair := rep.pair isX isY
  have first := rep.apart _ _ pair.first pair.second
  have second := rep.apart _ _ pair.first pair.third
  have next := pair.next'
  have large := pair.large
  unfold rtMemheapSize at first second large
  rw [pair.prev, next_setNext (by lia), prev_setNext (by lia), pair.prev, setNext_setPrev (by lia)]
  exact rep.join_writes isX isY rfl

end

theorem mark {u : Bool} (rep : Rep S h₀ h (L ++ [c] ++ d :: R) frees) (isX : x = h₀.startAddr + total L) :
    Rep S h₀ (h.setMagic x (magicOf u)) (L ++ [⟨c.size, u⟩] ++ d :: R) frees := by
  have holds := rep.header isX
  rw [← rep.start] at isX
  have here := (show Rep S h₀ h (L ++ c :: d :: R) frees by simpa using rep).spot
  have back := (show Rep S h₀ h (L ++ [c] ++ [d] ++ R) frees by simpa using rep).header rfl |>.prev
  have first := holds.large
  simp only [total_append, total, lastStart_snoc, Nat.add_zero, ← Nat.add_assoc, ← rep.start, ← isX] at back
  rw [← isX] at here
  unfold rtMemheapSize at *
  have reads : ∀ z, S z → (h.setMagic x (magicOf u)).magic z = (if z = x then magicOf u else h.magic z) ∧
      (h.setMagic x (magicOf u)).poolPtr z = h.poolPtr z ∧ (h.setMagic x (magicOf u)).next z = h.next z ∧
      (h.setMagic x (magicOf u)).prev z = h.prev z ∧ SameLinks h (h.setMagic x (magicOf u)) z := by
    intro z spot
    have apart := rep.apart z x spot here
    refine ⟨?_, ?_, ?_, ?_, ?_, ?_⟩ <;>
      simp only [setMagic, magic, poolPtr, Memheap.next, Memheap.prev, nextFree, prevFree, put,
        Function.update_apply, rtMemheapSize] at * <;> grind
  apply rep.replace
  · simp [total]
  · rfl
  · exact fun z spot => (reads z spot).2.2.2.2
  · intro a off
    have away := off x here
    unfold rtMemheapSize at away
    exact Function.update_of_ne (by lia) _ _
  · rintro y e (⟨rfl, _⟩ | ⟨_, _, none⟩)
    · rwa [← isX]
    · exact absurd none (by simp [At])
  · intro z spot outside
    obtain ⟨magic, pool, next, prev, _⟩ := reads z spot
    simp only [total, ← isX, Nat.add_zero] at outside
    exact ⟨by rw [magic, if_neg (by lia)], pool, next, prev⟩
  · intro z spot place
    obtain ⟨magic, pool, next, prev, _⟩ := reads z spot
    simp only [total, ← isX, Nat.add_zero] at place
    refine ⟨by rw [magic, if_neg (by lia)], pool, next, ?_⟩
    rw [prev, place, back]
    simp [lastStart, isX]
  · obtain ⟨magic, pool, next, prev, _⟩ := reads x here
    rw [← isX]
    exact ⟨⟨by rw [magic, if_pos rfl], by rw [pool, holds.pool]; rfl, by rw [next, holds.next]; rfl,
      by rw [prev, holds.prev]; rfl, holds.large, holds.aligned⟩, trivial⟩

theorem unlink (rep : Rep S h₀ h cells frees) (here : x ∈ frees) :
    Rep S h₀ (h.unlinkFree x) cells (frees.erase x) := by
  obtain ⟨before, behind, _, _⟩ := rep.circle.neighbours here
  obtain ⟨ne, other⟩ := rep.circle.neighbours_ne rep.nodup here
  have spot := rep.listed x (List.mem_cons_of_mem _ here)
  have spot' := rep.listed _ before
  have spot'' := rep.listed _ behind
  have reads := fun z inS => unlinkFree_reads (z := z) rep.apart spot spot' spot'' other inS
  have fresh := List.nodup_cons.mp rep.nodup
  have sub : ∀ z ∈ h.freeList :: frees.erase x, z ∈ h.freeList :: frees := by
    intro z inside
    exact (List.mem_cons.mp inside).elim (fun head => head ▸ List.mem_cons_self)
      (fun later => List.mem_cons_of_mem _ (List.mem_of_mem_erase later))
  refine ⟨rep.region, rep.apart, ?_, rep.whole, ?_, ?_, rep.spots, fun z inside => rep.listed z (sub z inside), ?_⟩
  · exact rep.laid.frameAt (fun a y c found holds => holds.frame rfl (reads _ (rep.spots y c found)).1)
  · apply rep.circle.remove rep.nodup here
    · rw [(reads _ spot').2.1, if_pos rfl]
    · rw [(reads _ spot'').2.2, if_pos rfl]
    · intro y inside _ apart
      rw [(reads y (rep.listed y inside)).2.1, if_neg apart]
    · intro y inside _ apart
      rw [(reads y (rep.listed y inside)).2.2, if_neg apart]
  · exact List.nodup_cons.mpr ⟨fun inside => fresh.1 (List.mem_of_mem_erase inside), fresh.2.erase x⟩
  · exact fun a off => (unlinkFree_off rep.apart spot spot' spot'' other off).trans (rep.only a off)

theorem insert (rep : Rep S h₀ h cells frees) (spot : S x) (new : x ∉ h₀.freeList :: frees) :
    Rep S h₀ (h.insertFree x) cells (x :: frees) := by
  rw [← rep.list] at new
  obtain ⟨first, _⟩ := rep.circle.first_mem
  have head := rep.listed _ List.mem_cons_self
  have spot' := rep.listed _ first
  have notHead : x ≠ h.freeList := by
    rintro rfl
    exact new List.mem_cons_self
  have notFirst : x ≠ h.nextFree h.freeList := by
    rintro rfl
    exact new first
  have reads := fun z inS => insertFree_reads (z := z) rep.apart spot head spot' ⟨notHead, notFirst⟩ inS
  have fresh := List.nodup_cons.mp rep.nodup
  have apart : ∀ y ∈ h.freeList :: frees, y ≠ x := fun y inside same => new (same ▸ inside)
  refine ⟨rep.region, rep.apart, ?_, rep.whole, ?_, ?_, rep.spots, ?_, ?_⟩
  · exact rep.laid.frameAt (fun a y c found holds => holds.frame rfl (reads _ (rep.spots y c found)).1)
  · apply rep.circle.insert rep.nodup
    · constructor
      · rw [(reads _ head).2.1, if_pos rfl]
      · rw [(reads _ spot).2.2, if_neg notFirst, if_pos rfl]
    · constructor
      · rw [(reads _ spot).2.1, if_neg notHead, if_pos rfl]
      · rw [(reads _ spot').2.2, if_pos rfl]
    · intro y inside
      have notHead' : y ≠ h.freeList := by
        rintro rfl
        exact fresh.1 inside
      rw [(reads y (rep.listed y (List.mem_cons_of_mem _ inside))).2.1, if_neg notHead',
        if_neg (apart y (List.mem_cons_of_mem _ inside))]
    · intro y inside notFirst'
      rw [(reads y (rep.listed y inside)).2.2, if_neg notFirst', if_neg (apart y inside)]
  · refine List.nodup_cons.mpr ⟨?_, List.nodup_cons.mpr ⟨fun inside => new (List.mem_cons_of_mem _ inside), fresh.2⟩⟩
    intro inside
    exact (List.mem_cons.mp inside).elim (fun same => notHead same.symm) fresh.1
  · intro z inside
    rcases List.mem_cons.mp inside with rfl | later
    · exact head
    · exact (List.mem_cons.mp later).elim (fun same => same ▸ spot)
        (fun old => rep.listed z (List.mem_cons_of_mem _ old))
  · exact fun a off => (insertFree_off rep.apart spot head spot' ⟨notHead, notFirst⟩ off).trans (rep.only a off)

theorem clear (rep : Rep S h₀ h cells frees) (spot : S x) (new : x ∉ h₀.freeList :: frees) :
    Rep S h₀ ((h.setNextFree x 0).setPrevFree x 0) cells frees := by
  rw [← rep.list] at new
  have apart : ∀ y ∈ h.freeList :: frees, y ≠ x := fun y inside same => new (same ▸ inside)
  have reads : ∀ z, S z → SameItem h ((h.setNextFree x 0).setPrevFree x 0) z ∧
      (z ≠ x → SameLinks h ((h.setNextFree x 0).setPrevFree x 0) z) := by
    intro z inS
    have overlap := rep.apart z x inS spot
    refine ⟨⟨?_, ?_, ?_, ?_⟩, fun other => ⟨?_, ?_⟩⟩ <;>
      simp only [setNextFree, setPrevFree, magic, poolPtr, Memheap.next, Memheap.prev, nextFree, prevFree, put,
        Function.update_apply, rtMemheapSize] at * <;> grind
  refine ⟨rep.region, rep.apart, ?_, rep.whole, ?_, rep.nodup, rep.spots, rep.listed, ?_⟩
  · exact rep.laid.frameAt (fun a y c found holds => holds.frame rfl (reads _ (rep.spots y c found)).1)
  · apply rep.circle.frame
    intro y inside
    have links := (reads y (rep.listed y inside)).2 (apart y inside)
    exact ⟨links.nextFree, links.prevFree⟩
  · intro a off
    have away := off x spot
    rw [← rep.only a off]
    simp only [setNextFree, setPrevFree, put, rtMemheapSize] at *
    rw [Function.update_of_ne (by lia), Function.update_of_ne (by lia)]

theorem widen (rep : Rep S h₀ h cells frees) (apart : Spots S') (sub : ∀ z, S z → S' z) :
    Rep S' h₀ h cells frees :=
  ⟨rep.region, apart, rep.laid, rep.whole, rep.circle, rep.nodup, fun y c found => sub _ (rep.spots y c found),
    fun z here => sub z (rep.listed z here), fun a off => rep.only a (fun z here => off z (sub z here))⟩

theorem room (rep : Rep S h₀ h cells frees) (region : h'.toRegion = h.toRegion) (mem : h'.mem = h.mem) :
    Rep S h₀ h' cells frees := by
  obtain ⟨g, _, _, _⟩ := h
  obtain ⟨g', _, _, _⟩ := h'
  simp only at region mem
  subst region mem
  refine ⟨rep.region, rep.apart, ?_, rep.whole, rep.circle, rep.nodup, rep.spots, rep.listed, rep.only⟩
  exact rep.laid.frameAt (fun a y c _ holds => holds.frame rfl ⟨rfl, rfl, rfl, rfl⟩)

theorem takeRoom (rep : Rep S h₀ h cells frees) (n : Nat) : Rep S h₀ (h.takeRoom n) cells frees := by
  cases h
  exact rep.room rfl rfl

theorem setRoom (rep : Rep S h₀ h cells frees) (n : Nat) : Rep S h₀ { h with availableSize := n } cells frees := by
  cases h
  exact rep.room rfl rfl

theorem giveRoom (rep : Rep S h₀ h cells frees) (n : Nat) : Rep S h₀ (h.giveRoom n) cells frees := by
  cases h
  exact rep.room rfl rfl

end Rep

/-- Where the items of a heap lie. -/
def ItemSpots (g : Region) (cells : List Cell) (z : Nat) : Prop :=
  z = g.freeList ∨ ∃ y c, At cells y c ∧ z = g.startAddr + y

/-- The pool does not wrap around, and the control block lies outside of it. -/
structure Placed (g : Region) : Prop where
  bound : g.limit < 2 ^ 32
  aligned : g.startAddr % 4 = 0
  outside : g.freeList + rtMemheapSize ≤ g.startAddr ∨ g.limit ≤ g.freeList

structure Sound (h : Memheap) (cells : List Cell) : Prop where
  lists : ∃ frees, Rep (ItemSpots h.toRegion cells) h h cells frees ∧ frees.Perm (freeStarts h.startAddr cells)
  apart : NoTwoFree cells
  counted : h.availableSize = freeRoom rtMemheapSize cells
  last : cells.getLast? = some ⟨rtMemheapSize, true⟩
  placed : Placed h.toRegion

/-- The blocks in use, but for the one at `skip`, stay where they are, with their data. -/
structure Kept (h h' : Memheap) (cells cells' : List Cell) (skip : Option Nat) : Prop where
  region : h'.toRegion = h.toRegion
  blocks : ∀ y c, At cells y c → c.used = true → some y ≠ skip → At cells' y c
  data : ∀ y c, At cells y c → c.used = true → some y ≠ skip → ∀ a, h.startAddr + y + rtMemheapSize ≤ a →
    a < h.startAddr + y + c.size → h'.mem a = h.mem a

namespace Rep

theorem off_data (rep : Rep S h₀ h cells frees) (placed : Placed h.toRegion) (found : At cells x c)
    (low : h.startAddr + x + rtMemheapSize ≤ a) (high : a < h.startAddr + x + c.size) :
    Off (ItemSpots h.toRegion cells) a := by
  have inside := found.le
  have whole := rep.whole
  have outside := placed.outside
  unfold Region.limit at outside
  rintro z (rfl | ⟨y, d, found', rfl⟩)
  · lia
  · obtain ⟨_, holds⟩ := rep.laid.found found'
    have large := holds.large
    rcases found.apart found' with ⟨rfl, _⟩ | before | after <;> lia

theorem items_apart (rep : Rep S h₀ h cells frees) (placed : Placed h.toRegion) :
    Spots (ItemSpots h.toRegion cells) := by
  have whole := rep.whole
  have outside := placed.outside
  unfold Region.limit at outside
  have large : ∀ y c, At cells y c → rtMemheapSize ≤ c.size := by
    intro y c found
    obtain ⟨_, holds⟩ := rep.laid.found found
    exact holds.large
  rintro y z (rfl | ⟨x, c, found, rfl⟩) (rfl | ⟨x', d, found', rfl⟩)
  · exact Or.inl rfl
  · have inside := found'.le
    have first := large _ _ found'
    lia
  · have inside := found.le
    have first := large _ _ found
    lia
  · have first := large _ _ found
    have second := large _ _ found'
    rcases found.apart found' with ⟨rfl, _⟩ | before | after <;> lia

theorem new_apart (rep : Rep S h₀ h cells frees) (placed : Placed h.toRegion) (found : At cells x c)
    (low : x + rtMemheapSize ≤ y) (high : y + rtMemheapSize ≤ x + c.size) :
    Spots (fun z => ItemSpots h.toRegion cells z ∨ z = h.startAddr + y) := by
  have apart := rep.items_apart placed
  have whole := rep.whole
  have inside := found.le
  have outside := placed.outside
  unfold Region.limit at outside
  have new : ∀ z, ItemSpots h.toRegion cells z →
      z + rtMemheapSize ≤ h.startAddr + y ∨ h.startAddr + y + rtMemheapSize ≤ z := by
    rintro z (rfl | ⟨x', d, found', rfl⟩)
    · lia
    · obtain ⟨_, holds⟩ := rep.laid.found found'
      have large := holds.large
      rcases found.apart found' with ⟨rfl, _⟩ | before | after <;> lia
  rintro z z' (item | rfl) (item' | rfl)
  · exact apart z z' item item'
  · exact Or.inr (new z item)
  · exact Or.inr (new z' item').symm
  · exact Or.inl rfl

/-- Besides the items of the start, one in a cell that was free, or is skipped, may have
been written. -/
theorem kept {cells' : List Cell} {skip : Option Nat} (rep : Rep S h h' cells' frees')
    (old : Rep S' h₀ h cells frees) (placed : Placed h.toRegion)
    (blocks : ∀ y c, At cells y c → c.used = true → some y ≠ skip → At cells' y c)
    (written : ∀ z, S z → ItemSpots h.toRegion cells z ∨ ∃ x c, At cells x c ∧ h.startAddr + x ≤ z ∧
      z + rtMemheapSize ≤ h.startAddr + x + c.size ∧ (c.used = false ∨ skip = some x)) :
    Kept h h' cells cells' skip := by
  refine ⟨rep.region, blocks, ?_⟩
  intro y e found used other a below above
  apply rep.only a
  intro z spot
  rcases written z spot with item | ⟨x, c, place, low, high, replaced⟩
  · exact old.off_data placed found below above z item
  · rcases place.apart found with ⟨rfl, rfl⟩ | before | after
    · rcases replaced with free | rfl
      · exact absurd used (by simp [free])
      · exact absurd rfl other
    · right
      lia
    · left
      lia

theorem not_head (rep : Rep S h₀ h cells frees) (placed : Placed h.toRegion) (found : At cells x c)
    (high : y < x + c.size) : h.startAddr + y ≠ h.freeList := by
  have inside := found.le
  have whole := rep.whole
  have outside := placed.outside
  unfold Region.limit rtMemheapSize at outside
  lia

theorem new_gone (rep : Rep S h₀ h cells frees) (perm : frees.Perm (freeStarts h.startAddr cells))
    (placed : Placed h.toRegion) (found : At cells x c) (low : x < y) (high : y < x + c.size) :
    h.startAddr + y ∉ h.freeList :: frees := by
  intro here
  rcases List.mem_cons.mp here with head | free
  · exact rep.not_head placed found high head
  · obtain ⟨z, d, found', _, place⟩ := mem_freeStarts.mp (perm.mem_iff.mp free)
    obtain ⟨_, holds⟩ := rep.laid.found found'
    have large := described h _ _ _ holds
    rcases found.apart found' with ⟨rfl, _⟩ | before | after <;> lia

theorem settle (rep : Rep S h₀ h cells frees) (perm : frees.Perm (freeStarts h₀.startAddr cells))
    (placed : Placed h₀.toRegion) : Rep (ItemSpots h.toRegion cells) h h cells frees := by
  rw [← rep.start] at perm
  rw [← rep.region] at placed
  refine ⟨rfl, rep.items_apart placed, rep.laid, rep.whole, rep.circle, rep.nodup, ?_, ?_, fun _ _ => rfl⟩
  · exact fun y c found => Or.inr ⟨y, c, found, rfl⟩
  · intro z here
    rcases List.mem_cons.mp here with rfl | free
    · exact Or.inl rfl
    · obtain ⟨y, c, found, _, place⟩ := mem_freeStarts.mp (perm.mem_iff.mp free)
      exact Or.inr ⟨y, c, found, place⟩

theorem sound (rep : Rep S h₀ h cells frees) (perm : frees.Perm (freeStarts h₀.startAddr cells))
    (apart : NoTwoFree cells) (counted : h.availableSize = freeRoom rtMemheapSize cells)
    (last : cells.getLast? = some ⟨rtMemheapSize, true⟩) (placed : Placed h₀.toRegion) : Sound h cells :=
  ⟨⟨frees, rep.settle perm placed, rep.start ▸ perm⟩, apart, counted, last, rep.region ▸ placed⟩

end Rep

/-- The free items besides `n` bytes in the middle. -/
def freeBeside (p : Nat) (L : List Cell) (n : Nat) (R : List Cell) : List Nat :=
  freeStarts p L ++ freeStarts (p + total L + n) R

theorem freeStarts_middle (same : total M = n) : (freeStarts p (L ++ M ++ R)).Perm
    (freeStarts (p + total L) M ++ freeBeside p L n R) := by
  rw [freeStarts_append, freeStarts_append, total_append, ← Nat.add_assoc, same, freeBeside, ← List.append_assoc]
  exact List.perm_append_comm.append_right _

theorem freeBeside_used (used : c.used = true) : freeBeside p (L ++ [c]) n R = freeBeside p L (c.size + n) R := by
  simp [freeBeside, freeStarts_append, freeStarts, used, total, Nat.add_assoc]

theorem freeStarts_cut : (freeStarts p (L ++ [⟨a, true⟩, ⟨b, false⟩] ++ R)).Perm
    ((p + total L + a) :: freeBeside p L (a + b) R) := by
  simpa [freeStarts, total] using
    freeStarts_middle (p := p) (L := L) (M := [⟨a, true⟩, ⟨b, false⟩]) (R := R) (n := a + b) (by simp [total])

/-- The free item in the middle, and the others. -/
structure FreeAt (h : Memheap) (L : List Cell) (c : Cell) (R : List Cell) (frees : List Nat) : Prop where
  rep : Rep (ItemSpots h.toRegion (L ++ [c] ++ R)) h h (L ++ [c] ++ R) frees
  perm : frees.Perm (freeStarts h.startAddr (L ++ [c] ++ R))
  here : h.startAddr + total L ∈ frees
  gone : h.startAddr + total L ∉ h.freeList :: frees.erase (h.startAddr + total L)
  beside : (frees.erase (h.startAddr + total L)).Perm (freeBeside h.startAddr L c.size R)

theorem Sound.freeAt (sound : Sound h (L ++ [c] ++ R)) (free : c.used = false) : ∃ frees, FreeAt h L c R frees := by
  obtain ⟨frees, rep, perm⟩ := sound.lists
  have first : frees.Perm ((h.startAddr + total L) :: freeBeside h.startAddr L c.size R) := by
    simpa [freeStarts, free] using perm.trans (freeStarts_middle (n := c.size) (by simp [total]))
  have here := first.mem_iff.mpr List.mem_cons_self
  have nodup := List.nodup_cons.mp rep.nodup
  refine ⟨frees, rep, perm, here, ?_, by simpa using first.erase (h.startAddr + total L)⟩
  rintro inside
  rcases List.mem_cons.mp inside with same | later
  · exact nodup.1 (same ▸ here)
  · exact nodup.2.not_mem_erase later

theorem sub32_eq (le : b ≤ a) (small : a < 2 ^ 32) : sub32 a b = a - b := by
  unfold sub32
  lia

section
variable {m : Nat}

section
variable {next prev nextFree prevFree : Nat}

theorem setItem_self : (h.setItem x m next prev nextFree prevFree).mem x = m ∧
    (h.setItem x m next prev nextFree prevFree).mem (x + 4) = h.self ∧
    (h.setItem x m next prev nextFree prevFree).mem (x + 8) = next ∧
    (h.setItem x m next prev nextFree prevFree).mem (x + 12) = prev ∧
    (h.setItem x m next prev nextFree prevFree).mem (x + 16) = nextFree ∧
    (h.setItem x m next prev nextFree prevFree).mem (x + 20) = prevFree := by
  simp [setItem, setMagic, setPoolPtr, setNext, setPrev, setNextFree, setPrevFree, put]

theorem setItem_region : (h.setItem x m next prev nextFree prevFree).toRegion = h.toRegion := rfl

theorem setItem_off (off : a < x ∨ x + 24 ≤ a) : (h.setItem x m next prev nextFree prevFree).mem a = h.mem a := by
  simp (disch := omega) only [setItem, setMagic, setPoolPtr, setNext, setPrev, setNextFree, setPrevFree, put,
    Function.update_of_ne]

end

/-- What rt_memheap_init writes, `t` being the address of the tailer. -/
theorem init_reads {mem : Nat → Nat} {f b t : Nat} (apart : f + 24 ≤ b ∨ t + 24 ≤ f) (behind : b + 24 ≤ t)
    (avail : sub32 (rtAlignDown size) (2 * rtMemheapSize) = n) (place : b + n + rtMemheapSize = t)
    (result : rtMemheapInit mem m f b size = h) :
    Circle h.nextFree h.prevFree f [b] ∧
      (h.magic b = rtMemheapMagic ∧ h.poolPtr b = m ∧ h.next b = t ∧ h.prev b = t) ∧
      h.magic t = rtMemheapMagic ||| rtMemheapUsed ∧ h.poolPtr t = m ∧ h.next t = b ∧ h.prev t = b := by
  unfold rtMemheapInit at result
  simp only [avail, place] at result
  have next : ∀ k : Memheap, (k.setNext b t).next b = t := fun _ => Function.update_self ..
  simp only [next] at result
  subst result
  simp (disch := omega) only [setItem_self, setItem_region, setItem_off, setNext, setPrev, setNextFree,
    setPrevFree, put, insertFree, magic, poolPtr, Memheap.next, Memheap.prev, nextFree, prevFree,
    Linked.Circle, Linked.Path, Function.update_of_ne, Function.update_self, and_self]

theorem init_static {mem : Nat → Nat} {f b : Nat} (result : rtMemheapInit mem m f b size = h) :
    h.toRegion = ⟨m, b, rtAlignDown size, f⟩ ∧ h.availableSize = sub32 (rtAlignDown size) (2 * rtMemheapSize) := by
  subst result
  exact ⟨rfl, rfl⟩

theorem spots_start {f b t : Nat} (first : b + rtMemheapSize ≤ t)
    (outside : f + rtMemheapSize ≤ b ∨ t + rtMemheapSize ≤ f) :
    Spots (fun z => z = f ∨ z = b ∨ z = t) := by
  rintro y z (rfl | rfl | rfl) (rfl | rfl | rfl) <;> lia

theorem init_sound {mem : Nat → Nat} {f b : Nat} (aligned : b % rtAlignSize = 0)
    (large : 2 * rtMemheapSize < rtAlignDown size) (bound : b + rtAlignDown size < 2 ^ 32)
    (outside : f + rtMemheapSize ≤ b ∨ b + rtAlignDown size ≤ f)
    (result : rtMemheapInit mem m f b size = h) :
    Sound h [⟨rtAlignDown size - rtMemheapSize, false⟩, ⟨rtMemheapSize, true⟩] := by
  obtain ⟨region, available⟩ := init_static result
  obtain ⟨P, isP⟩ : ∃ P, P = rtAlignDown size := ⟨_, rfl⟩
  have multiple : P % 4 = 0 := by
    unfold rtAlignDown rtAlignSize at isP
    lia
  rw [← isP] at region available large bound outside ⊢
  have width : rtMemheapSize = 24 := rfl
  -- The size of the free block and the place of the tailer, without a subtraction.
  obtain ⟨n, rfl⟩ : ∃ n, P = n + 48 := ⟨P - 48, by lia⟩
  have room : sub32 (n + 48) (2 * rtMemheapSize) = n := (sub32_eq (by lia) (by lia)).trans (by lia)
  obtain ⟨circle, ⟨magic, pool, next, prev⟩, magic', pool', next', prev'⟩ :=
    init_reads (t := b + n + 24) (n := n) (by lia) (by lia) (isP ▸ room) (by lia) result
  clear isP
  have start : h.startAddr = b := congrArg Region.startAddr region
  have whole : h.poolSize = n + 48 := congrArg Region.poolSize region
  have list : h.freeList = f := congrArg Region.freeList region
  have self : h.self = m := congrArg Region.self region
  have limit : h.limit = b + (n + 48) := by
    unfold Region.limit
    rw [start, whole]
  have rep : Rep (fun z => z = f ∨ z = b ∨ z = b + n + 24) h h
      [⟨n + 24, false⟩, ⟨rtMemheapSize, true⟩] [b] := by
    refine ⟨rfl, ?_, ?_, ?_, list ▸ circle, ?_, ?_, ?_, fun _ _ => rfl⟩
    · exact spots_start (by lia) outside
    · rw [limit, start, width, show b + (n + 48) - 24 = b + n + 24 from rfl]
      refine ⟨⟨magic, pool.trans self.symm, ?_, prev, ?_, ?_⟩, ⟨?_, ?_, ?_, ?_, ?_, ?_⟩, trivial⟩
      · rw [next, Region.behind_eq]
        · simp only
          lia
        · simp only
          lia
      · simp only
        lia
      · simp only
        lia
      · exact magic'
      · exact pool'.trans self.symm
      · refine next'.trans ?_
        rw [Region.behind, if_pos (by simp only; lia), start]
      · exact prev'
      · exact Nat.le_refl _
      · rfl
    · simp only [total]
      lia
    · simp only [List.nodup_cons, List.mem_singleton, List.not_mem_nil, not_false_eq_true, List.nodup_nil, and_self,
        and_true]
      rintro rfl
      rcases outside with low | high
      · lia
      · lia
    · rintro y c (⟨rfl, rfl⟩ | ⟨y, rfl, ⟨rfl, rfl⟩ | ⟨_, _, none⟩⟩)
      · simp [start]
      · right
        right
        simp only [start]
        lia
      · exact absurd none (by simp [At])
    · intro z here
      simp only [List.mem_cons, List.not_mem_nil, or_false, list] at here
      exact here.imp_right Or.inl
  rw [show n + 48 - rtMemheapSize = n + 24 from rfl]
  apply rep.sound
  · simp [freeStarts, start]
  · simp [NoTwoFree]
  · rw [available, room]
    simp only [freeRoom, Bool.false_eq_true, if_false, if_true]
    lia
  · rfl
  · refine ⟨by lia, ?_, ?_⟩
    · rw [start]
      exact aligned
    · rw [list, start, limit]
      exact outside

end

end RtThread.MemHeap

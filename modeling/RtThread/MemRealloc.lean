import RtThread.MemCalls

/-! rt_realloc with every size. Besides the heap that it leaves, where it writes headers: never
over data that is still to be copied or has been. -/
namespace RtThread.MemCalls
open Transition Tiling
open Mem hiding Repr

/-- No header is written behind `a` and before `b`. -/
def Spares (h h' : Heap) (a b : Nat) : Prop := ∀ y, h'.mem y ≠ h.mem y → y ≤ a ∨ b ≤ y

def Holds (h : Heap) (q size : Nat) : Prop :=
  ∃ x, q = userPtr h x ∧ Block h x ∧ (h.mem x).used = true ∧ x + sizeofStructMem + size ≤ (h.mem x).next

def headerOf (h : Heap) (p : Nat) : Nat := p - h.heapPtr - sizeofStructMem

/-- What a caller of rt_realloc relies on: nothing happens if it fails, and a block large enough
with the old contents if it does not; `m` is the heap from which they are copied. -/
structure Reallocated (old : Heap) (p newsize : Nat) (h : Heap) (q : Nat) : Prop where
  failed : q = 0 → h = old
  large : q ≠ 0 → Holds h q newsize
  copied : q ≠ 0 → ∀ i < min (dataSize old p) newsize, h.data (q + i) = old.data (p + i)
  spared : q ≠ 0 → ∃ m,
    Spares old m (headerOf old p) (headerOf old p + sizeofStructMem + min (dataSize old p) newsize) ∧
    Spares m h (headerOf h q) (headerOf h q + sizeofStructMem + min (dataSize old p) newsize)
  shrinks : newsize ≤ dataSize old p → q ≠ 0

/-- The size is not wrapped to 0, and if the block is to become a little smaller there is another
one for it. -/
def Resizable (h : Heap) (p newsize : Nat) : Prop :=
  Mem.rtAlign newsize ≠ 0 ∧ (newsize ≤ dataSize h p → Mem.rtAlign newsize = dataSize h p ∨
    Mem.rtAlign newsize + sizeofStructMem + minSize < dataSize h p ∨
    ∃ x, Lowest h (blockSize newsize) x ∧ x + blockSize newsize < h.memSizeAligned)

variable {h h' m : Heap} {L R cells cells' : List Cell} {c d e : Cell} {w x y p q n size ptr ptr2 : Nat} {s : State}

theorem Spares.trans {a b : Nat} (first : Spares h m a b) (second : Spares m h' a b) : Spares h h' a b := by
  intro y changed
  by_cases same : h'.mem y = m.mem y
  · exact first y (same ▸ changed)
  · exact second y same

theorem Spares.part {a b k : Nat} (spares : Spares h h' a b) (within : k ≤ b) : Spares h h' a k :=
  fun y changed => (spares y changed).imp_right (Nat.le_trans within)

theorem splitBlock_writes (changed : (splitBlock h ptr ptr2).mem y ≠ h.mem y) :
    y = ptr ∨ y = ptr2 ∨ y = (h.mem ptr).next := by
  by_contra others
  simp only [not_or] at others
  obtain ⟨first, second, third⟩ := others
  apply changed
  unfold splitBlock Heap.setMem
  by_cases atEnd : (h.mem ptr).next ≠ h.memSizeAligned + sizeofStructMem <;> simp [atEnd, first, second, third]

theorem splitBlock_data (h : Heap) (ptr ptr2 : Nat) : (splitBlock h ptr ptr2).data = h.data := by
  unfold splitBlock Heap.setMem
  by_cases atEnd : (h.mem ptr).next ≠ h.memSizeAligned + sizeofStructMem <;> simp [atEnd]

theorem claimBlock_writes (changed : (claimBlock h ptr size).mem y ≠ h.mem y) : y = ptr ∨
    (y = ptr + sizeofStructMem + size ∧
      size + sizeofStructMem + minSizeAligned ≤ Mem.sub32 (h.mem ptr).next (ptr + sizeofStructMem)) ∨
    y = (h.mem ptr).next := by
  by_cases self : y = ptr
  · exact Or.inl self
  · right
    by_cases larger : size + sizeofStructMem + minSizeAligned ≤ Mem.sub32 (h.mem ptr).next (ptr + sizeofStructMem)
    · rw [claimBlock_split larger] at changed
      simp only [Heap.setMem, addUsed, Function.update_of_ne self] at changed
      rcases splitBlock_writes changed with here | here | here
      · exact absurd here self
      · exact Or.inl ⟨here, larger⟩
      · exact Or.inr here
    · rw [claimBlock_whole larger] at changed
      simp only [Heap.setMem, addUsed, Function.update_of_ne self] at changed
      exact absurd rfl changed

theorem setMem_data (h : Heap) (x : Nat) (f : HeapMem → HeapMem) : (h.setMem x f).data = h.data := rfl

theorem addUsed_data (h : Heap) (n : Nat) : (addUsed h n).data = h.data := rfl

theorem claimBlock_data (h : Heap) (ptr size : Nat) : (claimBlock h ptr size).data = h.data := by
  by_cases larger : size + sizeofStructMem + minSizeAligned ≤ Mem.sub32 (h.mem ptr).next (ptr + sizeofStructMem)
  · rw [claimBlock_split larger, setMem_data, addUsed_data, splitBlock_data]
  · rw [claimBlock_whole larger, setMem_data, addUsed_data]

theorem plugForward_writes (changed : (plugForward h x).mem y ≠ h.mem y) :
    (h.mem (h.mem x).next).used = false ∧ (h.mem x).next ≠ h.heapEnd ∧
      (y = x ∨ y = (h.mem (h.mem x).next).next) := by
  simp only [plugForward] at changed
  split at changed
  · rename_i joins
    refine ⟨joins.2.1, joins.2.2, ?_⟩
    by_cases self : y = x
    · exact Or.inl self
    · right
      have away : (h.mem x).next ≠ x := Ne.symm joins.1
      simp only [Heap.setMem, Function.update_of_ne away] at changed
      by_contra other
      rw [Function.update_of_ne other, Function.update_of_ne self] at changed
      exact changed rfl
  · exact absurd rfl changed

theorem plugBackward_writes (changed : (plugBackward h x).mem y ≠ h.mem y) :
    (h.mem x).prev ≠ x ∧ (y = (h.mem x).prev ∨ y = (h.mem x).next) := by
  simp only [plugBackward] at changed
  split at changed
  · rename_i joins
    refine ⟨joins.1, ?_⟩
    by_cases first : y = (h.mem x).prev
    · exact Or.inl first
    · right
      have away : x ≠ (h.mem x).prev := Ne.symm joins.1
      simp only [Heap.setMem, Function.update_of_ne away] at changed
      by_contra other
      rw [Function.update_of_ne other, Function.update_of_ne first] at changed
      exact changed rfl
  · exact absurd rfl changed

theorem plugForward_static (h : Heap) (x : Nat) :
    (plugForward h x).data = h.data ∧ (plugForward h x).usedMem = h.usedMem := by
  simp only [plugForward, Heap.setMem]
  split <;> exact ⟨rfl, rfl⟩

theorem plugBackward_static (h : Heap) (x : Nat) :
    (plugBackward h x).data = h.data ∧ (plugBackward h x).usedMem = h.usedMem := by
  simp only [plugBackward, Heap.setMem]
  split <;> exact ⟨rfl, rfl⟩

theorem plugHoles_static (plugged : plugHoles h x = some h') : h'.data = h.data ∧ h'.usedMem = h.usedMem := by
  obtain ⟨data, used⟩ := plugForward_static h x
  obtain ⟨data', used'⟩ := plugBackward_static (plugForward h x) x
  unfold plugHoles at plugged
  split at plugged
  · cases Option.some.inj plugged
    exact ⟨data'.trans data, used'.trans used⟩
  · cases plugged

/-- plug_holes writes where blocks begin or end. -/
theorem plugHoles_spares (shape : Shape h (L ++ [c] ++ R)) (plugged : plugHoles h (total L) = some h')
    (found : At (L ++ [c] ++ R) w e) : Spares h h' w (w + e.size) := by
  obtain ⟨header, large, _, ends⟩ := shape.header
  have here : At (L ++ [c] ++ R) (total L) c := by
    rw [List.append_assoc]
    exact at_middle
  have next : (h.mem (total L)).next = total L + c.size := by rw [header]
  have behind : (h.mem (total L)).next ≠ h.heapEnd →
      ∃ d, At (L ++ [c] ++ R) (total L + c.size) d ∧
        (h.mem (h.mem (total L)).next).next = total L + c.size + d.size := by
    intro inside
    rcases shape.behind with ⟨_, atEnd, _⟩ | ⟨d, R', rfl, _, beyond, _⟩
    · exact absurd (next.trans atEnd) inside
    · have there : At (L ++ [c] ++ d :: R') (total (L ++ [c])) d := at_middle
      exact ⟨d, by simpa [total] using there, by rw [next, beyond]⟩
  have forward : Spares h (plugForward h (total L)) w (w + e.size) := by
    intro y changed
    obtain ⟨_, inside, rfl | rfl⟩ := plugForward_writes changed
    · exact border_start here w e found
    · obtain ⟨d, there, beyond⟩ := behind inside
      rw [beyond]
      exact border_end there w e found
  have kept : ((plugForward h (total L)).mem (total L)).prev = (h.mem (total L)).prev ∧
      (((plugForward h (total L)).mem (total L)).next = total L + c.size ∨
        ∃ d, At (L ++ [c] ++ R) (total L + c.size) d ∧
          ((plugForward h (total L)).mem (total L)).next = total L + c.size + d.size) := by
    simp only [plugForward]
    split
    · rename_i joins
      obtain ⟨d, there, beyond⟩ := behind joins.2.2
      have away : (h.mem (total L)).next ≠ total L := Ne.symm joins.1
      have positive := shape.positive_at there
      have other : total L ≠ total L + c.size + d.size := by lia
      simp only [Heap.setMem, Function.update_of_ne away, beyond, Function.update_of_ne other, Function.update_self]
      exact ⟨trivial, Or.inr ⟨d, there, rfl⟩⟩
    · exact ⟨rfl, Or.inl next⟩
  unfold plugHoles at plugged
  split at plugged
  · cases Option.some.inj plugged
    refine forward.trans ?_
    intro y changed
    obtain ⟨moved, rfl | rfl⟩ := plugBackward_writes changed
    · rw [kept.1] at moved ⊢
      rw [header] at moved ⊢
      rcases List.eq_nil_or_concat L with rfl | ⟨L, b, rfl⟩
      · exact absurd rfl moved
      · simp only [List.concat_eq_append] at *
        rw [lastStart_snoc, Nat.zero_add]
        refine border_start (c := b) ?_ w e found
        rw [List.append_assoc, List.append_assoc]
        exact at_middle
    · rcases kept.2 with same | ⟨d, there, further⟩
      · rw [same]
        exact border_end here w e found
      · rw [further]
        exact border_end there w e found
  · cases plugged

theorem updateFree_frame (updated : updateFree h x = some h') : h'.mem = h.mem ∧ h'.data = h.data := by
  unfold updateFree at updated
  split at updated
  · obtain ⟨y, _, rfl⟩ := Option.map_eq_some_iff.mp updated
    exact ⟨rfl, rfl⟩
  · cases Option.some.inj updated
    exact ⟨rfl, rfl⟩

/-- The block that rt_malloc returns is the one that it has claimed. -/
theorem rtMalloc_claimed (result : rtMalloc h size = some (h', p)) (nonzero : p ≠ 0) :
    ∃ ptr, p = h'.heapPtr + ptr + sizeofStructMem ∧ h'.mem = (claimBlock h ptr (blockSize size)).mem ∧
      h'.data = h.data := by
  simp only [rtMalloc] at result
  split at result
  · cases Option.some.inj result
    exact absurd rfl nonzero
  split at result
  · cases Option.some.inj result
    exact absurd rfl nonzero
  rw [← blockSize] at result
  split at result
  · cases result
  · cases Option.some.inj result
    exact absurd rfl nonzero
  · rename_i ptr _
    obtain ⟨m, updated, checked⟩ := Option.bind_eq_some_iff.mp result
    obtain ⟨mem, data⟩ := updateFree_frame updated
    split at checked
    · cases Option.some.inj checked
      exact ⟨ptr, rfl, mem, data.trans (claimBlock_data h ptr _)⟩
    · cases checked

/-- rt_malloc writes no header over the blocks in use, nor over the bytes that it returns. -/
theorem rtMalloc_spares (shape : Shape h cells) (found : At cells x c) (free : c.used = false)
    (large : blockSize size + sizeofStructMem ≤ c.size) (region : SameRegion h h')
    (result : rtMalloc h size = some (h', userPtr h x)) : h'.data = h.data ∧
      Spares h h' x (x + sizeofStructMem + blockSize size) ∧
      ∀ w e, At cells w e → e.used = true → Spares h h' w (w + e.size) := by
  obtain ⟨ptr, same, mem, data⟩ := rtMalloc_claimed result (by simp [userPtr, sizeofStructMem])
  have here : ptr = x := by
    rw [region.heapPtr] at same
    unfold userPtr at same
    lia
  subst here
  obtain ⟨a, header, big, _⟩ := shape.laid.found found
  have next : (h.mem ptr).next = ptr + c.size := by
    rw [Nat.zero_add] at header
    rw [header]
  have inside := found.le
  have whole := shape.whole
  have bound := shape.bound
  unfold sizeofStructMem at *
  have extent : Mem.sub32 (ptr + c.size) (ptr + 12) = c.size - 12 := by
    rw [sub32_eq (by lia) (by lia)]
    lia
  have writes : ∀ y, h'.mem y ≠ h.mem y → y = ptr ∨ y = ptr + 12 + blockSize size ∨ y = ptr + c.size := by
    intro y changed
    rw [mem] at changed
    rcases claimBlock_writes changed with here | ⟨here, _⟩ | here
    · exact Or.inl here
    · exact Or.inr (Or.inl here)
    · exact Or.inr (Or.inr (here.trans next))
  refine ⟨data, ?_, ?_⟩
  · intro y changed
    rcases writes y changed with rfl | rfl | rfl <;> lia
  · intro w e there used y changed
    have place := writes y changed
    rcases found.apart there with ⟨_, rfl⟩ | before | after
    · rw [free] at used
      cases used
    · lia
    · lia

/-- rt_free writes headers where blocks begin or end. -/
theorem rtFree_spares (sound : Sound h cells) (found : At cells x c) (used : c.used = true)
    (freed : rtFree h (userPtr h x) = some h') : h'.data = h.data ∧ h'.usedMem = Mem.sub32 h.usedMem c.size ∧
      ∀ w e, At cells w e → Spares h h' w (w + e.size) := by
  obtain ⟨L, R, split, rfl⟩ := found.split
  rw [show L ++ c :: R = L ++ [c] ++ R by simp] at split
  subst split
  rw [rtFree_eq sound used] at freed
  obtain ⟨data, usedMem⟩ := plugHoles_static freed
  refine ⟨data, usedMem, ?_⟩
  intro w e there
  have marked : Spares h (markFree h (total L) c.size) w (w + e.size) := by
    intro y changed
    have here : y = total L := by
      by_contra other
      exact changed (Function.update_of_ne other _ _)
    rw [here]
    exact border_start found w e there
  refine marked.trans ?_
  have shape := (markFree_repr sound used).toShape
  by_cases self : w = total L
  · subst self
    have size : e.size = c.size := by
      have first := sound.positive_at found
      have second := sound.positive_at there
      rcases found.apart there with ⟨_, rfl⟩ | before | after
      · rfl
      · lia
      · lia
    rw [size]
    refine plugHoles_spares shape freed (e := ⟨c.size, false⟩) ?_
    rw [List.append_assoc]
    exact at_middle
  · exact plugHoles_spares shape freed (there.other rfl self)

/-- So does the part of rt_realloc that cuts off the end of a block. -/
theorem shrink_spares {a b : Nat} (sound : Sound h (L ++ [c] ++ R)) (used : c.used = true)
    (parts : a + b = c.size) (first : 16 ≤ a) (second : 16 ≤ b) (aligned : a % 4 = 0)
    (plugged : plugHoles (cutOff h (total L) a b) (total L + a) = some h') :
    h'.data = h.data ∧ Spares h h' (total L) (total L + a) := by
  obtain ⟨repr, _⟩ := cutOff_repr sound used parts first second aligned
  have start : total L + a = total (L ++ [⟨a, true⟩]) := by simp [total]
  have here : At (L ++ [⟨a, true⟩] ++ [⟨b, false⟩] ++ R) (total L) ⟨a, true⟩ := by
    rw [List.append_assoc, List.append_assoc]
    exact at_middle
  have next : (h.mem (total L)).next = total L + c.size := by rw [sound.header.1]
  rw [start] at plugged
  refine ⟨(plugHoles_static plugged).1.trans (splitBlock_data h _ _), Spares.trans (m := cutOff h (total L) a b) ?_
    (plugHoles_spares repr.toShape plugged here)⟩
  intro y changed
  rcases splitBlock_writes changed with rfl | rfl | rfl
  · exact Or.inl (Nat.le_refl _)
  · exact Or.inr (Nat.le_refl _)
  · right
    rw [next]
    lia

theorem Room.holds (shape : Shape h cells) (room : Room cells x size) : Holds h (userPtr h x) size := by
  obtain ⟨c, found, used, large⟩ := room
  obtain ⟨a, header, _⟩ := shape.laid.found found
  rw [Nat.zero_add] at header
  refine ⟨x, rfl, (block_iff shape).mpr ⟨c, found⟩, by rw [header]; exact used, ?_⟩
  rw [header]
  simp only
  lia

theorem headerOf_userPtr (h : Heap) (x : Nat) : headerOf h (userPtr h x) = x := by
  unfold headerOf userPtr
  lia

theorem inPlace_reallocated (shape : Shape h' cells') (region : SameRegion h h') (room : Room cells' x n)
    (data : h'.data = h.data) (spares : Spares h h' x (x + sizeofStructMem + n)) :
    Reallocated h (userPtr h x) n h' (userPtr h x) := by
  have nonzero : userPtr h x ≠ 0 := by simp [userPtr, sizeofStructMem]
  have same : userPtr h' x = userPtr h x := by simp only [userPtr, region.heapPtr]
  refine ⟨fun null => absurd null nonzero, fun _ => same ▸ Room.holds shape room, fun _ i _ => by rw [data],
    fun _ => ⟨h, fun y changed => absurd rfl changed, ?_⟩, fun _ => nonzero⟩
  rw [← same, headerOf_userPtr]
  exact spares.part (by lia)

theorem moved_reallocated {f : Heap} {k : Nat} (sound : Sound h cells) (found : At cells x c) (used : c.used = true)
    (allocated : Allocated h cells m cells' w k) (data : m.data = h.data) (spares : Spares h m x (x + c.size))
    (least : n ≤ size) (fits : size ≤ k)
    (freed : rtFree (rtMemcpy m (userPtr h w) (userPtr h x) (min (c.size - 12) size)) (userPtr h x) = some f) :
    Reallocated h (userPtr h x) n f (userPtr h w) := by
  obtain ⟨soundM, region, keeps, ⟨e, place, free⟩, d, found', used', large⟩ := allocated
  have nonzero : userPtr h w ≠ 0 := by simp [userPtr, sizeofStructMem]
  have other : w ≠ x := by
    rintro rfl
    have first := sound.positive_at found
    have second := sound.positive_at place
    rcases found.apart place with ⟨_, rfl⟩ | before | after
    · rw [free] at used
      cases used
    · lia
    · lia
  obtain ⟨g, isG⟩ : ∃ g, g = rtMemcpy m (userPtr h w) (userPtr h x) (min (c.size - 12) size) := ⟨_, rfl⟩
  have soundG : Sound g cells' := by
    rw [isG]
    exact rtMemcpy_sound soundM _ _ _
  have samePtr : userPtr g x = userPtr h x := by
    rw [isG]
    simp only [userPtr, rtMemcpy, region.heapPtr]
  rw [← isG, ← samePtr] at freed
  obtain ⟨f', cells'', result, soundF, regionF, others⟩ := rtFree_spec soundG (keeps x c found used) used
  rw [freed] at result
  cases Option.some.inj result
  obtain ⟨dataF, _, sparesF⟩ := rtFree_spares soundG (keeps x c found used) used freed
  have samePtr' : userPtr f w = userPtr h w := by
    rw [isG] at regionF
    simp only [userPtr, regionF.heapPtr, rtMemcpy, region.heapPtr]
  obtain ⟨bytes, _⟩ := dataSize_eq sound.toShape found
  unfold sizeofStructMem at bytes large
  refine ⟨fun null => absurd null nonzero, fun _ => ?_, fun _ => ?_, fun _ => ⟨m, ?_, ?_⟩, fun _ => nonzero⟩
  · rw [← samePtr']
    exact Room.holds soundF.toShape ⟨d, others w d found' used' other, used', by unfold sizeofStructMem; lia⟩
  · intro i inside
    rw [bytes] at inside
    rw [dataF, isG]
    simp only [rtMemcpy]
    rw [if_pos (by lia), Nat.add_sub_cancel_left, data]
  · rw [headerOf_userPtr, bytes]
    refine spares.part ?_
    obtain ⟨_, large⟩ := dataSize_eq sound.toShape found
    unfold sizeofStructMem at *
    lia
  · rw [← samePtr', headerOf_userPtr]
    have kept : Spares m f w (w + d.size) := by
      have written := sparesF w d found'
      rw [isG] at written
      exact written
    refine kept.part ?_
    unfold sizeofStructMem
    lia

theorem rtAlign_idem (n : Nat) : Mem.rtAlign (Mem.rtAlign n) = Mem.rtAlign n := by
  unfold Mem.rtAlign
  lia

theorem blockSize_rtAlign (n : Nat) : blockSize (Mem.rtAlign n) = blockSize n := by
  rw [blockSize, rtAlign_idem]
  rfl

theorem nothing_reallocated (h : Heap) (p : Nat) (larger : ¬ n ≤ dataSize h p) : Reallocated h p n h 0 :=
  ⟨fun _ => rfl, fun null => absurd rfl null, fun null => absurd rfl null, fun null => absurd rfl null,
    fun smaller => absurd smaller larger⟩

/-- rt_realloc frees the block if the size is wrapped to 0. -/
theorem wrapped_not_reallocated (sound : Sound h cells) (found : At cells x c) (used : c.used = true)
    (wraps : Mem.rtAlign n = 0) :
    ∃ h', rtRealloc h (userPtr h x) n = some (h', 0) ∧ ¬ Reallocated h (userPtr h x) n h' 0 := by
  obtain ⟨h', cells', freed, _⟩ := rtFree_spec sound found used
  obtain ⟨_, usedMem, _⟩ := rtFree_spares sound found used freed
  refine ⟨h', by simp [rtRealloc, wraps, freed], ?_⟩
  intro done
  rw [done.failed rfl] at usedMem
  obtain ⟨L, R, rfl, rfl⟩ := found.split
  have counted := sound.counted
  have small := sound.toShape.used_lt
  have positive := sound.positive_at found
  simp only [usedTotal_append, usedTotal, used, if_true] at counted small
  rw [sub32_eq (by lia) (by lia)] at usedMem
  lia

/-- The part of rt_realloc that calls rt_malloc. -/
theorem moveBlock_reallocated (sound : Sound h cells) (found : At cells x c) (used : c.used = true)
    (small : n < 2 ^ 32) (some_ : Mem.rtAlign n ≠ 0) (fits : Mem.rtAlign n ≤ h.memSizeAligned) :
    ∃ h' q, moveBlock h (userPtr h x) (c.size - 12) (Mem.rtAlign n) = some (h', q) ∧
      (Reallocated h (userPtr h x) n h' q ↔ (n ≤ dataSize h (userPtr h x) →
        ∃ w, Lowest h (blockSize n) w ∧ w + blockSize n < h.memSizeAligned)) := by
  obtain ⟨least, _⟩ := rtAlign_le small some_
  rcases rtMalloc_cases sound (show 0 < Mem.rtAlign n by lia) (by rwa [rtAlign_idem]) with
    ⟨w, m, cells', taken, low, result, allocated⟩ | ⟨high, result⟩
  · obtain ⟨⟨e, place, free, large⟩, _⟩ := firstFit_some taken
    obtain ⟨data, _, spares⟩ := rtMalloc_spares sound.toShape place free large allocated.region result
    obtain ⟨f, cells'', freed, _⟩ := rtFree_spec
      (rtMemcpy_sound allocated.sound (userPtr h w) (userPtr h x) (min (c.size - 12) (Mem.rtAlign n)))
      (allocated.keeps x c found used) used
    have samePtr : userPtr (rtMemcpy m (userPtr h w) (userPtr h x) (min (c.size - 12) (Mem.rtAlign n))) x =
        userPtr h x := by
      simp only [userPtr, rtMemcpy, allocated.region.heapPtr]
    rw [samePtr] at freed
    have nonzero : userPtr h w ≠ 0 := by simp [userPtr, sizeofStructMem]
    have done := moved_reallocated (n := n) sound found used allocated data (spares x c found used) least
      (by unfold blockSize; rw [rtAlign_idem]; split <;> lia) freed
    refine ⟨f, userPtr h w, by simp [moveBlock, result, nonzero, freed], fun _ _ => ?_, fun _ => done⟩
    rw [blockSize_rtAlign] at taken low
    exact ⟨w, (firstFit_iff sound.toShape).mp taken, low⟩
  · rw [blockSize_rtAlign] at high
    refine ⟨h, 0, by simp [moveBlock, result], ?_⟩
    constructor
    · intro done smaller
      exact absurd rfl (done.shrinks smaller)
    · intro finds
      refine nothing_reallocated h _ ?_
      intro smaller
      obtain ⟨w, lowest, low⟩ := finds smaller
      have above := high w ((firstFit_iff sound.toShape).mpr lowest)
      lia

theorem rtRealloc_reallocated (sound : Sound h cells) (found : At cells x c) (used : c.used = true)
    (small : n < 2 ^ 32) : ∃ h' q, rtRealloc h (userPtr h x) n = some (h', q) ∧
      (Reallocated h (userPtr h x) n h' q ↔ Resizable h (userPtr h x) n) := by
  obtain ⟨bytes, _⟩ := dataSize_eq sound.toShape found
  by_cases wraps : Mem.rtAlign n = 0
  · obtain ⟨h', result, fails⟩ := wrapped_not_reallocated sound found used wraps
    exact ⟨h', 0, result, fun done => absurd done fails, fun sized => absurd wraps sized.1⟩
  obtain ⟨L, R, split, rfl⟩ := found.split
  rw [show L ++ c :: R = L ++ [c] ++ R by simp] at split
  subst split
  obtain ⟨_, large, mod, ends⟩ := sound.header
  obtain ⟨least, noWrap⟩ := rtAlign_le small wraps
  have align := rtAlign_eq noWrap
  have last := sound.last
  unfold sizeofStructMem at last bytes
  have sized : n ≤ dataSize h (userPtr h (total L)) → Mem.rtAlign n + 12 ≤ c.size := by
    rw [bytes]
    lia
  rcases rtRealloc_cases (n := n) sound wraps with
    ⟨beyond, result⟩ | ⟨fits, ⟨same, result⟩ | ⟨smaller, result⟩ | ⟨near, differs, result⟩⟩
  · refine ⟨h, 0, result, fun _ => ⟨wraps, fun inside => ?_⟩, fun _ => nothing_reallocated h _ fun inside => ?_⟩
    · have below := sized inside
      lia
    · have below := sized inside
      lia
  · refine ⟨h, _, result, fun _ => ⟨wraps, fun _ => Or.inl (by lia)⟩, fun _ => ?_⟩
    exact inPlace_reallocated sound.toShape ⟨rfl, rfl, rfl⟩ ⟨c, found, used, by unfold sizeofStructMem; lia⟩ rfl
      (fun y changed => absurd rfl changed)
  · have parts : Mem.rtAlign n + 12 + (c.size - (Mem.rtAlign n + 12)) = c.size := by lia
    obtain ⟨h', cells', plugged, sound', region, _, kept⟩ :=
      shrink_spec sound used parts (by lia) (by lia) (by lia)
    obtain ⟨data, spares⟩ := shrink_spares sound used parts (by lia) (by lia) (by lia) plugged
    rw [plugged, Option.map_some] at result
    refine ⟨h', _, result, fun _ => ⟨wraps, fun _ => Or.inr (Or.inl ?_)⟩, fun _ => ?_⟩
    · unfold sizeofStructMem minSize
      lia
    · exact inPlace_reallocated sound'.toShape region ⟨_, kept, rfl, by simp only [sizeofStructMem]; lia⟩ data
        (spares.part (by unfold sizeofStructMem; lia))
  · have notSame : Mem.rtAlign n ≠ dataSize h (userPtr h (total L)) := by lia
    have notSmaller : ¬ Mem.rtAlign n + sizeofStructMem + minSize < dataSize h (userPtr h (total L)) := by
      unfold sizeofStructMem minSize
      lia
    obtain ⟨h', q, moved, exact_⟩ := moveBlock_reallocated sound found used small wraps fits
    refine ⟨h', q, result.trans moved, exact_.trans ?_⟩
    unfold Resizable
    constructor
    · exact fun finds => ⟨wraps, fun inside => Or.inr (Or.inr (finds inside))⟩
    · rintro ⟨_, finds⟩ inside
      rcases finds inside with same | smaller | found
      · exact absurd same notSame
      · exact absurd smaller notSmaller
      · exact found

/-- rt_realloc of any block in use to any size, but for sizes that wrap to 0 and blocks that are
to become a little smaller when no other block is found. -/
theorem realloc_safe {tr : List Nat} (run : Run machine tr s) (live : s.live p = true) (small : n < 2 ^ 32) :
    ∃ h q, rtRealloc s.heap p n = some (h, q) ∧ (Reallocated s.heap p n h q ↔ Resizable s.heap p n) := by
  rcases run_inv run with tiny | ⟨held, ⟨cells, sound, owned⟩, holds⟩
  · rw [tiny.none p] at live
    cases live
  · rw [holds p] at live
    obtain ⟨m, size⟩ := Option.isSome_iff_exists.mp live
    obtain ⟨x, rfl, c, found, used, _⟩ := owned p m size
    exact rtRealloc_reallocated sound found used small

/-- Block 184 grows and has to move. -/
theorem realloc_safe_grows : ∃ tr s, Run machine tr s ∧ s.live 184 = true ∧ dataSize s.heap 184 = 20 ∧
    ∃ h q, rtRealloc s.heap 184 50 = some (h, q) ∧ Reallocated s.heap 184 50 h q := by
  obtain ⟨h, init⟩ := Option.isSome_iff_exists.mp
    (show (rtSystemHeapInit (fun _ => ⟨0, false, 0, 0⟩) (fun _ => 0) 100 400).isSome by decide)
  have start : machine.start ⟨h, fun _ => false⟩ := ⟨⟨_, _, 100, 400, by decide, by decide, init⟩, fun _ => rfl⟩
  obtain ⟨tr, s, run, found⟩ := Run.reaches start [.malloc 60, .malloc 20, .store 184 3 7, .realloc 112 8]
    (fun s => decide (s.live 184 = true ∧ dataSize s.heap 184 = 20))
    (by cases Option.some.inj init; decide +kernel)
  obtain ⟨live, bytes⟩ := of_decide_eq_true found
  obtain ⟨h, q, result, exact_⟩ := realloc_safe run live (n := 50) (by decide)
  refine ⟨tr, s, run, live, bytes, h, q, result, exact_.mpr ⟨by decide, fun inside => ?_⟩⟩
  rw [bytes] at inside
  exact absurd inside (by decide)

/-- Nearly all of the heap is one block of 72 bytes. Shrinking it to 60 fails, and for a size that
wraps it is freed. -/
theorem realloc_fails : ∃ tr s, Run machine tr s ∧ s.live 112 = true ∧ dataSize s.heap 112 = 72 ∧
    (∃ h, rtRealloc s.heap 112 60 = some (h, 0)) ∧
    ∃ h, rtRealloc s.heap 112 0xffffffff = some (h, 0) ∧ (s.heap.mem 0).used = true ∧ (h.mem 0).used = false := by
  obtain ⟨h, init⟩ := Option.isSome_iff_exists.mp
    (show (rtSystemHeapInit (fun _ => ⟨0, false, 0, 0⟩) (fun _ => 0) 100 224).isSome by decide)
  have start : machine.start ⟨h, fun _ => false⟩ := ⟨⟨_, _, 100, 224, by decide, by decide, init⟩, fun _ => rfl⟩
  obtain ⟨tr, s, run, found⟩ := Run.reaches start [.malloc 72]
    (fun s => decide (s.live 112 = true ∧ dataSize s.heap 112 = 72 ∧ (s.heap.mem 0).used = true) &&
      ((rtRealloc s.heap 112 60).any (fun r : Heap × Nat => decide (r.2 = 0)) &&
        (rtRealloc s.heap 112 0xffffffff).any (fun r : Heap × Nat => decide (r.2 = 0 ∧ (r.1.mem 0).used = false))))
    (by cases Option.some.inj init; decide +kernel)
  obtain ⟨facts, both⟩ := Bool.and_eq_true_iff.mp found
  obtain ⟨near, wrapped⟩ := Bool.and_eq_true_iff.mp both
  obtain ⟨live, bytes, used⟩ := of_decide_eq_true facts
  obtain ⟨⟨h, q⟩, result, null⟩ := (Option.any_eq_true _ _).mp near
  obtain ⟨⟨h', q'⟩, result', freed⟩ := (Option.any_eq_true _ _).mp wrapped
  cases of_decide_eq_true null
  obtain ⟨null', unused⟩ := of_decide_eq_true freed
  cases null'
  exact ⟨tr, s, run, live, bytes, ⟨h, result⟩, h', result', used, unused⟩

end RtThread.MemCalls

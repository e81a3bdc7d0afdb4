import RtThread.MemHeap.Layout

/-! Each call of a memory heap returns a sound heap, and leaves the blocks of others where
they are, with their data. -/
namespace RtThread.MemHeap
open Tiling Linked Memheap

variable {S S' : Nat → Prop} {h h' h₀ : Memheap} {x y z a b n p size : Nat} {L M M' R cells : List Cell}
  {c d : Cell} {frees frees' : List Nat}

theorem isUsed_eq {used : Bool} (magic : h.magic x = magicOf used) : h.isUsed x = used := by
  unfold isUsed
  rw [magic]
  cases used <;> decide

theorem Rep.memitemSize (rep : Rep S h₀ h (L ++ [c] ++ d :: R) frees) (isX : x = h₀.startAddr + total L)
    (placed : Placed h₀.toRegion) : h.memitemSize x = c.size - rtMemheapSize := by
  rw [List.append_assoc, List.singleton_append] at rep
  rw [← rep.region] at placed
  rw [← rep.start] at isX
  subst isX
  have next := rep.next_eq
  have large := rep.large.1
  have whole := rep.size_le
  have bound := placed.bound
  unfold Region.limit at bound
  simp only [total] at whole
  unfold Memheap.memitemSize
  rw [next, sub32_eq (a := h.startAddr + total L + c.size) (by lia) (by lia), sub32_eq (by lia) (by lia)]
  lia

namespace Sound

theorem cons (sound : Sound h (L ++ [c] ++ R)) (other : c.used = false ∨ rtMemheapSize < c.size) :
    ∃ d R', R = d :: R' := by
  cases R with
  | nil =>
    have last := sound.last
    simp only [List.append_nil, List.getLast?_append, List.getLast?_singleton, Option.some_or,
      Option.some.injEq] at last
    subst last
    simp at other
  | cons d R' => exact ⟨d, R', rfl⟩

theorem last_replace (sound : Sound h (L ++ M ++ d :: R)) :
    (L ++ M' ++ d :: R).getLast? = some ⟨rtMemheapSize, true⟩ := by
  have last := sound.last
  rw [List.getLast?_append_cons] at last ⊢
  exact last

theorem available_lt (sound : Sound h cells) : h.availableSize < 2 ^ 32 := by
  obtain ⟨frees, rep, _⟩ := sound.lists
  have bound := sound.placed.bound
  have whole := rep.whole
  have le : freeRoom rtMemheapSize cells ≤ total cells := freeRoom_le
  rw [sound.counted]
  unfold Region.limit at bound
  lia

end Sound

section
variable {fuel headerPtr freeSize : Nat}

theorem searchFree_stop (stop : headerPtr = h.freeList ∨ size ≤ freeSize) :
    searchFree h size fuel headerPtr freeSize = some (headerPtr, freeSize) := by
  unfold searchFree
  exact if_neg (by lia)

theorem searchFree_next (other : headerPtr ≠ h.freeList) (small : freeSize < size) :
    searchFree h size (fuel + 1) headerPtr freeSize = searchFree h size fuel
      (if h.memitemSize headerPtr < size then h.nextFree headerPtr else headerPtr) (h.memitemSize headerPtr) := by
  conv_lhs => unfold searchFree
  exact if_pos ⟨other, small⟩

theorem searchFree_spec (path : Path h.nextFree h.prevFree a frees h.freeList) (fresh : h.freeList ∉ frees)
    (small : freeSize < size) (enough : frees.length ≤ fuel) :
    ∃ r, searchFree h size fuel (h.nextFree a) freeSize = some r ∧
      ((r.2 < size ∧ ∀ y ∈ frees, h.memitemSize y < size) ∨
        r.1 ∈ frees ∧ r.2 = h.memitemSize r.1 ∧ size ≤ r.2) := by
  induction frees generalizing a freeSize fuel with
  | nil =>
    rw [path.1]
    exact ⟨_, searchFree_stop (Or.inl rfl), Or.inl ⟨small, fun y here => absurd here List.not_mem_nil⟩⟩
  | cons b rest ih =>
    obtain ⟨⟨next, _⟩, later⟩ := path
    have other : b ≠ h.freeList := fun same => fresh (by simp [same])
    cases fuel with
    | zero => simp at enough
    | succ fuel =>
      rw [next, searchFree_next other small]
      split
      · rename_i less
        obtain ⟨r, result, outcome⟩ := ih later (fun here => fresh (List.mem_cons_of_mem b here)) less
          (by simpa using enough)
        refine ⟨r, result, outcome.imp ?_ (fun found => ⟨List.mem_cons_of_mem b found.1, found.2⟩)⟩
        rintro ⟨short, all⟩
        exact ⟨short, List.forall_mem_cons.mpr ⟨less, all⟩⟩
      · rename_i large
        exact ⟨_, searchFree_stop (Or.inr (by lia)), Or.inr ⟨by simp, rfl, by simp only; lia⟩⟩

end

theorem setMagic_used (free : h.magic x = magicOf false) :
    h.setMagic x (h.magic x ||| rtMemheapUsed) = h.setMagic x (magicOf true) := by
  have set : magicOf false ||| rtMemheapUsed = magicOf true := by decide
  rw [free, set]

theorem replaced_free (free : c.used = false) (same : total M' = c.size) :
    ∀ y e, At (L ++ [c] ++ R) y e → e.used = true → some y ≠ none → At (L ++ M' ++ R) y e :=
  fun y e found used _ => Keeps.replace (by simp [total, same]) (by simp [free]) y e found used

theorem claim_whole (sound : Sound h (L ++ [c] ++ d :: R)) (free : c.used = false)
    (small : ¬size + rtMemheapSize + rtMemheapMinialloc ≤ c.size - rtMemheapSize)
    (result : claimItem h (h.startAddr + total L) (c.size - rtMemheapSize) size = h') :
    Sound h' (L ++ [⟨c.size, true⟩] ++ d :: R) ∧
      Kept h h' (L ++ [c] ++ d :: R) (L ++ [⟨c.size, true⟩] ++ d :: R) none := by
  obtain ⟨frees, rep, perm, here, gone, beside⟩ := sound.freeAt free
  have spot := rep.listed _ (List.mem_cons_of_mem _ here)
  have rep' := ((rep.takeRoom (c.size - rtMemheapSize)).unlink here).clear spot gone
  have magic := (rep'.header rfl).magic
  rw [free] at magic
  unfold claimItem at result
  rw [if_neg small] at result
  simp only at result
  rw [setMagic_used magic] at result
  have rep'' := rep'.mark (u := true) rfl
  rw [result] at rep''
  constructor
  · apply rep''.sound
    · refine beside.trans (List.Perm.trans ?_ (freeStarts_middle rfl).symm)
      simp [freeStarts, total]
    · exact (sound.apart.claim free).1
    · have counted := sound.counted
      have available := sound.available_lt
      simp only [freeRoom_append, freeRoom, free, Bool.false_eq_true, if_false, if_true] at counted ⊢
      simp only [← result, setMagic_size, setPrevFree_size, setNextFree_size, unlinkFree_size, takeRoom_size]
      rw [sub32_eq (by lia) available]
      lia
    · exact sound.last_replace
    · exact sound.placed
  · exact rep''.kept rep sound.placed (replaced_free free (by simp [total])) (fun z spot => Or.inl spot)

theorem claim_part (sound : Sound h (L ++ [c] ++ d :: R)) (free : c.used = false) (aligned : size % 4 = 0)
    (large : size + rtMemheapSize + rtMemheapMinialloc ≤ c.size - rtMemheapSize)
    (parts : size + rtMemheapSize + b = c.size)
    (result : claimItem h (h.startAddr + total L) (c.size - rtMemheapSize) size = h') :
    Sound h' (L ++ [⟨size + rtMemheapSize, true⟩, ⟨b, false⟩] ++ d :: R) ∧
      Kept h h' (L ++ [c] ++ d :: R) (L ++ [⟨size + rtMemheapSize, true⟩, ⟨b, false⟩] ++ d :: R) none := by
  obtain ⟨frees, rep, perm, here, gone, beside⟩ := sound.freeAt free
  have found : At (L ++ [c] ++ d :: R) (total L) c := by simpa using at_middle (L := L) (c := c) (R := d :: R)
  have positive := rep.laid.forall_mem (described h)
  have multiple := (rep.header rfl).aligned
  obtain ⟨x, isX⟩ : ∃ x, x = h.startAddr + total L := ⟨_, rfl⟩
  obtain ⟨y, isY⟩ : ∃ y, y = x + size + rtMemheapSize := ⟨_, rfl⟩
  have place : y = h.startAddr + (total L + (size + rtMemheapSize)) := by lia
  have width : rtMemheapSize = 24 := rfl
  have least : rtMemheapMinialloc = 12 := rfl
  have spots := rep.new_apart sound.placed found (y := total L + (size + rtMemheapSize)) (by lia) (by lia)
  have new := rep.new_gone perm sound.placed found (y := total L + (size + rtMemheapSize)) (by lia) (by lia)
  rw [← place] at spots new
  rw [← isX] at here gone beside result
  have wide := rep.widen spots (fun z item => Or.inl item)
  have built := wide.build (b := b) (by omega) (by omega) (by omega) (by omega) isX (by omega) (Or.inr rfl)
  have out := (built.unlink here).clear (wide.listed x (List.mem_cons_of_mem _ here)) gone
  have new' : y ∉ h.freeList :: frees.erase x := by
    intro inside
    exact (List.mem_cons.mp inside).elim (fun head => new (head ▸ List.mem_cons_self))
      (fun later => new (List.mem_cons_of_mem _ (List.mem_of_mem_erase later)))
  have ins := (out.insert (Or.inr rfl) new').takeRoom (size + rtMemheapSize)
  have both (u : Bool) : L ++ [⟨size + rtMemheapSize, u⟩, ⟨b, false⟩] ++ d :: R =
      L ++ [⟨size + rtMemheapSize, u⟩] ++ ⟨b, false⟩ :: d :: R := by simp
  rw [both] at ins
  have magic := (ins.header isX).magic
  rw [free] at magic
  have marked := ins.mark (u := true) isX
  unfold claimItem at result
  rw [if_pos large] at result
  simp only [← isY] at result
  rw [setMagic_used magic] at result
  rw [result, ← both] at marked
  constructor
  · apply marked.sound
    · refine List.Perm.trans ?_ freeStarts_cut.symm
      rw [parts, Nat.add_assoc, ← place]
      exact beside.cons y
    · exact (sound.apart.claim free).2 b
    · have counted := sound.counted
      have available := sound.available_lt
      simp only [freeRoom_append, freeRoom, free, Bool.false_eq_true, if_false, if_true] at counted ⊢
      simp only [← result, setMagic_size, takeRoom_size, insertFree_size, setPrevFree_size, setNextFree_size,
        unlinkFree_size, buildItem_size]
      rw [sub32_eq (by lia) available]
      lia
    · exact sound.last_replace
    · exact sound.placed
  · refine marked.kept rep sound.placed (replaced_free free (by simp [total]; lia)) ?_
    rintro z (item | rfl)
    · exact Or.inl item
    · exact Or.inr ⟨total L, c, found, by lia, by lia, Or.inl free⟩

def userPtr (g : Region) (x : Nat) : Nat := g.startAddr + x + rtMemheapSize

/-- A block in use at `x` with room for `size` bytes. -/
def Room (cells : List Cell) (x size : Nat) : Prop :=
  ∃ c, At cells x c ∧ c.used = true ∧ rtMemheapSize < c.size ∧ size + rtMemheapSize ≤ c.size

/-- The block at `x` was free and is now in use, with room for `size` bytes. -/
def Taken (cells cells' : List Cell) (x size : Nat) : Prop :=
  (∃ e, At cells x e ∧ e.used = false) ∧ Room cells' x size

theorem Room.mono (room : Room cells x n) (le : size ≤ n) : Room cells x size := by
  obtain ⟨c, found, used, wide, large⟩ := room
  exact ⟨c, found, used, wide, by lia⟩

theorem itemRequest_spec (request : size + 3 < 2 ^ 32) : size ≤ itemRequest size ∧ itemRequest size ≤ size + 12 ∧
    itemRequest size + 3 < 2 ^ 32 ∧ itemRequest size % 4 = 0 ∧ rtMemheapMinialloc ≤ itemRequest size := by
  have align : rtAlign size = (size + 3) / 4 * 4 := by
    unfold rtAlign rtAlignSize
    lia
  unfold itemRequest rtMemheapMinialloc
  simp only [align]
  split <;> lia

theorem claimItem_spec (sound : Sound h (L ++ [c] ++ R)) (free : c.used = false)
    (least : rtMemheapMinialloc ≤ size) (aligned : size % 4 = 0) (fits : size + rtMemheapSize ≤ c.size)
    (result : claimItem h (h.startAddr + total L) (c.size - rtMemheapSize) size = h') :
    ∃ cells', Sound h' cells' ∧ Kept h h' (L ++ [c] ++ R) cells' none ∧
      Taken (L ++ [c] ++ R) cells' (total L) size := by
  obtain ⟨d, R, rfl⟩ := sound.cons (Or.inl free)
  have found : At (L ++ [c] ++ d :: R) (total L) c := by simpa using at_middle (L := L) (c := c) (R := d :: R)
  have width : rtMemheapSize = 24 := rfl
  have positive : rtMemheapMinialloc = 12 := rfl
  by_cases large : size + rtMemheapSize + rtMemheapMinialloc ≤ c.size - rtMemheapSize
  · obtain ⟨b, parts⟩ : ∃ b, size + rtMemheapSize + b = c.size := ⟨c.size - (size + rtMemheapSize), by lia⟩
    obtain ⟨sound', kept⟩ := claim_part sound free aligned large parts result
    refine ⟨_, sound', kept, ⟨c, found, free⟩, ⟨size + rtMemheapSize, true⟩, ?_, rfl, by simp only; lia,
      Nat.le_refl _⟩
    rw [List.append_assoc]
    exact at_middle
  · obtain ⟨sound', kept⟩ := claim_whole sound free large result
    refine ⟨_, sound', kept, ⟨c, found, free⟩, ⟨c.size, true⟩, ?_, rfl, by simp only; lia, fits⟩
    rw [List.append_assoc]
    exact at_middle

theorem Rep.frees_length (rep : Rep S h₀ h cells frees)
    (perm : frees.Perm (freeStarts h.startAddr cells)) : frees.length ≤ h.poolSize := by
  rw [perm.length_eq, ← rep.whole]
  exact freeStarts_length.trans (length_le_total (rep.laid.forall_mem (described h)))

/-- rt_memheap_alloc returns, NULL or the data area of a block that was free. -/
theorem rtMemheapAlloc_spec (sound : Sound h cells) (request : size + 3 < 2 ^ 32) :
    ∃ h' p cells', rtMemheapAlloc h size = some (h', p) ∧ Sound h' cells' ∧ Kept h h' cells cells' none ∧
      (p = 0 ∨ ∃ x, p = userPtr h.toRegion x ∧ Taken cells cells' x size) := by
  obtain ⟨enlarged, _, _, aligned, least⟩ := itemRequest_spec request
  have same : Kept h h cells cells none := ⟨rfl, fun _ _ found _ _ => found, fun _ _ _ _ _ _ _ _ => rfl⟩
  unfold rtMemheapAlloc
  obtain ⟨k, isK⟩ : ∃ k, k = itemRequest size := ⟨_, rfl⟩
  rw [← isK] at enlarged aligned least ⊢
  simp only
  split
  · rename_i below
    obtain ⟨frees, rep, perm⟩ := sound.lists
    obtain ⟨fresh, _⟩ := List.nodup_cons.mp rep.nodup
    have positive : 0 < k := by
      unfold rtMemheapMinialloc at least
      lia
    have enough : frees.length ≤ h.poolSize + 1 := Nat.le_succ_of_le (rep.frees_length perm)
    obtain ⟨r, found, outcome⟩ := searchFree_spec rep.circle fresh positive enough
    rw [found]
    rcases outcome with ⟨less, _⟩ | ⟨listed, measured, large⟩
    · refine ⟨h, 0, cells, ?_, sound, same, Or.inl rfl⟩
      rw [Option.map_some, if_neg (by lia)]
    · obtain ⟨x, c, place, free, isX⟩ := mem_freeStarts.mp (perm.mem_iff.mp listed)
      obtain ⟨L, R, rfl, rfl⟩ := place.split
      have sound' : Sound h (L ++ [c] ++ R) := by simpa using sound
      obtain ⟨d, R, rfl⟩ := sound'.cons (Or.inl free)
      have size := (show Rep _ h h (L ++ [c] ++ d :: R) frees by simpa using rep).memitemSize isX sound.placed
      have wide := rep.large.1
      rw [← measured] at size
      obtain ⟨cells', sound'', kept, taken⟩ := claimItem_spec sound' free least aligned (by lia) rfl
      have both : L ++ [c] ++ d :: R = L ++ c :: d :: R := by simp
      rw [both] at kept taken
      refine ⟨_, userPtr h.toRegion (total L), cells', ?_, sound'', kept,
        Or.inr ⟨total L, rfl, taken.1, taken.2.mono enlarged⟩⟩
      rw [Option.map_some, if_pos large, isX, size]
      rfl
  · exact ⟨h, 0, cells, rfl, sound, same, Or.inl rfl⟩

/-- An item that is being freed: it counts as free, but only `extra` of it is listed. -/
structure Freeing (S : Nat → Prop) (h₀ h : Memheap) (L : List Cell) (c : Cell) (R : List Cell)
    (frees extra : List Nat) : Prop where
  rep : Rep S h₀ h (L ++ [c] ++ R) frees
  free : c.used = false
  counted : h.availableSize = freeRoom rtMemheapSize (L ++ [c] ++ R)
  perm : frees.Perm (extra ++ freeBeside h₀.startAddr L c.size R)
  right : NoTwoFree R
  last : R.getLast? = some ⟨rtMemheapSize, true⟩
  placed : Placed h₀.toRegion

theorem absorb_spec {extra : List Nat} (rep : Rep S h₀ h (L ++ [c] ++ d :: R) frees) (free : c.used = false)
    (free' : d.used = false) (isX : x = h₀.startAddr + total L) (isY : y = x + c.size)
    (perm : frees.Perm (extra ++ freeBeside h₀.startAddr L c.size (d :: R))) (right : NoTwoFree (d :: R))
    (last : (d :: R).getLast? = some ⟨rtMemheapSize, true⟩) :
    Rep S h₀ (h.absorb x y) (L ++ [⟨c.size + d.size, c.used⟩] ++ R) (frees.erase y) ∧
      (frees.erase y).Perm (extra ++ freeBeside h₀.startAddr L (c.size + d.size) R) ∧ NoTwoFree R ∧
      (∀ b ∈ R.head?, b.used = true) ∧ R.getLast? = some ⟨rtMemheapSize, true⟩ ∧
      Keeps (L ++ [c] ++ d :: R) (L ++ [⟨c.size + d.size, c.used⟩] ++ R) := by
  obtain ⟨r, R, rfl⟩ : ∃ r R', R = r :: R' := by
    apply List.exists_cons_of_ne_nil
    rintro rfl
    simp only [List.getLast?_singleton, Option.some.injEq] at last
    simp [last] at free'
  have both : L ++ [c] ++ d :: r :: R = L ++ [c, d] ++ r :: R := by simp
  rw [both] at rep ⊢
  have listed : y ∈ frees := perm.mem_iff.mpr (by simp [freeBeside, freeStarts, free', isY, isX])
  have chain := List.isChain_cons.mp right
  refine ⟨(rep.join_right isX isY).unlink listed, (perm.erase y).trans ?_, chain.2, ?_, ?_,
    Keeps.replace (by simp [total]) (by simp [free, free'])⟩
  · have before : freeBeside h₀.startAddr L c.size (d :: r :: R) =
        freeStarts h₀.startAddr L ++ y :: freeStarts (y + d.size) (r :: R) := by
      rw [freeBeside, freeStarts, if_neg (by simp [free']), ← isX, ← isY]
      rfl
    have after : freeBeside h₀.startAddr L (c.size + d.size) (r :: R) =
        freeStarts h₀.startAddr L ++ freeStarts (y + d.size) (r :: R) := by
      rw [freeBeside, ← isX, ← Nat.add_assoc, ← isY]
    have split : (extra ++ freeBeside h₀.startAddr L c.size (d :: r :: R)).Perm
        (y :: (extra ++ freeBeside h₀.startAddr L (c.size + d.size) (r :: R))) := by
      rw [before, after, ← List.append_assoc, ← List.append_assoc]
      exact List.perm_middle
    simpa using split.erase y
  · intro b inside
    have pair := chain.1 b inside
    simpa [free'] using pair
  · rwa [List.getLast?_cons_cons] at last

theorem Rep.isUsed_next (rep : Rep S h₀ h (L ++ [c] ++ d :: R) frees) (isX : x = h₀.startAddr + total L) :
    h.next x = x + c.size ∧ h.isUsed (h.next x) = d.used := by
  have next := (show Rep S h₀ h (L ++ c :: d :: R) frees by simpa using rep).next_eq
  have header := (show Rep S h₀ h ((L ++ [c]) ++ [d] ++ R) frees by simpa using rep).header rfl
  rw [rep.start, ← isX] at next
  rw [total_append, ← Nat.add_assoc, ← isX] at header
  simp only [total, Nat.add_zero, ← next] at header
  exact ⟨next, isUsed_eq header.magic⟩

theorem mergeRight_spec {extra : List Nat} (freeing : Freeing S h₀ h L c R frees extra)
    (isX : x = h₀.startAddr + total L) :
    ∃ e R' frees', Freeing S h₀ (mergeRight h x) L e R' frees' extra ∧ (∀ b ∈ R'.head?, b.used = true) ∧
      Keeps (L ++ [c] ++ R) (L ++ [e] ++ R') := by
  obtain ⟨rep, free, counted, perm, right, last, placed⟩ := id freeing
  obtain ⟨d, R, rfl⟩ : ∃ d R', R = d :: R' := List.exists_cons_of_ne_nil (by rintro rfl; simp at last)
  obtain ⟨next, flag⟩ := rep.isUsed_next isX
  unfold mergeRight
  cases used : d.used with
  | true =>
    rw [if_pos (flag.trans used)]
    exact ⟨c, d :: R, frees, freeing, by simp [used], fun _ _ found _ => found⟩
  | false =>
    rw [if_neg (by simp [flag, used])]
    obtain ⟨merged, perm', right', behind, last', keeps⟩ :=
      absorb_spec (rep.giveRoom rtMemheapSize) free used isX next perm right last
    have large := (show Rep S h₀ h ((L ++ [c]) ++ d :: R) frees by simpa using rep).large.1
    have large' := (show Rep S h₀ h (L ++ c :: d :: R) frees by simpa using rep).large.1
    have whole := rep.whole
    have bound := placed.bound
    have le : freeRoom rtMemheapSize (L ++ [⟨c.size + d.size, c.used⟩] ++ R) ≤ _ := freeRoom_le
    refine ⟨_, R, _, ⟨merged, free, ?_, perm', right', last', placed⟩, behind, keeps⟩
    simp only [absorb, unlinkFree_size, setNext_size, setPrev_size, giveRoom_size, counted]
    unfold Region.limit at bound
    rw [← rep.region] at bound
    simp only [freeRoom_append, freeRoom, total_append, total, free, used, Bool.false_eq_true, if_false] at *
    lia

theorem mergeLeft_spec {l : Cell} (freeing : Freeing S h₀ h (L ++ [l]) c R frees [])
    (isX : x = h₀.startAddr + total (L ++ [l])) (free : l.used = false) :
    (mergeLeft h x).2 = h₀.startAddr + total L ∧
      Freeing S h₀ (mergeLeft h x).1 L ⟨l.size + c.size, false⟩ R frees [h₀.startAddr + total L] := by
  obtain ⟨rep, free', counted, perm, right, last, placed⟩ := id freeing
  obtain ⟨d, R, rfl⟩ : ∃ d R', R = d :: R' := List.exists_cons_of_ne_nil (by rintro rfl; simp at last)
  have both : L ++ [l] ++ [c] ++ d :: R = L ++ [l, c] ++ d :: R := by simp
  rw [both] at rep
  have isX' : x = h₀.startAddr + total L + l.size := by simpa [total, Nat.add_assoc] using isX
  have pair := rep.pair rfl isX'
  have joined := (rep.giveRoom rtMemheapSize).join_left rfl isX'
  have large := pair.large
  have bound := placed.bound
  rw [free] at joined
  refine ⟨?_, ⟨joined, rfl, ?_, ?_, right, last, placed⟩⟩
  · have first := rep.apart _ _ pair.first pair.second
    have second := rep.apart _ _ pair.first pair.third
    have next := pair.next'
    obtain ⟨k, isK⟩ : ∃ k, k = h.giveRoom rtMemheapSize := ⟨_, rfl⟩
    have prev : k.prev x = h₀.startAddr + total L := isK ▸ pair.prev
    have next' : k.next x = h.next x := isK ▸ rfl
    unfold rtMemheapSize at first second large
    simp only [mergeLeft, ← isK]
    rw [prev, next', next_setNext (by lia), prev_setPrev (by lia), prev_setNext (by lia), prev]
  · have whole := rep.whole
    have region := rep.region
    have le : freeRoom rtMemheapSize (L ++ [⟨l.size + c.size, l.used⟩] ++ d :: R) ≤ _ := freeRoom_le
    simp only [mergeLeft, setNext_size, setPrev_size, giveRoom_size, counted]
    unfold Region.limit at bound
    rw [← region] at bound
    simp only [freeRoom_append, freeRoom, total_append, total, free, free', Bool.false_eq_true, if_false] at *
    lia
  · refine perm.trans ?_
    have before : freeBeside h₀.startAddr (L ++ [l]) c.size (d :: R) = freeStarts h₀.startAddr L ++
        (h₀.startAddr + total L) :: freeStarts (x + c.size) (d :: R) := by
      rw [freeBeside, ← isX, freeStarts_append, freeStarts, if_neg (by simp [free]), List.append_assoc]
      rfl
    rw [before, freeBeside, ← Nat.add_assoc, ← isX']
    exact List.perm_middle

theorem Freeing.sound (freeing : Freeing S h₀ h L c R frees [h₀.startAddr + total L]) (left : NoTwoFree L)
    (before : ∀ a ∈ L.getLast?, a.used = true) (behind : ∀ b ∈ R.head?, b.used = true) :
    Sound h (L ++ [c] ++ R) := by
  apply freeing.rep.sound
  · refine freeing.perm.trans (List.Perm.trans ?_ (freeStarts_middle rfl).symm)
    simp [freeStarts, total, freeing.free]
  · exact noTwoFree_middle.mpr ⟨left, freeing.right, fun a here => Or.inl (before a here),
      fun b here => Or.inr (behind b here)⟩
  · exact freeing.counted
  · have last := freeing.last
    cases R with
    | nil => simp at last
    | cons d R =>
      rw [List.getLast?_append_cons]
      exact last
  · exact freeing.placed

theorem not_mem_freeBeside (positive : ∀ c ∈ L, 0 < c.size) (size : 0 < n) :
    p + total L ∉ freeBeside p L n R := by
  intro here
  rcases List.mem_append.mp here with left | right
  · obtain ⟨y, c, found, _, place⟩ := mem_freeStarts.mp left
    have inside := found.le
    obtain ⟨A, B, rfl, _⟩ := found.split
    have large := positive c (by simp)
    lia
  · obtain ⟨y, c, _, _, place⟩ := mem_freeStarts.mp right
    lia

theorem setMagic_free (used : h.magic x = magicOf true) :
    h.setMagic x (h.magic x &&& rtMemheapMask) = h.setMagic x (magicOf false) := by
  have cleared : magicOf true &&& rtMemheapMask = magicOf false := by decide
  rw [used, cleared]

theorem freeing_start (sound : Sound h (L ++ [c] ++ d :: R)) (used : c.used = true) (isX : x = h.startAddr + total L) :
    ∃ frees, Freeing (ItemSpots h.toRegion (L ++ [c] ++ d :: R)) h ((h.setMagic x (magicOf false)).giveRoom
      (c.size - rtMemheapSize)) L ⟨c.size, false⟩ (d :: R) frees [] := by
  obtain ⟨frees, rep, perm⟩ := sound.lists
  have marked := (rep.mark (u := false) isX).giveRoom (c.size - rtMemheapSize)
  have chain := noTwoFree_middle.mp sound.apart
  refine ⟨frees, ⟨marked, rfl, ?_, ?_, chain.2.1, ?_, sound.placed⟩⟩
  · have whole := rep.whole
    have bound := sound.placed.bound
    have counted := sound.counted
    have le : freeRoom rtMemheapSize (L ++ [⟨c.size, false⟩] ++ d :: R) ≤ _ := freeRoom_le
    unfold Region.limit at bound
    simp only [giveRoom_size, setMagic_size, freeRoom_append, freeRoom, total_append, total, used,
      if_true, Bool.false_eq_true, if_false] at *
    lia
  · refine perm.trans ((freeStarts_middle (n := c.size) (by simp [total])).trans ?_)
    simp [freeStarts, used]
  · have last := sound.last
    rwa [List.getLast?_append_cons] at last

theorem Freeing.isUsed_prev {extra : List Nat} (freeing : Freeing S h₀ h L c R frees extra)
    (isX : x = h₀.startAddr + total L) :
    (h.isUsed (h.prev x) = true ∧ ∀ a ∈ L.getLast?, a.used = true) ∨
      ∃ L' l, L = L' ++ [l] ∧ l.used = false ∧ h.isUsed (h.prev x) = false := by
  have rep := freeing.rep
  have back := (rep.header isX).prev
  rcases List.eq_nil_or_concat L with rfl | ⟨L', l, rfl⟩
  · left
    obtain ⟨body, rfl⟩ := List.getLast?_eq_some_iff.mp freeing.last
    have rep' : Rep S h₀ h ((c :: body) ++ [⟨rtMemheapSize, true⟩] ++ []) frees := by simpa using rep
    have size := rep'.whole
    have flag := isUsed_eq (rep'.header rfl).magic
    rw [List.append_nil, total_append, total] at size
    have place : h.limit - rtMemheapSize = h₀.startAddr + total (c :: body) := by
      unfold Region.limit
      rw [rep.start, ← size]
      simp only [total]
      lia
    simp only [lastStart] at back
    rw [back, place, flag]
    simp
  · simp only [List.concat_eq_append] at *
    have rep' : Rep S h₀ h (L' ++ [l] ++ ([c] ++ R)) frees := by simpa using rep
    rw [lastStart_snoc, rep.start] at back
    have flag := isUsed_eq (rep'.header rfl).magic
    rw [← back] at flag
    cases used : l.used with
    | true => exact Or.inl ⟨flag.trans used, by simp [used]⟩
    | false => exact Or.inr ⟨L', l, rfl, used, flag.trans used⟩

/-- rt_memheap_free merges the item with its free neighbours. -/
theorem releaseItem_spec (sound : Sound h (L ++ [c] ++ R)) (used : c.used = true) (large : rtMemheapSize < c.size)
    (isX : x = h.startAddr + total L) (result : releaseItem h x = h') :
    ∃ cells', Sound h' cells' ∧ Kept h h' (L ++ [c] ++ R) cells' (some (total L)) := by
  obtain ⟨d, R, rfl⟩ := sound.cons (Or.inr large)
  obtain ⟨frees₀, rep₀, _⟩ := sound.lists
  have magic := (rep₀.header isX).magic
  rw [used] at magic
  obtain ⟨frees, freeing⟩ := freeing_start sound used isX
  have size : (h.setMagic x (magicOf false)).memitemSize x = c.size - rtMemheapSize := by
    exact (rep₀.mark (u := false) isX).memitemSize isX sound.placed
  unfold releaseItem at result
  simp only at result
  rw [setMagic_free magic, size] at result
  obtain ⟨k, isK⟩ : ∃ k, k = (h.setMagic x (magicOf false)).giveRoom (c.size - rtMemheapSize) := ⟨_, rfl⟩
  rw [← isK] at freeing result
  have marked : ∀ y e, At (L ++ [c] ++ d :: R) y e → e.used = true → some y ≠ some (total L) →
      At (L ++ [⟨c.size, false⟩] ++ d :: R) y e :=
    fun y e found used other => At.other (by simp [total]) found (by simpa using other)
  have found : At (L ++ [c] ++ d :: R) (total L) c := by simpa using at_middle (L := L) (c := c) (R := d :: R)
  obtain ⟨left, _⟩ := noTwoFree_middle.mp sound.apart
  rcases freeing.isUsed_prev isX with ⟨flag, before⟩ | ⟨L, l, rfl, free, flag⟩
  · rw [if_pos flag] at result
    obtain ⟨e, R', frees', merged, behind, keeps⟩ := mergeRight_spec freeing isX
    have spot := isX ▸ rep₀.spots (total L) c found
    have positive : ∀ a ∈ L, 0 < a.size := by
      intro a here
      exact rep₀.laid.forall_mem (described h) a (by simp [here])
    have new : x ∉ h.freeList :: frees' := by
      rintro here
      rcases List.mem_cons.mp here with head | listed
      · exact rep₀.not_head sound.placed found (y := total L) (by lia) (isX ▸ head)
      · refine not_mem_freeBeside positive ?_ (isX ▸ merged.perm.mem_iff.mp listed)
        have header := merged.rep.header isX
        exact described _ _ _ _ header
    have inserted := merged.rep.insert spot new
    rw [result] at inserted
    have done : Freeing _ h h' L e R' (x :: frees') [h.startAddr + total L] :=
      ⟨inserted, merged.free, by rw [← result, insertFree_size]; exact merged.counted,
        isX ▸ merged.perm.cons x, merged.right, merged.last, merged.placed⟩
    refine ⟨_, done.sound left before behind, inserted.kept rep₀ sound.placed ?_ (fun z item => Or.inl item)⟩
    exact fun y e found used other => keeps y e (marked y e found used other) used
  · rw [if_neg (by simp [flag])] at result
    obtain ⟨place, joined⟩ := mergeLeft_spec freeing isX free
    rw [place] at result
    obtain ⟨e, R', frees', merged, behind, keeps⟩ := mergeRight_spec joined rfl
    rw [result] at merged
    have chain := noTwoFree_middle.mp (show NoTwoFree (L ++ [l] ++ []) by simpa using left)
    refine ⟨_, merged.sound chain.1 ?_ behind, merged.rep.kept rep₀ sound.placed ?_ (fun z item => Or.inl item)⟩
    · intro a here
      simpa [free] using chain.2.2.1 a here
    · intro y a found used other
      apply keeps y a _ used
      have first := marked y a found used other
      have swallowed : Keeps (L ++ [l, ⟨c.size, false⟩] ++ d :: R) (L ++ [⟨l.size + c.size, false⟩] ++ d :: R) :=
        Keeps.replace (by simp [total]) (by simp [free])
      exact swallowed y a (by simpa using first) used

/-- rt_memheap_free of a block in use returns. -/
theorem rtMemheapFree_spec (sound : Sound h cells) (found : At cells x c) (used : c.used = true)
    (large : rtMemheapSize < c.size) :
    ∃ h' cells', rtMemheapFree h (userPtr h.toRegion x) = some h' ∧ Sound h' cells' ∧
      Kept h h' cells cells' (some x) := by
  obtain ⟨L, R, rfl, rfl⟩ := found.split
  have both : L ++ c :: R = L ++ [c] ++ R := by simp
  rw [both] at sound ⊢
  obtain ⟨d, R, rfl⟩ := sound.cons (Or.inr large)
  obtain ⟨frees, rep, _⟩ := sound.lists
  obtain ⟨cells', sound', kept⟩ := releaseItem_spec sound used large rfl rfl
  refine ⟨_, cells', ?_, sound', kept⟩
  have header := rep.header rfl
  have next := (show Rep _ h h (L ++ c :: d :: R) frees by simpa using rep).next_eq
  have behind := (show Rep _ h h ((L ++ [c]) ++ [d] ++ R) frees by simpa using rep).header rfl |>.magic
  simp only [total_append, total, Nat.add_zero, ← Nat.add_assoc] at behind
  have masked : ∀ u, magicOf u &&& rtMemheapMask = rtMemheapMagic := by decide
  have place : userPtr h.toRegion (total L) - rtMemheapSize = h.startAddr + total L := by
    unfold userPtr
    lia
  unfold rtMemheapFree
  simp only [place]
  rw [if_neg (by unfold userPtr rtMemheapSize; lia), if_pos]
  refine ⟨?_, isUsed_eq (header.magic.trans (by rw [used])), ?_, header.pool⟩
  · rw [header.magic]
    exact masked _
  · rw [next, behind]
    exact masked _

/-- The word at `p + i` is now at `q + i`. -/
def Copied (h h' : Memheap) (p q n : Nat) : Prop := ∀ i, i < n → h'.mem (q + i) = h.mem (p + i)

theorem Kept.trans {cells' cells'' : List Cell} {skip : Option Nat} (first : Kept h₀ h cells cells' skip)
    (second : Kept h h' cells' cells'' skip) : Kept h₀ h' cells cells'' skip := by
  have start : h.startAddr = h₀.startAddr := congrArg Region.startAddr first.region
  refine ⟨second.region.trans first.region, ?_, ?_⟩
  · exact fun y e found used other => second.blocks y e (first.blocks y e found used other) used other
  · intro y e found used other a low high
    rw [second.data y e (first.blocks y e found used other) used other a (start ▸ low) (start ▸ high),
      first.data y e found used other a low high]

theorem expandItem_spec (sound : Sound h (L ++ [c, d] ++ R)) (used : c.used = true) (free : d.used = false)
    (isX : x = h.startAddr + total L) (grows : c.size < n + rtMemheapSize) (aligned : n % 4 = 0)
    (parts : n + rtMemheapSize + b = c.size + d.size) (rest : rtMemheapSize ≤ b)
    (result : expandItem h x (c.size - rtMemheapSize) n = h') :
    Sound h' (L ++ [⟨n + rtMemheapSize, true⟩, ⟨b, false⟩] ++ R) ∧
      Kept h h' (L ++ [c, d] ++ R) (L ++ [⟨n + rtMemheapSize, true⟩, ⟨b, false⟩] ++ R) (some (total L)) ∧
      Copied h h' (x + rtMemheapSize) (x + rtMemheapSize) (c.size - rtMemheapSize) := by
  have both : L ++ [c, d] ++ R = (L ++ [c]) ++ [d] ++ R := by simp
  obtain ⟨r, R, rfl⟩ := (both ▸ sound : Sound h ((L ++ [c]) ++ [d] ++ R)).cons (Or.inl free)
  obtain ⟨frees, rep, perm, here, _, beside⟩ := (both ▸ sound : Sound h ((L ++ [c]) ++ [d] ++ r :: R)).freeAt free
  rw [← both] at rep
  obtain ⟨y, isY⟩ : ∃ y, y = x + c.size := ⟨_, rfl⟩
  have place : h.startAddr + total (L ++ [c]) = y := by
    rw [total_append, isY, isX]
    simp [total, Nat.add_assoc]
  rw [place] at here beside
  rw [freeBeside_used used] at beside
  have pair := rep.pair isX isY
  have joined := (((rep.takeRoom (sub32 n (c.size - rtMemheapSize))).unlink here).join_links isX isY)
  obtain ⟨k, isK⟩ : ∃ k, k = ((h.takeRoom (sub32 n (c.size - rtMemheapSize))).unlinkFree y) := ⟨_, rfl⟩
  rw [← isK] at joined
  obtain ⟨m, isM⟩ : ∃ m, m = (k.setPrev (k.next y) (k.prev y)).setNext ((k.setPrev (k.next y) (k.prev y)).prev y)
    ((k.setPrev (k.next y) (k.prev y)).next y) := ⟨_, rfl⟩
  rw [← isM, used] at joined
  have list₁ : (frees.erase y).Perm (freeStarts h.startAddr (L ++ [⟨c.size + d.size, true⟩] ++ r :: R)) := by
    refine beside.trans (List.Perm.trans ?_ (freeStarts_middle rfl).symm)
    simp [freeStarts, total]
  have placed : Placed m.toRegion := joined.region ▸ sound.placed
  have settled := joined.settle list₁ sound.placed
  have start : m.startAddr = h.startAddr := joined.start
  have found : At (L ++ [⟨c.size + d.size, true⟩] ++ r :: R) (total L) ⟨c.size + d.size, true⟩ := by
    simpa using at_middle (L := L) (c := ⟨c.size + d.size, true⟩) (R := r :: R)
  obtain ⟨z, isZ⟩ : ∃ z, z = x + rtMemheapSize + n := ⟨_, rfl⟩
  have place' : z = m.startAddr + (total L + (n + rtMemheapSize)) := by lia
  have width : rtMemheapSize = 24 := rfl
  have large := pair.large
  have spots := settled.new_apart placed found (y := total L + (n + rtMemheapSize)) (by lia) (by simp only; lia)
  have new := settled.new_gone (start ▸ list₁) placed found (y := total L + (n + rtMemheapSize)) (by lia)
    (by simp only; lia)
  rw [← place'] at spots new
  have built := (settled.widen spots (fun z item => Or.inl item)).build (a := n + rtMemheapSize) (b := b) parts
    (by lia) rest (by lia) (start ▸ isX) (by lia) (Or.inr rfl)
  have done := built.insert (Or.inr rfl) new
  unfold expandItem at result
  simp only [pair.next, ← isK, ← isM, ← isZ] at result
  rw [result] at done
  have chain := noTwoFree_middle.mp (both ▸ sound.apart)
  refine ⟨done.sound ?_ ?_ ?_ ?_ placed, Kept.trans (joined.kept rep sound.placed ?_ (fun w item => Or.inl item))
    (done.kept settled placed ?_ ?_), ?_⟩
  · refine List.Perm.trans ?_ freeStarts_cut.symm
    rw [parts, Nat.add_assoc, ← place', start]
    exact beside.cons z
  · refine NoTwoFree.cut (noTwoFree_middle.mp (show NoTwoFree (L ++ [c] ++ []) by simpa using chain.1)).1 chain.2.1 ?_
    intro e inside
    simpa [free] using chain.2.2.2 e inside
  · have counted := sound.counted
    have available := sound.available_lt
    have whole := rep.whole
    have bound := sound.placed.bound
    unfold Region.limit at bound
    simp only [total_append, total, freeRoom_append, freeRoom, used, free, Bool.false_eq_true, if_false, if_true] at *
    simp only [← result, isM, isK, insertFree_size, buildItem_size, setNext_size, setPrev_size, unlinkFree_size,
      takeRoom_size]
    rw [sub32_eq (a := n) (by lia) (by lia), sub32_eq (by lia) available]
    lia
  · rw [List.getLast?_append_cons]
    have last := sound.last
    rwa [List.getLast?_append_cons] at last
  · intro w e at_ inUse other
    have same : total [⟨c.size + d.size, true⟩] = total [c, d] := by simp [total]
    rcases at_.replace same with ⟨v, rfl, ⟨rfl, rfl⟩ | ⟨v, rfl, ⟨rfl, rfl⟩ | ⟨_, _, none⟩⟩⟩ | outside
    · exact absurd rfl other
    · exact absurd inUse (by simp [free])
    · exact absurd none (by simp [At])
    · exact outside
  · intro w e at_ inUse other
    exact At.other (by simp [total, parts]) at_ (by simpa using other)
  · rintro w (item | rfl)
    · exact Or.inl item
    · exact Or.inr ⟨total L, _, found, by lia, by simp only; lia, Or.inr rfl⟩
  · intro i less
    have old : At (L ++ [c, d] ++ r :: R) (total L) c := by simpa using at_middle (L := L) (c := c) (R := d :: r :: R)
    rw [done.only, joined.only]
    · exact rep.off_data sound.placed old (by lia) (by lia)
    · rintro w (item | rfl)
      · exact settled.off_data placed found (by lia) (by simp only; lia) w item
      · left
        lia

/-- A free item behind the one that was cut off is taken in; what it held will be counted
again with this one. -/
theorem mergeCut_spec (rep : Rep S h₀ h (L ++ [c] ++ R) frees) (free : c.used = false)
    (isX : x = h₀.startAddr + total L) (placed : Placed h₀.toRegion)
    (counted : h.availableSize = freeRoom rtMemheapSize L + freeRoom rtMemheapSize R)
    (available : h.availableSize < 2 ^ 32) (perm : frees.Perm (freeBeside h₀.startAddr L c.size R))
    (right : NoTwoFree R) (last : R.getLast? = some ⟨rtMemheapSize, true⟩) :
    ∃ e R' frees', Rep S h₀ (mergeCut h x) (L ++ [e] ++ R') frees' ∧ e.used = false ∧ c.size ≤ e.size ∧
      (mergeCut h x).availableSize = freeRoom rtMemheapSize L + freeRoom rtMemheapSize R' ∧
      frees'.Perm (freeBeside h₀.startAddr L e.size R') ∧ NoTwoFree R' ∧ (∀ b ∈ R'.head?, b.used = true) ∧
      R'.getLast? = some ⟨rtMemheapSize, true⟩ ∧ Keeps (L ++ [c] ++ R) (L ++ [e] ++ R') := by
  obtain ⟨d, R, rfl⟩ : ∃ d R', R = d :: R' := List.exists_cons_of_ne_nil (by rintro rfl; simp at last)
  obtain ⟨next, flag⟩ := rep.isUsed_next isX
  unfold mergeCut
  cases used : d.used with
  | true =>
    rw [if_pos (flag.trans used)]
    exact ⟨c, d :: R, frees, rep, free, Nat.le_refl _, counted, perm, right, by simp [used], last,
      fun _ _ found _ => found⟩
  | false =>
    rw [if_neg (by simp [flag, used])]
    have listed : frees.Perm ([] ++ freeBeside h₀.startAddr L c.size (d :: R)) := perm
    obtain ⟨merged, perm', right', behind, last', keeps⟩ := absorb_spec
      (rep.setRoom (sub32 h.availableSize (h.memitemSize (h.next x)))) free used isX next listed right last
    refine ⟨_, R, _, merged, free, by simp only; lia, ?_, perm', right', behind, last', keeps⟩
    obtain ⟨r, R, rfl⟩ : ∃ r R', R = r :: R' := List.exists_cons_of_ne_nil (by rintro rfl; simp at last')
    have size := (show Rep S h₀ h ((L ++ [c]) ++ [d] ++ r :: R) frees by simpa using rep).memitemSize
      (x := h.next x) (by rw [next, isX, total_append]; simp [total, Nat.add_assoc]) placed
    simp only [absorb, unlinkFree_size, setNext_size, setPrev_size, size]
    simp only [freeRoom, used, Bool.false_eq_true, if_false] at counted ⊢
    rw [sub32_eq (by lia) available]
    lia

theorem shrinkItem_spec (sound : Sound h (L ++ [c] ++ R)) (used : c.used = true)
    (isX : x = h.startAddr + total L) (aligned : n % 4 = 0) (parts : n + rtMemheapSize + b = c.size)
    (rest : rtMemheapSize < b) (result : shrinkItem h x n = h') :
    ∃ b' R', Sound h' (L ++ [⟨n + rtMemheapSize, true⟩, ⟨b', false⟩] ++ R') ∧
      Kept h h' (L ++ [c] ++ R) (L ++ [⟨n + rtMemheapSize, true⟩, ⟨b', false⟩] ++ R') (some (total L)) ∧
      Copied h h' (x + rtMemheapSize) (x + rtMemheapSize) n := by
  obtain ⟨d, R, rfl⟩ := sound.cons (Or.inr (by lia))
  obtain ⟨frees, rep, perm⟩ := sound.lists
  have found : At (L ++ [c] ++ d :: R) (total L) c := by simpa using at_middle (L := L) (c := c) (R := d :: R)
  have placed := sound.placed
  obtain ⟨y, isY⟩ : ∃ y, y = x + n + rtMemheapSize := ⟨_, rfl⟩
  have place : y = h.startAddr + (total L + (n + rtMemheapSize)) := by lia
  have width : rtMemheapSize = 24 := rfl
  have spots := rep.new_apart placed found (y := total L + (n + rtMemheapSize)) (by lia) (by lia)
  have new := rep.new_gone perm placed found (y := total L + (n + rtMemheapSize)) (by lia) (by lia)
  rw [← place] at spots new
  have built := (rep.widen spots (fun z item => Or.inl item)).build (b := b) parts (by lia) (by lia) (by lia)
    isX (by lia) (Or.inr rfl)
  rw [used] at built
  have both (e : Cell) (R : List Cell) : L ++ [⟨n + rtMemheapSize, true⟩, e] ++ R =
      (L ++ [⟨n + rtMemheapSize, true⟩]) ++ [e] ++ R := by simp
  rw [both] at built
  have place' : y = h.startAddr + total (L ++ [⟨n + rtMemheapSize, true⟩]) := by
    rw [place, total_append]
    rfl
  obtain ⟨left, right, _⟩ := noTwoFree_middle.mp sound.apart
  have last := sound.last
  rw [List.getLast?_append_cons] at last
  have counted := sound.counted
  have perm' : frees.Perm (freeBeside h.startAddr (L ++ [⟨n + rtMemheapSize, true⟩]) b (d :: R)) := by
    rw [freeBeside_used rfl]
    refine perm.trans ((freeStarts_middle (n := n + rtMemheapSize + b) (by simp [total, parts])).trans ?_)
    simp [freeStarts, used]
  obtain ⟨e, R', frees', merged, free, wide, counted', perm'', right', behind, last', keeps⟩ :=
    mergeCut_spec built rfl place' placed
      (by simp only [buildItem_size, counted, freeRoom_append, freeRoom, used, if_true])
      sound.available_lt perm' right last
  simp only at wide
  obtain ⟨r, R', rfl⟩ : ∃ r R, R' = r :: R := List.exists_cons_of_ne_nil (by rintro rfl; simp at last')
  have positive : ∀ a ∈ L ++ [⟨n + rtMemheapSize, true⟩], 0 < a.size := by
    intro a here
    exact merged.laid.forall_mem (described _) a (by simp only [List.mem_append] at here ⊢; tauto)
  have gone : y ∉ h.freeList :: frees' := by
    intro here
    rcases List.mem_cons.mp here with head | listed
    · exact new (head ▸ List.mem_cons_self)
    · exact not_mem_freeBeside positive (by lia) (place' ▸ perm''.mem_iff.mp listed)
  have inserted := merged.insert (Or.inr rfl) gone
  have size := inserted.memitemSize place' placed
  have done := inserted.giveRoom (e.size - rtMemheapSize)
  unfold shrinkItem at result
  simp only [← isY, size] at result
  rw [result, ← both] at done
  rw [← both, ← both] at keeps
  have whole : e = ⟨e.size, false⟩ := by
    rw [← free]
  rw [whole] at done keeps
  refine ⟨e.size, r :: R', done.sound ?_ (left.cut right' behind) ?_ ?_ placed, done.kept rep placed ?_ ?_, ?_⟩
  · refine List.Perm.trans ?_ freeStarts_cut.symm
    rw [freeBeside_used rfl] at perm''
    rw [show h.startAddr + total L + (n + rtMemheapSize) = y by lia]
    exact perm''.cons y
  · have available := sound.available_lt
    have total_lt := done.whole
    have bound := placed.bound
    have le : freeRoom rtMemheapSize (L ++ [⟨n + rtMemheapSize, true⟩, ⟨e.size, false⟩] ++ r :: R') ≤ _ := freeRoom_le
    unfold Region.limit at bound
    rw [done.whole, show h'.poolSize = h.poolSize from congrArg Region.poolSize done.region] at le
    rw [← result, giveRoom_size, insertFree_size, counted']
    simp only [freeRoom_append, freeRoom, if_true, Bool.false_eq_true, if_false] at le ⊢
    lia
  · rw [List.getLast?_append_cons]
    exact last'
  · intro w a at_ inUse other
    apply keeps w a _ inUse
    exact At.other (by simp [total, parts]) at_ (by simpa using other)
  · rintro w (item | rfl)
    · exact Or.inl item
    · exact Or.inr ⟨total L, c, found, by lia, by lia, Or.inr rfl⟩
  · intro i less
    rw [done.only]
    rintro w (item | rfl)
    · exact rep.off_data placed found (by lia) (by lia) w item
    · left
      lia

theorem Sound.write {mem : Nat → Nat} (sound : Sound h cells) (found : At cells x c)
    (inside : ∀ a, mem a ≠ h.mem a → h.startAddr + x + rtMemheapSize ≤ a ∧ a < h.startAddr + x + c.size) :
    Sound { h with mem := mem } cells := by
  obtain ⟨frees, rep, perm⟩ := sound.lists
  have same : ∀ z, ItemSpots h.toRegion cells z → ∀ i, i < 24 → mem (z + i) = h.mem (z + i) := by
    intro z item i small
    by_contra other
    obtain ⟨low, high⟩ := inside _ other
    have off := rep.off_data sound.placed found low high z item
    unfold rtMemheapSize at off
    lia
  have items : ∀ z, ItemSpots h.toRegion cells z → SameItem h { h with mem := mem } z ∧
      SameLinks h { h with mem := mem } z := by
    intro z item
    exact ⟨⟨same z item 0 (by lia), same z item 4 (by lia), same z item 8 (by lia), same z item 12 (by lia)⟩,
      same z item 16 (by lia), same z item 20 (by lia)⟩
  refine ⟨⟨frees, ⟨rfl, rep.apart, ?_, rep.whole, ?_, rep.nodup, rep.spots, rep.listed, fun _ _ => rfl⟩, perm⟩,
    sound.apart, sound.counted, sound.last, sound.placed⟩
  · exact rep.laid.frameAt (fun a y c found holds => holds.frame rfl (items _ (rep.spots y c found)).1)
  · apply rep.circle.frame
    intro y here
    have links := (items y (rep.listed y here)).2
    exact ⟨links.nextFree, links.prevFree⟩

theorem write_kept {mem : Nat → Nat} (found : At cells x c)
    (inside : ∀ a, mem a ≠ h.mem a → h.startAddr + x + rtMemheapSize ≤ a ∧ a < h.startAddr + x + c.size) :
    Kept h { h with mem := mem } cells cells (some x) := by
  refine ⟨rfl, fun _ _ found _ _ => found, ?_⟩
  intro y e found' _ other a low high
  by_contra differs
  obtain ⟨low', high'⟩ := inside a differs
  rcases found.apart found' with ⟨rfl, _⟩ | before | after
  · exact other rfl
  · lia
  · lia

/-- What rt_memheap_realloc makes of the block at `x`: it fails, or the block is now at `q`,
in place or where a free one was, long enough and with its contents. -/
def Resized (h h' : Memheap) (cells cells' : List Cell) (x old size q : Nat) : Prop :=
  (q = 0 ∧ Kept h h' cells cells' none) ∨
  (Kept h h' cells cells' (some x) ∧ ∃ x', q = userPtr h.toRegion x' ∧ Room cells' x' size ∧
    (x' = x ∨ ∃ e, At cells x' e ∧ e.used = false) ∧ Copied h h' (userPtr h.toRegion x) q (min old size))

theorem Sound.large (sound : Sound h cells) (found : At cells x c) : rtMemheapSize ≤ c.size := by
  obtain ⟨frees, rep, _⟩ := sound.lists
  obtain ⟨_, holds⟩ := rep.laid.found found
  exact holds.large

theorem Sound.elsewhere (sound : Sound h cells) (found : At cells x c) (used : c.used = true)
    (place : At cells y d) (free : d.used = false) : y ≠ x := by
  rintro rfl
  have first := sound.large found
  have second := sound.large place
  unfold rtMemheapSize at first second
  rcases place.apart found with ⟨_, rfl⟩ | before | after
  · simp [free] at used
  · lia
  · lia

theorem moveItem_spec (sound : Sound h cells) (found : At cells x c) (used : c.used = true)
    (large : rtMemheapSize < c.size) (request : size + 3 < 2 ^ 32) :
    ∃ h' q cells', moveItem h (userPtr h.toRegion x) (c.size - rtMemheapSize) size = some (h', q) ∧ Sound h' cells' ∧
      Resized h h' cells cells' x (c.size - rtMemheapSize) size q := by
  obtain ⟨h₁, q, cells₁, result, sound₁, kept₁, failed | ⟨x', isQ, ⟨e, place, free⟩, room⟩⟩ :=
    rtMemheapAlloc_spec sound request
  · refine ⟨h₁, q, cells₁, ?_, sound₁, Or.inl ⟨failed, kept₁⟩⟩
    simp [moveItem, result, failed]
  · have start : h₁.startAddr = h.startAddr := congrArg Region.startAddr kept₁.region
    obtain ⟨f, found', inUse, wide, enough⟩ := id room
    have old := kept₁.blocks x c found used (by simp)
    have other := sound.elsewhere found used place free
    obtain ⟨m, isM⟩ : ∃ m, m = min (c.size - rtMemheapSize) size := ⟨_, rfl⟩
    obtain ⟨p, isP⟩ : ∃ p, p = userPtr h.toRegion x := ⟨_, rfl⟩
    have pointers : q = h₁.startAddr + x' + rtMemheapSize ∧ p = h₁.startAddr + x + rtMemheapSize := by
      rw [isQ, isP, start]
      exact ⟨rfl, rfl⟩
    obtain ⟨k, isK⟩ : ∃ k, k = rtMemcpy h₁ q p m := ⟨_, rfl⟩
    have inside : ∀ a, k.mem a ≠ h₁.mem a →
        h₁.startAddr + x' + rtMemheapSize ≤ a ∧ a < h₁.startAddr + x' + f.size := by
      intro a differs
      simp only [isK, rtMemcpy] at differs
      split at differs
      · lia
      · exact absurd rfl differs
    have copied : k = { h₁ with mem := k.mem } := by
      rw [isK]
      rfl
    have sound₂ : Sound k cells₁ := copied ▸ sound₁.write found' inside
    have kept₂ : Kept h₁ k cells₁ cells₁ (some x') := copied ▸ write_kept found' inside
    obtain ⟨h₃, cells₃, freed, sound₃, kept₃⟩ := rtMemheapFree_spec sound₂ old used large
    have region : k.toRegion = h.toRegion := kept₂.region.trans kept₁.region
    have positive : q ≠ 0 := by
      unfold rtMemheapSize at pointers
      lia
    refine ⟨h₃, q, cells₃, ?_, sound₃, Or.inr ⟨?_, x', isQ, ?_, Or.inr ⟨e, place, free⟩, ?_⟩⟩
    · rw [region, ← isP] at freed
      simp [moveItem, result, positive, ← isP, ← isM, ← isK, freed]
    · refine ⟨kept₃.region.trans region, ?_, ?_⟩
      · intro y d at_ busy apart
        exact kept₃.blocks y d (kept₁.blocks y d at_ busy (by simp)) busy apart
      · intro y d at_ busy apart a low high
        have at₁ := kept₁.blocks y d at_ busy (by simp)
        have away := sound.elsewhere at_ busy place free
        rw [kept₃.data y d at₁ busy apart a (by rw [region]; exact low) (by rw [region]; exact high),
          kept₂.data y d at₁ busy (by simpa using away.symm) a (start ▸ low) (start ▸ high),
          kept₁.data y d at_ busy (by simp) a low high]
    · exact ⟨f, kept₃.blocks x' f found' inUse (by simpa using other), inUse, wide, enough⟩
    · intro i less
      rw [← isM] at less
      rw [← isP]
      have word : k.mem (q + i) = h₁.mem (p + i) := by
        simp only [isK, rtMemcpy]
        rw [if_pos (by lia), Nat.add_sub_cancel_left]
      rw [kept₃.data x' f found' inUse (by simpa using other) (q + i) (by rw [region]; lia)
        (by rw [region]; lia), word]
      exact kept₁.data x c found used (by simp) (p + i) (by lia) (by lia)

theorem Resized.mono {cells' : List Cell} {old q : Nat} (resized : Resized h h' cells cells' x old n q)
    (le : size ≤ n) : Resized h h' cells cells' x old size q := by
  rcases resized with failed | ⟨kept, x', place, room, origin, copied⟩
  · exact Or.inl failed
  · exact Or.inr ⟨kept, x', place, room.mono le, origin, fun i less => copied i (by lia)⟩

theorem resized_here {b old : Nat}
    (kept : Kept h h' cells (L ++ [⟨n + rtMemheapSize, true⟩, ⟨b, false⟩] ++ R) (some (total L)))
    (copied : Copied h h' (userPtr h.toRegion (total L)) (userPtr h.toRegion (total L)) (min old size))
    (positive : 0 < n) (le : size ≤ n) :
    Resized h h' cells (L ++ [⟨n + rtMemheapSize, true⟩, ⟨b, false⟩] ++ R) (total L) old size
      (userPtr h.toRegion (total L)) := by
  refine Or.inr ⟨kept, total L, rfl, ⟨⟨n + rtMemheapSize, true⟩, ?_, rfl, ?_, ?_⟩, Or.inl rfl, copied⟩
  · simpa using at_middle (L := L) (c := ⟨n + rtMemheapSize, true⟩) (R := ⟨b, false⟩ :: R)
  · simp only
    lia
  · simp only
    lia

/-- rt_memheap_realloc of a block in use returns. -/
theorem rtMemheapRealloc_spec (sound : Sound h cells) (found : At cells x c) (used : c.used = true)
    (large : rtMemheapSize < c.size) (request : size + 24 < 2 ^ 32) (nonzero : size ≠ 0) :
    ∃ h' q cells', rtMemheapRealloc h (userPtr h.toRegion x) size = some (h', q) ∧ Sound h' cells' ∧
      Resized h h' cells cells' x (c.size - rtMemheapSize) size q := by
  obtain ⟨enlarged, bounded, fits, aligned, least⟩ := itemRequest_spec (show size + 3 < 2 ^ 32 by lia)
  obtain ⟨n, isN⟩ : ∃ n, n = itemRequest size := ⟨_, rfl⟩
  rw [← isN] at enlarged bounded fits aligned least
  obtain ⟨L, R, rfl, rfl⟩ := found.split
  have both : L ++ c :: R = L ++ [c] ++ R := by simp
  rw [both] at sound ⊢
  obtain ⟨d, R, rfl⟩ := sound.cons (Or.inr large)
  obtain ⟨frees, rep, _⟩ := sound.lists
  have found : At (L ++ [c] ++ d :: R) (total L) c := by simpa using at_middle (L := L) (c := c) (R := d :: R)
  have bound := sound.placed.bound
  have whole := rep.whole
  have width : rtMemheapSize = 24 := rfl
  have minimum : rtMemheapMinialloc = 12 := rfl
  unfold Region.limit at bound
  simp only [total_append, total] at whole
  obtain ⟨x, isX⟩ : ∃ x, x = h.startAddr + total L := ⟨_, rfl⟩
  have pointer : userPtr h.toRegion (total L) - rtMemheapSize = x := by
    unfold userPtr
    lia
  have pointer' : userPtr h.toRegion (total L) ≠ 0 := by
    unfold userPtr
    lia
  have place : x + rtMemheapSize = userPtr h.toRegion (total L) := by
    rw [isX]
    rfl
  have oldsize := rep.memitemSize isX sound.placed
  obtain ⟨next, flag⟩ := rep.isUsed_next isX
  unfold rtMemheapRealloc
  rw [if_neg nonzero]
  simp only [← isN, pointer, oldsize]
  rw [if_neg pointer']
  split
  · rename_i grows
    rw [if_neg (by lia)]
    split
    · rename_i room
      have free : d.used = false := flag.symm.trans room.1
      have cut : L ++ [c] ++ d :: R = (L ++ [c]) ++ [d] ++ R := by simp
      have pair : L ++ [c] ++ d :: R = L ++ [c, d] ++ R := by simp
      obtain ⟨r, R, rfl⟩ := (cut ▸ sound : Sound h ((L ++ [c]) ++ [d] ++ R)).cons (Or.inl free)
      have behind := (show Rep _ h h ((L ++ [c]) ++ [d] ++ r :: R) frees by simpa using rep).memitemSize (x := h.next x)
        (by rw [next, isX, total_append]; simp [total, Nat.add_assoc]) sound.placed
      have wide := (show Rep _ h h ((L ++ [c]) ++ d :: r :: R) frees by simpa using rep).large.1
      rw [behind] at room
      obtain ⟨b, parts⟩ : ∃ b, n + rtMemheapSize + b = c.size + d.size :=
        ⟨c.size + d.size - (n + rtMemheapSize), by lia⟩
      rw [pair] at sound ⊢
      obtain ⟨h', result⟩ : ∃ h', expandItem h x (c.size - rtMemheapSize) n = h' := ⟨_, rfl⟩
      obtain ⟨sound', kept, copied⟩ :=
        expandItem_spec sound used free isX (by lia) aligned parts (by lia) result
      rw [place] at copied
      rw [result]
      exact ⟨h', _, _, rfl, sound', resized_here kept (fun i less => copied i (by lia)) (by lia) enlarged⟩
    · obtain ⟨h', q, cells', result, sound', resized⟩ := moveItem_spec sound found used large fits
      exact ⟨h', q, cells', result, sound', resized.mono enlarged⟩
  · rename_i shrinks
    split
    · refine ⟨h, _, _, rfl, sound, Or.inr ⟨⟨rfl, fun _ _ found _ _ => found, fun _ _ _ _ _ _ _ _ => rfl⟩,
        total L, rfl, ⟨c, ?_, used, large, by lia⟩, Or.inl rfl, fun _ _ => rfl⟩⟩
      simpa using at_middle (L := L) (c := c) (R := d :: R)
    · rename_i much
      obtain ⟨b, parts⟩ : ∃ b, n + rtMemheapSize + b = c.size := ⟨c.size - (n + rtMemheapSize), by lia⟩
      obtain ⟨h', result⟩ : ∃ h', shrinkItem h x n = h' := ⟨_, rfl⟩
      obtain ⟨b', R', sound', kept, copied⟩ := shrinkItem_spec sound used isX aligned parts (by lia) result
      rw [place] at copied
      rw [result]
      exact ⟨h', _, _, rfl, sound', resized_here kept (fun i less => copied i (by lia)) (by lia) enlarged⟩

end RtThread.MemHeap

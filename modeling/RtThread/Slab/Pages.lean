import RtThread.Intervals
import RtThread.Linked
import RtThread.Slab

/-! The list of the free pages in memory: rt_page_alloc and rt_page_free are the operations on
intervals, and write to free pages only. -/
namespace RtThread.Slab
open Intervals Linked

@[irreducible] def addrOf (p : Nat) : Nat := p * rtMmPageSize

@[irreducible] def pageNo (a : Nat) : Nat := a / rtMmPageSize

/-- The runs are linked from `head` on, and each one's head has its count. -/
structure PageList (word : Nat → Nat) (head : Nat) (runs : List Run) : Prop where
  listed : Listed word (fun r : Run => addrOf r.1) 0 head runs
  counts : ∀ r ∈ runs, word (addrOf r.1 + 4) = r.2

variable {s s' : Heap} {word word' : Nat → Nat} {runs rest : List Run} {r : Run} {prev : Option Nat}
  {a b head n npages fuel v x : Nat}

@[simp] theorem put_word : (s.put a v).word x = if x = a then v else s.word x := Function.update_apply ..

@[simp] theorem setPageSlot_word :
    (s.setPageSlot prev v).word x = if prev = some x then v else s.word x := by
  cases prev with
  | none => simp [Heap.setPageSlot]
  | some b =>
    simp only [Heap.setPageSlot, Heap.setNext, put_word, Option.some.injEq]
    exact if_congr eq_comm rfl rfl

@[simp] theorem setPageSlot_slot : (s.setPageSlot prev v).pageSlot prev = v := by
  cases prev with
  | none => rfl
  | some b => simp [Heap.setPageSlot, Heap.setNext, Heap.pageSlot, Heap.next]

/-- What rt_page_alloc and rt_page_free can change: the list head where they start, and the words at
`prev` and in the pages `P`. -/
structure Writes (s s' : Heap) (prev : Option Nat) (P : Nat → Prop) : Prop where
  fields : s' = { s with word := s'.word, rtPageList := s'.rtPageList }
  head : prev ≠ none → s'.rtPageList = s.rtPageList
  words : ∀ x, prev ≠ some x → ¬P (pageNo x) → s'.word x = s.word x

theorem Writes.refl (P : Nat → Prop) : Writes s s prev P := ⟨rfl, fun _ => rfl, fun _ _ _ => rfl⟩

theorem Writes.mono {P Q : Nat → Prop} (writes : Writes s s' prev P) (sub : ∀ p, P p → Q p) : Writes s s' prev Q :=
  ⟨writes.fields, writes.head, fun x elsewhere outside => writes.words x elsewhere (fun h => outside (sub _ h))⟩

theorem Writes.put {P : Nat → Prop} (writes : Writes s s' prev P) (inside : P (pageNo a)) :
    Writes s (s'.put a v) prev P := by
  refine ⟨?_, writes.head, ?_⟩
  · rw [writes.fields]
    rfl
  · intro x elsewhere outside
    rw [put_word, if_neg (by rintro rfl; exact outside inside)]
    exact writes.words x elsewhere outside

theorem Writes.setPageSlot {P : Nat → Prop} (writes : Writes s s' prev P) :
    Writes s (s'.setPageSlot prev v) prev P := by
  refine ⟨?_, ?_, ?_⟩
  · rw [writes.fields]
    cases prev <;> rfl
  · intro some
    cases prev with
    | none => exact absurd rfl some
    | some b => exact writes.head some
  · intro x elsewhere outside
    rw [setPageSlot_word, if_neg elsewhere]
    exact writes.words x elsewhere outside

theorem Writes.trans {P : Nat → Prop} {s'' : Heap} (first : Writes s s' prev P) (second : Writes s' s'' prev P) :
    Writes s s'' prev P := by
  refine ⟨?_, fun some => (second.head some).trans (first.head some), ?_⟩
  · rw [second.fields, first.fields]
  · intro x elsewhere outside
    rw [second.words x elsewhere outside, first.words x elsewhere outside]

theorem Writes.through {P Q : Nat → Prop} (writes : Writes s s' (some b) P) (sub : ∀ p, P p → Q p)
    (here : Q (pageNo b)) (slot : ∀ b₀, prev = some b₀ → ¬Q (pageNo b₀)) :
    Writes s s' prev Q ∧ s'.pageSlot prev = s.pageSlot prev := by
  have kept : ∀ x, ¬Q (pageNo x) → s'.word x = s.word x := by
    intro x outside
    apply writes.words
    · intro same
      cases same
      exact outside here
    · exact fun inside => outside (sub _ inside)
  refine ⟨⟨writes.fields, fun _ => writes.head (by simp), fun x _ outside => kept x outside⟩, ?_⟩
  cases prev with
  | none => exact writes.head (by simp)
  | some b₀ => exact kept b₀ (slot b₀ rfl)

theorem pageList_nil : PageList word head [] ↔ head = 0 := by
  constructor
  · exact fun list => list.listed
  · exact fun null => ⟨null, by simp⟩

theorem pageList_cons : PageList word head (r :: rest) ↔
    head = addrOf r.1 ∧ head ≠ 0 ∧ word (addrOf r.1 + 4) = r.2 ∧ PageList word (word (addrOf r.1)) rest := by
  constructor
  · intro list
    obtain ⟨here, some, later⟩ := list.listed
    exact ⟨here, some, list.counts r List.mem_cons_self, later, fun q member =>
      list.counts q (List.mem_cons_of_mem _ member)⟩
  · rintro ⟨here, some, count, tail⟩
    refine ⟨⟨here, some, tail.listed⟩, ?_⟩
    intro q member
    rcases List.mem_cons.mp member with rfl | old
    · exact count
    · exact tail.counts q old

theorem PageList.congr (list : PageList word head runs)
    (same : ∀ r ∈ runs, ∀ i < 8, word' (addrOf r.1 + i) = word (addrOf r.1 + i)) : PageList word' head runs := by
  refine ⟨list.listed.congr (fun r member => same r member 0 (by decide)), ?_⟩
  intro r member
  rw [same r member 4 (by decide)]
  exact list.counts r member

theorem addrOf_page (p i : Nat) (small : i < rtMmPageSize) : pageNo (addrOf p + i) = p := by
  unfold pageNo addrOf rtMmPageSize at *
  lia

theorem addrOf_start (p : Nat) : pageNo (addrOf p) = p := addrOf_page p 0 (by decide)

theorem addrOf_add (p k : Nat) : addrOf p + k * rtMmPageSize = addrOf (p + k) := by
  unfold addrOf rtMmPageSize
  lia

theorem addrOf_inj {p q : Nat} : addrOf p = addrOf q ↔ p = q := by
  unfold addrOf rtMmPageSize
  lia

theorem addrOf_lt {p q : Nat} : addrOf p < addrOf q ↔ p < q := by
  unfold addrOf rtMmPageSize
  lia

theorem addrOf_le {p q : Nat} : addrOf p ≤ addrOf q ↔ p ≤ q := by
  unfold addrOf rtMmPageSize
  lia

theorem has_start (gapped : Gapped runs) (member : r ∈ runs) : Covers runs r.1 :=
  ⟨r, member, Nat.le_refl _, Nat.lt_add_of_pos_right (gapped.some r member)⟩

theorem PageList.frame {P : Nat → Prop} (list : PageList s.word head runs) (gapped : Gapped runs)
    (writes : Writes s s' prev P) (outside : ∀ p, Covers runs p → ¬P p)
    (slot : ∀ b, prev = some b → ¬Covers runs (pageNo b)) : PageList s'.word head runs := by
  apply list.congr
  intro r member i small
  have page := addrOf_page r.1 i (by unfold rtMmPageSize; lia)
  have covers := has_start gapped member
  apply writes.words
  · intro same
    apply slot _ same
    rwa [page]
  · rw [page]
    exact outside r.1 covers

theorem passed {P Q : Nat → Prop} (writes : Writes s s' (some (addrOf r.1)) P) (sub : ∀ p, P p → Q p)
    (out : ¬P r.1) (own : Q r.1) (slot : ∀ b, prev = some b → ¬Q (pageNo b)) (here : s.pageSlot prev = addrOf r.1)
    (some_page : s.pageSlot prev ≠ 0) (count : s.word (addrOf r.1 + 4) = r.2) :
    Writes s s' prev Q ∧ ∀ left, PageList s'.word (s'.pageSlot (some (addrOf r.1))) left →
      PageList s'.word (s'.pageSlot prev) (r :: left) := by
  obtain ⟨wrote, same_slot⟩ := writes.through sub (by rwa [addrOf_start]) slot
  have same_count : s'.word (addrOf r.1 + 4) = r.2 := by
    rw [← count]
    apply writes.words
    · simp
    · rwa [addrOf_page _ _ (by decide)]
  refine ⟨wrote, fun left behind => ?_⟩
  rw [same_slot]
  exact pageList_cons.mpr ⟨here, some_page, same_count, behind⟩

theorem run_cut (some_pages : 0 < npages) (less : npages < r.2)
    (list : PageList s.word (s.pageSlot prev) (r :: rest)) (gapped : Gapped (r :: rest))
    (slot : ∀ b, prev = some b → ¬Covers (r :: rest) (pageNo b)) :
    let t := ((s.setNext (addrOf (r.1 + npages)) (s.word (addrOf r.1))).setPage
      (addrOf (r.1 + npages)) (r.2 - npages)).setPageSlot prev (addrOf (r.1 + npages))
    Writes s t prev (Covers (r :: rest)) ∧
      PageList t.word (t.pageSlot prev) ((r.1 + npages, r.2 - npages) :: rest) := by
  intro t
  obtain ⟨here, some_page, count, tail⟩ := pageList_cons.mp list
  obtain ⟨some_there, below, tail_gapped⟩ := gapped_cons.mp gapped
  have inside : Covers (r :: rest) (r.1 + npages) :=
    covers_cons.mpr (Or.inl ⟨Nat.le_add_right _ _, by lia⟩)
  have slot_off : ∀ i < 8, prev ≠ some (addrOf (r.1 + npages) + i) := by
    intro i small same
    apply slot _ same
    rwa [addrOf_page _ _ (by unfold rtMmPageSize; lia)]
  have first_slot := slot_off 0 (by decide)
  have count_slot := slot_off 4 (by decide)
  rw [Nat.add_zero] at first_slot
  have wrote : Writes s t prev (· = r.1 + npages) :=
    ((((Writes.refl (· = r.1 + npages) : Writes s s prev _)).put
      (a := addrOf (r.1 + npages)) (v := s.word (addrOf r.1)) (addrOf_start _)).put
      (a := addrOf (r.1 + npages) + 4) (v := r.2 - npages) (addrOf_page _ _ (by decide))).setPageSlot
  have tail' := tail.frame tail_gapped wrote
    (by
      rintro p covers rfl
      exact absurd (gapped.after covers) (by lia))
    (fun b same covers => slot b same (covers_cons.mpr (Or.inr covers)))
  refine ⟨wrote.mono (by rintro p rfl; exact inside), ?_⟩
  rw [setPageSlot_slot]
  refine pageList_cons.mpr ⟨rfl, ?_, ?_, ?_⟩
  · unfold addrOf rtMmPageSize
    lia
  · rw [setPageSlot_word, if_neg count_slot]
    simp [Heap.setPage]
  · have link : t.word (addrOf (r.1 + npages)) = s.word (addrOf r.1) := by
      rw [setPageSlot_word, if_neg first_slot]
      simp [Heap.setPage, Heap.setNext]
    rw [link]
    exact tail'

theorem pageAllocLoop_spec (wanted : 0 < npages) (list : PageList s.word (s.pageSlot prev) runs)
    (gapped : Gapped runs) (slot : ∀ b, prev = some b → ¬Covers runs (pageNo b))
    (enough : runs.length < fuel) :
    ∃ s' b, pageAllocLoop npages fuel s prev = some (s', b) ∧ Writes s s' prev (Covers runs) ∧
      ((b = 0 ∧ take npages runs = none ∧ s' = s) ∨
        ∃ n rest, b = addrOf n ∧ b ≠ 0 ∧ take npages runs = some (n, rest) ∧
          PageList s'.word (s'.pageSlot prev) rest) := by
  induction runs generalizing s prev fuel with
  | nil =>
    obtain ⟨fuel, rfl⟩ := Nat.exists_eq_succ_of_ne_zero (by lia : fuel ≠ 0)
    have null := pageList_nil.mp list
    simp only [pageAllocLoop, null, if_true]
    exact ⟨s, 0, rfl, .refl _, Or.inl ⟨rfl, rfl, rfl⟩⟩
  | cons r rest ih =>
    obtain ⟨fuel, rfl⟩ := Nat.exists_eq_succ_of_ne_zero (by lia : fuel ≠ 0)
    obtain ⟨here, some_page, count, tail⟩ := pageList_cons.mp list
    have page : s.page (s.pageSlot prev) = r.2 := by rw [here]; exact count
    have next : s.next (s.pageSlot prev) = s.word (addrOf r.1) := by rw [here]; rfl
    obtain ⟨some_there, below, tail_gapped⟩ := gapped_cons.mp gapped
    have behind : ¬Covers rest r.1 := fun covers => absurd (gapped.after covers) (by lia)
    simp only [pageAllocLoop, if_neg some_page, page, take]
    split
    · rename_i less
      have start : s.pageSlot prev + npages * rtMmPageSize = addrOf (r.1 + npages) := by
        rw [here, addrOf_add]
      have far : addrOf r.1 + 4 ≠ addrOf (r.1 + npages) := by
        unfold addrOf rtMmPageSize
        lia
      have same_page : (s.setNext (addrOf (r.1 + npages)) (s.word (addrOf r.1))).page (s.pageSlot prev) = r.2 := by
        rw [here]
        simp only [Heap.page, Heap.setNext, put_word, if_neg far]
        exact count
      obtain ⟨wrote, list'⟩ := run_cut wanted less list gapped slot
      simp only [start, next, same_page]
      exact ⟨_, _, rfl, wrote, Or.inr ⟨r.1, _, here, some_page, rfl, list'⟩⟩
    · split
      · refine ⟨_, _, rfl, (Writes.refl _).setPageSlot, Or.inr ⟨r.1, rest, here, some_page, rfl, ?_⟩⟩
        rw [setPageSlot_slot, next]
        exact tail.frame tail_gapped ((Writes.refl (fun _ => False)).setPageSlot) (fun _ _ h => h)
          (fun b same covers => slot b same (covers_cons.mpr (Or.inr covers)))
      · have inner : ∀ b, some (addrOf r.1) = some b → ¬Covers rest (pageNo b) := by
          intro b same
          cases same
          rwa [addrOf_start]
        have tail_at : PageList s.word (s.pageSlot (some (addrOf r.1))) rest := tail
        have enough_left : rest.length < fuel := by simpa using enough
        obtain ⟨s', b, result, writes, outcome⟩ := ih tail_at tail_gapped inner enough_left
        obtain ⟨wrote, relink⟩ := passed writes (fun p covers => covers_cons.mpr (Or.inr covers)) behind
          (has_start gapped List.mem_cons_self) slot here some_page count
        rw [here]
        refine ⟨s', b, result, wrote, ?_⟩
        rcases outcome with ⟨null, none_fits, same⟩ | ⟨n, left, at_n, some_n, found, tail'⟩
        · exact Or.inl ⟨null, by rw [none_fits]; rfl, same⟩
        · exact Or.inr ⟨n, r :: left, at_n, some_n, by rw [found]; rfl, relink left tail'⟩

theorem linked_in {P : Nat → Prop} {k : Nat} (list : PageList s.word b runs) (gapped : Gapped runs)
    (some_page : addrOf n ≠ 0) (head : P n) (outside : ¬Covers runs n)
    (slot : ∀ b₀, prev = some b₀ → ¬Covers runs (pageNo b₀)) (slot_page : ∀ b₀, prev = some b₀ → pageNo b₀ ≠ n) :
    Writes s (((s.setPage (addrOf n) k).setNext (addrOf n) b).setPageSlot prev (addrOf n)) prev P ∧
      PageList (((s.setPage (addrOf n) k).setNext (addrOf n) b).setPageSlot prev (addrOf n)).word (addrOf n)
        ((n, k) :: runs) := by
  have slot_off : ∀ i < 8, prev ≠ some (addrOf n + i) := by
    intro i small same
    exact slot_page _ same (addrOf_page _ _ (by unfold rtMmPageSize; lia))
  have first_slot := slot_off 0 (by decide)
  rw [Nat.add_zero] at first_slot
  have wrote := ((((Writes.refl (· = n) : Writes s s prev _)).put (a := addrOf n + 4) (v := k)
    (addrOf_page _ _ (by decide))).put (a := addrOf n) (v := b) (addrOf_start _)).setPageSlot (v := addrOf n)
  refine ⟨wrote.mono (by rintro p rfl; exact head), pageList_cons.mpr ⟨rfl, some_page, ?_, ?_⟩⟩
  · rw [setPageSlot_word, if_neg (slot_off 4 (by decide))]
    simp [Heap.setPage, Heap.setNext]
  · have link : (((s.setPage (addrOf n) k).setNext (addrOf n) b).setPageSlot prev (addrOf n)).word (addrOf n) = b := by
      rw [setPageSlot_word, if_neg first_slot]
      simp [Heap.setNext]
    rw [link]
    exact list.frame gapped wrote (by rintro p covers rfl; exact outside covers) slot

theorem merged_next {k : Nat} (some_page : addrOf n ≠ 0) (count : s.page (addrOf n) = k) (some_pages : 0 < k)
    (list : PageList s.word (s.next (addrOf n)) rest) (gapped : Gapped rest) (behind : ∀ q ∈ rest, n + k ≤ q.1) :
    let t := s.setPage (addrOf n) (s.page (addrOf n) + s.page (s.next (addrOf n)))
    ∃ s', (if addrOf (n + s.page (addrOf n)) = s.next (addrOf n) then
        some (t.setNext (addrOf n) (t.next (t.next (addrOf n)))) else some s) = some s' ∧
      Writes s s' (some (addrOf n)) (· = n) ∧ PageList s'.word (addrOf n) (close (n, k) rest) := by
  intro t
  have alone : PageList s.word (addrOf n) ((n, k) :: rest) := pageList_cons.mpr ⟨rfl, some_page, count, list⟩
  cases rest with
  | nil =>
    have null : s.next (addrOf n) = 0 := pageList_nil.mp list
    have beyond : addrOf (n + s.page (addrOf n)) ≠ s.next (addrOf n) := by
      rw [null, ← Nat.pos_iff_ne_zero]
      exact Nat.lt_of_lt_of_le (Nat.pos_of_ne_zero some_page) (addrOf_le.mpr (Nat.le_add_right _ _))
    rw [if_neg beyond]
    exact ⟨s, rfl, .refl _, alone⟩
  | cons q tail =>
    obtain ⟨here, _, next_count, later⟩ := pageList_cons.mp list
    obtain ⟨_, below, tail_gapped⟩ := gapped_cons.mp gapped
    have ahead := behind q List.mem_cons_self
    simp only [here, count, addrOf_inj, close]
    split
    · have far : addrOf q.1 ≠ addrOf n + 4 := by
        unfold addrOf rtMmPageSize
        lia
      have same_next : t.next (addrOf n) = addrOf q.1 := by
        simp only [t, Heap.next, Heap.setPage, put_word, if_neg (by lia : addrOf n ≠ addrOf n + 4)]
        exact here
      have after_next : t.next (addrOf q.1) = s.word (addrOf q.1) := by
        simp only [t, Heap.next, Heap.setPage, put_word, if_neg far]
      have wrote : Writes s (t.setNext (addrOf n) (s.word (addrOf q.1))) (some (addrOf n)) (· = n) :=
        ((Writes.refl _).put (addrOf_page n 4 (by decide))).put (addrOf_start n)
      rw [same_next, after_next]
      refine ⟨_, rfl, wrote, pageList_cons.mpr ⟨rfl, some_page, ?_, ?_⟩⟩
      · simp only [t, Heap.setNext, Heap.setPage, put_word, if_neg (by lia : addrOf n + 4 ≠ addrOf n), if_true]
        rw [count, here]
        exact congrArg (k + ·) next_count
      · have link : (t.setNext (addrOf n) (s.word (addrOf q.1))).word (addrOf n) = s.word (addrOf q.1) := by
          simp only [Heap.setNext, put_word, if_true]
        rw [link]
        have before : ∀ p, Covers tail p → n < p := by
          rintro p ⟨r, member, has, _⟩
          have gap := below r member
          lia
        apply later.frame tail_gapped wrote
        · rintro p covers rfl
          exact absurd (before p covers) (Nat.lt_irrefl _)
        · intro b same covers
          cases same
          rw [addrOf_start] at covers
          exact absurd (before n covers) (Nat.lt_irrefl _)
    · exact ⟨s, rfl, .refl _, alone⟩

theorem run_grows {k : Nat} (some_pages : 0 < k) (list : PageList s.word (addrOf r.1) (r :: rest))
    (gapped : Gapped (r :: rest)) (outside : ∀ p, Run.Has (r.1 + r.2, k) p → ¬Covers (r :: rest) p) :
    let g := s.setPage (addrOf r.1) (r.2 + k)
    let t := g.setPage (addrOf r.1) (g.page (addrOf r.1) + g.page (g.next (addrOf r.1)))
    ∃ s', (if addrOf (r.1 + g.page (addrOf r.1)) = g.next (addrOf r.1) then
        some (t.setNext (addrOf r.1) (t.next (t.next (addrOf r.1)))) else some g) = some s' ∧
      Writes s s' (some (addrOf r.1)) (· = r.1) ∧
      PageList s'.word (addrOf r.1) (close (r.1, r.2 + k) rest) := by
  intro g t
  obtain ⟨_, some_head, count, tail⟩ := pageList_cons.mp list
  obtain ⟨some_there, below, tail_gapped⟩ := gapped_cons.mp gapped
  have grown : Writes s g (some (addrOf r.1)) (· = r.1) := (Writes.refl _).put (addrOf_page r.1 4 (by decide))
  have front : ∀ p, Covers rest p → r.1 < p := fun p covers =>
    Nat.lt_of_le_of_lt (Nat.le_add_right _ _) (gapped.after covers)
  have tail' := tail.frame tail_gapped grown
    (by
      rintro p covers rfl
      exact absurd (front _ covers) (Nat.lt_irrefl _))
    (by
      rintro b same covers
      cases same
      rw [addrOf_start] at covers
      exact absurd (front _ covers) (Nat.lt_irrefl _))
  have behind : ∀ q ∈ rest, r.1 + (r.2 + k) ≤ q.1 := by
    intro q member
    have gap := below q member
    by_contra overlap
    refine outside q.1 ⟨by simp only; lia, by simp only; lia⟩ (covers_cons.mpr (Or.inr ?_))
    exact has_start tail_gapped member
  have same_next : g.next (addrOf r.1) = s.word (addrOf r.1) := by simp [g, Heap.next, Heap.setPage]
  obtain ⟨s', result, wrote, list'⟩ := merged_next (s := g) (n := r.1) (k := r.2 + k) some_head
    (by simp [g, Heap.page, Heap.setPage]) (by lia) (by rw [same_next]; exact tail') tail_gapped behind
  exact ⟨s', result, grown.trans wrote, list'⟩

theorem pageFreeLoop_spec {k : Nat} (some_pages : 0 < k) (some_page : addrOf n ≠ 0)
    (list : PageList s.word (s.pageSlot prev) runs) (gapped : Gapped runs)
    (outside : ∀ p, Run.Has (n, k) p → ¬Covers runs p)
    (slot : ∀ b, prev = some b → ¬(Covers runs (pageNo b) ∨ Run.Has (n, k) (pageNo b)))
    (enough : runs.length < fuel) :
    ∃ s', pageFreeLoop (addrOf n) k fuel s prev = some s' ∧
      Writes s s' prev (fun p => Covers runs p ∨ Run.Has (n, k) p) ∧
      PageList s'.word (s'.pageSlot prev) (Intervals.put n k runs) := by
  have first : Run.Has (n, k) n := ⟨Nat.le_refl _, Nat.lt_add_of_pos_right some_pages⟩
  have slot_page : ∀ b, prev = some b → pageNo b ≠ n := by
    intro b same at_n
    apply slot b same
    rw [at_n]
    exact Or.inr first
  induction runs generalizing s prev fuel with
  | nil =>
    obtain ⟨fuel, rfl⟩ := Nat.exists_eq_succ_of_ne_zero (by lia : fuel ≠ 0)
    have null := pageList_nil.mp list
    simp only [pageFreeLoop, null, if_true]
    obtain ⟨wrote, new⟩ := linked_in (s := s) (b := 0) (k := k)
      (P := fun p => Covers [] p ∨ Run.Has (n, k) p) (pageList_nil.mpr rfl) gapped some_page (Or.inr first)
      covers_nil (fun _ _ => covers_nil) slot_page
    refine ⟨_, rfl, wrote, ?_⟩
    rw [pageInsert, setPageSlot_slot]
    exact new
  | cons r rest ih =>
    obtain ⟨fuel, rfl⟩ := Nat.exists_eq_succ_of_ne_zero (by lia : fuel ≠ 0)
    obtain ⟨here, some_head, count, tail⟩ := pageList_cons.mp list
    have page : s.page (s.pageSlot prev) = r.2 := by rw [here]; exact count
    have next : s.next (s.pageSlot prev) = s.word (addrOf r.1) := by rw [here]; rfl
    obtain ⟨some_there, below, tail_gapped⟩ := gapped_cons.mp gapped
    have head := has_start gapped List.mem_cons_self
    have apart := apart_of_outside some_there some_pages
      (fun p has own => outside p has (covers_cons.mpr (Or.inl own)))
    have sane : 0 < r.2 ∧ (addrOf n < addrOf r.1 ∨ addrOf r.1 + r.2 * rtMmPageSize ≤ addrOf n) := by
      rw [addrOf_add, addrOf_lt, addrOf_le]
      lia
    simp only [pageFreeLoop, if_neg some_head, page, put]
    rw [here, if_neg (not_not_intro sane)]
    simp only [addrOf_add, addrOf_inj, addrOf_lt]
    split
    · rename_i touch
      obtain ⟨s', result, grown, list'⟩ :=
        run_grows some_pages (by rw [← here]; exact list) gapped (by rw [touch]; exact outside)
      obtain ⟨wrote, same_slot⟩ := grown.through (Q := fun p => Covers (r :: rest) p ∨ Run.Has (n, k) p)
        (by rintro p rfl; exact Or.inl head) (by rw [addrOf_start]; exact Or.inl head) slot
      refine ⟨s', result, wrote, ?_⟩
      rw [same_slot, here]
      exact list'
    · split
      · have far : addrOf r.1 ≠ addrOf n + 4 := by
          unfold addrOf rtMmPageSize
          lia
        have same_next : (s.setPage (addrOf n) (r.2 + k)).next (addrOf r.1) = s.word (addrOf r.1) := by
          simp only [Heap.next, Heap.setPage, put_word, if_neg far]
        rw [same_next]
        have out : ¬Covers rest n := fun covers => outside n first (covers_cons.mpr (Or.inr covers))
        obtain ⟨wrote, new⟩ := linked_in (k := r.2 + k) (P := fun p => Covers (r :: rest) p ∨ Run.Has (n, k) p) tail
          tail_gapped some_page (Or.inr first) out
          (fun b same covers => slot b same (Or.inl (covers_cons.mpr (Or.inr covers)))) slot_page
        refine ⟨_, rfl, wrote, ?_⟩
        rw [setPageSlot_slot]
        exact new
      · split
        · obtain ⟨wrote, new⟩ := linked_in (k := k) (P := fun p => Covers (r :: rest) p ∨ Run.Has (n, k) p)
            (by rw [here] at list; exact list) gapped some_page (Or.inr first) (outside n first)
            (fun b same covers => slot b same (Or.inl covers)) slot_page
          refine ⟨_, rfl, wrote, ?_⟩
          rw [pageInsert, setPageSlot_slot]
          exact new
        · have behind : ¬(Covers rest r.1 ∨ Run.Has (n, k) r.1) :=
            not_or.mpr ⟨fun covers => absurd (gapped.after covers) (by lia), fun has => outside r.1 has head⟩
          have tail_at : PageList s.word (s.pageSlot (some (addrOf r.1))) rest := tail
          have enough_left : rest.length < fuel := by simpa using enough
          obtain ⟨s', result, writes, list'⟩ := ih tail_at tail_gapped
            (fun p has covers => outside p has (covers_cons.mpr (Or.inr covers)))
            (by
              rintro b same
              cases same
              rwa [addrOf_start])
            enough_left
            (by
              rintro b same
              cases same
              rw [addrOf_start]
              lia)
          obtain ⟨wrote, relink⟩ := passed writes (Q := fun p => Covers (r :: rest) p ∨ Run.Has (n, k) p)
            (fun p => Or.imp_left (fun covers => covers_cons.mpr (Or.inr covers))) behind (Or.inl head) slot here
            some_head count
          exact ⟨s', result, wrote, relink _ list'⟩

theorem listFuel_eq {low high : Nat} (start : s.heapStart = addrOf low) (stop : s.heapEnd = addrOf high) :
    s.listFuel = high - low + 1 := by
  have pages : (s.heapEnd - s.heapStart) / rtMmPageSize = high - low := by
    rw [start, stop]
    unfold addrOf rtMmPageSize
    lia
  rw [Heap.listFuel, pages]

theorem runs_in_fuel {low high : Nat} (gapped : Gapped runs) (start : s.heapStart = addrOf low)
    (stop : s.heapEnd = addrOf high) (inside : ∀ p, Covers runs p → low ≤ p ∧ p < high) :
    runs.length < s.listFuel := by
  rw [listFuel_eq start stop]
  exact Nat.lt_succ_of_le (gapped.length_le inside)

/-- rt_page_alloc returns, and takes the first run that is long enough or leaves everything as it is. -/
theorem rtPageAlloc_spec (wanted : 0 < npages) (list : PageList s.word s.rtPageList runs) (gapped : Gapped runs)
    (enough : runs.length < s.listFuel) :
    ∃ s' b, rtPageAlloc s npages = some (s', b) ∧ Writes s s' none (Covers runs) ∧
      ((b = 0 ∧ take npages runs = none ∧ s' = s) ∨
        ∃ n rest, b = addrOf n ∧ b ≠ 0 ∧ take npages runs = some (n, rest) ∧
          PageList s'.word s'.rtPageList rest) := by
  rw [rtPageAlloc, if_neg (Nat.pos_iff_ne_zero.mp wanted)]
  have from_head : PageList s.word (s.pageSlot none) runs := list
  exact pageAllocLoop_spec wanted from_head gapped (by simp) enough

/-- rt_page_free returns for pages that are not free, and puts them into the list. -/
theorem rtPageFree_spec {k : Nat} (some_pages : 0 < k) (some_page : addrOf n ≠ 0)
    (list : PageList s.word s.rtPageList runs) (gapped : Gapped runs)
    (outside : ∀ p, Run.Has (n, k) p → ¬Covers runs p) (enough : runs.length < s.listFuel) :
    ∃ s', rtPageFree s (addrOf n) k = some s' ∧
      Writes s s' none (fun p => Covers runs p ∨ Run.Has (n, k) p) ∧
      PageList s'.word s'.rtPageList (Intervals.put n k runs) := by
  have aligned : addrOf n % rtMmPageSize = 0 := by
    unfold addrOf
    exact Nat.mul_mod_left _ _
  rw [rtPageFree, if_pos ⟨some_page, aligned, Nat.pos_iff_ne_zero.mp some_pages⟩]
  have from_head : PageList s.word (s.pageSlot none) runs := list
  exact pageFreeLoop_spec some_pages some_page from_head gapped outside (by simp) enough

end RtThread.Slab

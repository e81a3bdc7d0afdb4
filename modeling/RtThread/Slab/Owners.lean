import RtThread.Slab.Zones

/-! Who has each page of the heap, and what memusage has for it. -/
namespace RtThread.Slab
open Intervals

inductive Use
  | zone | large

/-- A block is the pages of a zone or of a large allocation: its first page, and their number. -/
inductive Owner
  | outside | usage | free
  | block (use : Use) (n k : Nat)

def usagePages (first last : Nat) : Nat := ((last - first) * sizeofMemusage + 4095) / rtMmPageSize

/-- What rt_system_heap_init sets for good. -/
structure Geometry (s : Heap) (first last : Nat) : Prop where
  start : s.heapStart = addrOf first
  stop : s.heapEnd = addrOf last
  usage : s.memusage = addrOf first
  some : 0 < first
  order : first < last
  most : last ≤ 2 ^ 20
  size : s.zoneSize = s.zonePageCnt * rtMmPageSize
  pages : s.zonePageCnt = 8 ∨ s.zonePageCnt = 16 ∨ s.zonePageCnt = 32
  limit : s.zoneLimit = 8192 ∨ s.zoneLimit = 16384
  quarter : 4 * s.zoneLimit ≤ s.zoneSize

/-- Each page of the heap is free, of memusage, or of one block; the free pages are those in the page list. -/
structure Pages (s : Heap) (owner : Nat → Owner) (runs : List Run) (first last : Nat) : Prop where
  geometry : Geometry s first last
  list : PageList s.word s.rtPageList runs
  gapped : Gapped runs
  free : ∀ p, owner p = .free ↔ Covers runs p
  outside : ∀ p, owner p = .outside ↔ ¬(first ≤ p ∧ p < last)
  usage : ∀ p, owner p = .usage ↔ first ≤ p ∧ p < first + usagePages first last
  block : ∀ p use n k, owner p = .block use n k ↔ owner n = .block use n k ∧ Run.Has (n, k) p
  zone : ∀ z k, owner z = .block .zone z k → k = s.zonePageCnt

/-- The entries of the pages of a zone lead to its first page, and that of a large allocation has its size. -/
structure Entries (s : Heap) (owner : Nat → Owner) : Prop where
  small : ∀ p z k, owner p = .block .zone z k → s.word (s.btokup (addrOf p)) = pageTypeSmall + 4 * (p - z)
  large : ∀ n k, owner n = .block .large n k → s.word (s.btokup (addrOf n)) = pageTypeLarge + 4 * k

def Heap.fixed (s : Heap) : Nat × Nat × Nat × Nat × Nat × Nat :=
  (s.heapStart, s.heapEnd, s.memusage, s.zoneSize, s.zoneLimit, s.zonePageCnt)

variable {s s' : Heap} {owner : Nat → Owner} {runs rest : List Run} {first last : Nat} {o : Owner}
  {a b i j k n p q z : Nat} {use : Use}

theorem fixed_eq : s'.fixed = s.fixed ↔ s'.heapStart = s.heapStart ∧ s'.heapEnd = s.heapEnd ∧
    s'.memusage = s.memusage ∧ s'.zoneSize = s.zoneSize ∧ s'.zoneLimit = s.zoneLimit ∧
    s'.zonePageCnt = s.zonePageCnt := by
  simp only [Heap.fixed, Prod.mk.injEq]

theorem Geometry.congr (geometry : Geometry s first last) (fixed : s'.fixed = s.fixed) : Geometry s' first last := by
  obtain ⟨start, stop, usage, size, limit, pages⟩ := fixed_eq.mp fixed
  obtain ⟨at_start, at_stop, at_usage, some, order, most, sizes, counts, limits, quarter⟩ := geometry
  exact ⟨start.trans at_start, stop.trans at_stop, usage.trans at_usage, some, order, most, by rw [size, pages, sizes],
    by rw [pages]; exact counts, by rw [limit]; exact limits, by rw [limit, size]; exact quarter⟩

theorem Geometry.entry (geometry : Geometry s first last) (low : first ≤ p) :
    s.btokup (addrOf p) = addrOf first + (p - first) * 4 := by
  have pages : (addrOf p - addrOf first) / rtMmPageSize = p - first := by
    unfold addrOf rtMmPageSize
    omega
  rw [Heap.btokup, geometry.start, geometry.usage, pages, sizeofMemusage]

theorem Geometry.entry_page (geometry : Geometry s first last) (low : first ≤ p) (high : p < last) :
    first ≤ pageNo (s.btokup (addrOf p)) ∧ pageNo (s.btokup (addrOf p)) < first + usagePages first last := by
  rw [geometry.entry low]
  unfold addrOf pageNo usagePages sizeofMemusage rtMmPageSize
  omega

theorem Geometry.entry_inj (geometry : Geometry s first last) (low : first ≤ p) (low' : first ≤ q) :
    s.btokup (addrOf p) = s.btokup (addrOf q) ↔ p = q := by
  rw [geometry.entry low, geometry.entry low']
  omega

theorem Pages.inside (pages : Pages s owner runs first last) (owned : owner p ≠ .outside) : first ≤ p ∧ p < last :=
  not_not.mp (fun out => owned ((pages.outside p).mpr out))

theorem Pages.entry_usage (pages : Pages s owner runs first last) (owned : owner p ≠ .outside) :
    owner (pageNo (s.btokup (addrOf p))) = .usage := by
  obtain ⟨low, high⟩ := pages.inside owned
  exact (pages.usage _).mpr (pages.geometry.entry_page low high)

theorem Pages.congr (pages : Pages s owner runs first last) (fixed : s'.fixed = s.fixed)
    (head : s'.rtPageList = s.rtPageList) (words : ∀ a, owner (pageNo a) = .free → s'.word a = s.word a) :
    Pages s' owner runs first last := by
  refine ⟨pages.geometry.congr fixed, ?_, pages.gapped, pages.free, pages.outside, pages.usage, pages.block, ?_⟩
  · rw [head]
    apply pages.list.congr
    intro r member i small
    apply words
    rw [addrOf_page r.1 i (by unfold rtMmPageSize; omega)]
    exact (pages.free r.1).mpr (has_start pages.gapped member)
  · rw [(fixed_eq.mp fixed).2.2.2.2.2]
    exact pages.zone

theorem btokup_fixed (fixed : s'.fixed = s.fixed) (a : Nat) : s'.btokup a = s.btokup a := by
  obtain ⟨start, _, usage, _⟩ := fixed_eq.mp fixed
  rw [Heap.btokup, Heap.btokup, start, usage]

theorem Entries.congr (entries : Entries s owner) (fixed : s'.fixed = s.fixed)
    (usage : ∀ p, owner p ≠ .outside → owner (pageNo (s.btokup (addrOf p))) = .usage)
    (words : ∀ a, owner (pageNo a) = .usage → s'.word a = s.word a) : Entries s' owner := by
  constructor
  · intro p z k owned
    rw [btokup_fixed fixed, words _ (usage p (by rw [owned]; simp))]
    exact entries.small p z k owned
  · intro n k owned
    rw [btokup_fixed fixed, words _ (usage n (by rw [owned]; simp))]
    exact entries.large n k owned

def assign (owner : Nat → Owner) (r : Run) (o : Owner) (p : Nat) : Owner := if r.Has p then o else owner p

theorem assign_in {r : Run} (inside : r.Has p) : assign owner r o p = o := if_pos inside

theorem assign_out {r : Run} (outside : ¬r.Has p) : assign owner r o p = owner p := if_neg outside

/-- Each block's pages are a run from its first page on. -/
def BlockRuns (owner : Nat → Owner) : Prop :=
  ∀ p use n k, owner p = .block use n k ↔ owner n = .block use n k ∧ Run.Has (n, k) p

theorem BlockRuns.assign (blocks : BlockRuns owner) (free : ∀ p, Run.Has (n, k) p → owner p = .free) (some : 0 < k)
    (use : Use) : BlockRuns (assign owner (n, k) (.block use n k)) := by
  intro p u m j
  have first : Run.Has (n, k) n := ⟨Nat.le_refl _, Nat.lt_add_of_pos_right some⟩
  by_cases new : Run.Has (n, k) p
  · rw [assign_in new]
    constructor
    · intro same
      cases same
      exact ⟨assign_in first, new⟩
    · rintro ⟨owned, inside⟩
      by_cases own : Run.Has (n, k) m
      · rw [assign_in own] at owned
        exact owned
      · rw [assign_out own] at owned
        have there := (blocks p u m j).mpr ⟨owned, inside⟩
        rw [free p new] at there
        cases there
  · rw [assign_out new]
    by_cases own : Run.Has (n, k) m
    · rw [assign_in own, blocks p u m j, free m own]
      constructor
      · rintro ⟨absent, _⟩
        cases absent
      · rintro ⟨same, inside⟩
        cases same
        exact absurd inside new
    · rw [assign_out own]
      exact blocks p u m j

theorem BlockRuns.release (blocks : BlockRuns owner) (owned : owner n = .block use n k) :
    BlockRuns (Slab.assign owner (n, k) .free) := by
  intro p u m j
  have first := ((blocks n use n k).mp owned).2
  have all : ∀ q, Run.Has (n, k) q → owner q = .block use n k := fun q inside => (blocks q use n k).mpr ⟨owned, inside⟩
  by_cases old : Run.Has (n, k) p
  · rw [assign_in old]
    constructor
    · intro absent
      cases absent
    · rintro ⟨other, inside⟩
      by_cases own : Run.Has (n, k) m
      · rw [assign_in own] at other
        cases other
      · rw [assign_out own] at other
        have there := (blocks p u m j).mpr ⟨other, inside⟩
        rw [all p old] at there
        cases there
        exact absurd first own
  · rw [assign_out old]
    by_cases own : Run.Has (n, k) m
    · rw [assign_in own, blocks p u m j, all m own]
      constructor
      · rintro ⟨same, inside⟩
        cases same
        exact absurd inside old
      · rintro ⟨absent, _⟩
        cases absent
    · rw [assign_out own]
      exact blocks p u m j

theorem Pages.fuel (pages : Pages s owner runs first last) : runs.length < s.listFuel := by
  apply runs_in_fuel pages.gapped pages.geometry.start pages.geometry.stop
  intro p covers
  apply pages.inside
  rw [(pages.free p).mpr covers]
  simp

theorem Pages.alloc (pages : Pages s owner runs first last) (wanted : 0 < k) :
    ∃ s' b, rtPageAlloc s k = some (s', b) ∧
      s' = { s with word := s'.word, rtPageList := s'.rtPageList } ∧
      (∀ a, owner (pageNo a) ≠ .free → s'.word a = s.word a) ∧
      ((b = 0 ∧ s' = s) ∨ ∃ n rest, b = addrOf n ∧ b ≠ 0 ∧ (∀ p, Run.Has (n, k) p → owner p = .free) ∧
        ∀ use, (use = .zone → k = s.zonePageCnt) →
          Pages s' (Slab.assign owner (n, k) (.block use n k)) rest first last) := by
  obtain ⟨s', b, result, writes, outcome⟩ := rtPageAlloc_spec wanted pages.list pages.gapped pages.fuel
  refine ⟨s', b, result, writes.fields, ?_, ?_⟩
  · intro a used
    exact writes.words a (by simp) (fun covers => used ((pages.free _).mpr covers))
  · rcases outcome with ⟨null, _, same⟩ | ⟨n, rest, here, some, taken, list⟩
    · exact Or.inl ⟨null, same⟩
    · obtain ⟨gapped, inside, left⟩ := take_spec pages.gapped wanted taken
      have free : ∀ p, Run.Has (n, k) p → owner p = .free := fun p has => (pages.free p).mpr (inside p has)
      refine Or.inr ⟨n, rest, here, some, free, ?_⟩
      intro use zone
      have fixed : s'.fixed = s.fixed := by
        rw [writes.fields]
        rfl
      have plain : ∀ p o, o = .outside ∨ o = .usage →
          (Slab.assign owner (n, k) (.block use n k) p = o ↔ owner p = o) := by
        intro p o kind
        by_cases new : Run.Has (n, k) p
        · rw [assign_in new, free p new]
          rcases kind with rfl | rfl <;> simp
        · rw [assign_out new]
      refine ⟨pages.geometry.congr fixed, list, gapped, ?_, ?_, ?_, BlockRuns.assign pages.block free wanted use, ?_⟩
      · intro p
        rw [left]
        by_cases new : Run.Has (n, k) p
        · rw [assign_in new]
          simp [new]
        · rw [assign_out new, pages.free p]
          simp [new]
      · intro p
        rw [plain p _ (Or.inl rfl)]
        exact pages.outside p
      · intro p
        rw [plain p _ (Or.inr rfl)]
        exact pages.usage p
      · intro z j owned
        rw [(fixed_eq.mp fixed).2.2.2.2.2]
        by_cases new : Run.Has (n, k) z
        · rw [assign_in new] at owned
          cases owned
          exact zone rfl
        · rw [assign_out new] at owned
          exact pages.zone z j owned

/-- The pages of a block become free. -/
theorem Pages.release (pages : Pages s owner runs first last) (owned : owner n = .block use n k) :
    ∃ s', rtPageFree s (addrOf n) k = some s' ∧
      s' = { s with word := s'.word, rtPageList := s'.rtPageList } ∧
      (∀ a, owner (pageNo a) ≠ .free → ¬Run.Has (n, k) (pageNo a) → s'.word a = s.word a) ∧
      Pages s' (Slab.assign owner (n, k) .free) (put n k runs) first last := by
  have all : ∀ q, Run.Has (n, k) q → owner q = .block use n k :=
    fun q inside => (pages.block q use n k).mpr ⟨owned, inside⟩
  have inside := ((pages.block n use n k).mp owned).2
  have some : 0 < k := by
    have upper := inside.2
    simp only at upper
    omega
  have low := (pages.inside (p := n) (by rw [owned]; simp)).1
  have page : addrOf n ≠ 0 := by
    have positive := pages.geometry.some
    unfold addrOf rtMmPageSize
    omega
  have out : ∀ p, Run.Has (n, k) p → ¬Covers runs p := by
    intro p has covers
    have free := (pages.free p).mpr covers
    rw [all p has] at free
    cases free
  obtain ⟨s', result, writes, list⟩ := rtPageFree_spec some page pages.list pages.gapped out pages.fuel
  obtain ⟨gapped, covers⟩ := put_spec pages.gapped some out
  have fixed : s'.fixed = s.fixed := by
    rw [writes.fields]
    rfl
  have plain : ∀ p o, o = .outside ∨ o = .usage → (Slab.assign owner (n, k) .free p = o ↔ owner p = o) := by
    intro p o kind
    by_cases old : Run.Has (n, k) p
    · rw [assign_in old, all p old]
      rcases kind with rfl | rfl <;> simp
    · rw [assign_out old]
  refine ⟨s', result, writes.fields, ?_, pages.geometry.congr fixed, list, gapped, ?_, ?_, ?_,
    BlockRuns.release pages.block owned, ?_⟩
  · intro a used other
    exact writes.words a (by simp) (not_or.mpr ⟨fun covers => used ((pages.free _).mpr covers), other⟩)
  · intro p
    rw [covers]
    by_cases old : Run.Has (n, k) p
    · rw [assign_in old]
      simp [old]
    · rw [assign_out old, pages.free p]
      simp [old]
  · intro p
    rw [plain p _ (Or.inl rfl)]
    exact pages.outside p
  · intro p
    rw [plain p _ (Or.inr rfl)]
    exact pages.usage p
  · intro z j other
    rw [(fixed_eq.mp fixed).2.2.2.2.2]
    by_cases old : Run.Has (n, k) z
    · rw [assign_in old] at other
      cases other
    · rw [assign_out old] at other
      exact pages.zone z j other

theorem Entries.assign (entries : Entries s owner) (fixed : s'.fixed = s.fixed)
    (kept : ∀ p, owner p ≠ .outside → ¬Run.Has (n, k) p →
      s'.word (s.btokup (addrOf p)) = s.word (s.btokup (addrOf p)))
    (small : ∀ p z j, Run.Has (n, k) p → o = .block .zone z j →
      s'.word (s.btokup (addrOf p)) = pageTypeSmall + 4 * (p - z))
    (large : ∀ m j, Run.Has (n, k) m → o = .block .large m j →
      s'.word (s.btokup (addrOf m)) = pageTypeLarge + 4 * j) : Entries s' (Slab.assign owner (n, k) o) := by
  constructor
  · intro p z j owned
    rw [btokup_fixed fixed]
    by_cases new : Run.Has (n, k) p
    · rw [assign_in new] at owned
      exact small p z j new owned
    · rw [assign_out new] at owned
      rw [kept p (by rw [owned]; simp) new]
      exact entries.small p z j owned
  · intro m j owned
    rw [btokup_fixed fixed]
    by_cases new : Run.Has (n, k) m
    · rw [assign_in new] at owned
      exact large m j new owned
    · rw [assign_out new] at owned
      rw [kept m (by rw [owned]; simp) new]
      exact entries.large m j owned

theorem Pages.setKup_others (pages : Pages s owner runs first last) (low : first ≤ n) (inside : Run.Has (n, k) n)
    (owned : owner p ≠ .outside) (out : ¬Run.Has (n, k) p) {v : Nat} :
    (s.put (s.btokup (addrOf n)) v).word (s.btokup (addrOf p)) = s.word (s.btokup (addrOf p)) := by
  have other : s.btokup (addrOf p) ≠ s.btokup (addrOf n) := by
    rw [Ne, pages.geometry.entry_inj (pages.inside owned).1 low]
    rintro rfl
    exact out inside
  rw [put_word, if_neg other]

theorem Pages.fillEntries (pages : Pages s owner runs first last) (low : first ≤ n) (type : Nat) (f : Nat → Nat)
    (g : Heap → Nat → Heap)
    (step : ∀ w i, g { s with word := w } i =
      { s with word := w }.put (s.btokup (addrOf n) + i * sizeofMemusage) (type + 4 * (f i % 2 ^ 30))) :
    ∃ w, (List.range k).foldl g s = { s with word := w } ∧
      (∀ p, Run.Has (n, k) p → w (s.btokup (addrOf p)) = type + 4 * (f (p - n) % 2 ^ 30)) ∧
      (∀ p, owner p ≠ .outside → ¬Run.Has (n, k) p → w (s.btokup (addrOf p)) = s.word (s.btokup (addrOf p))) ∧
      ∀ a, (∀ p, Run.Has (n, k) p → a ≠ s.btokup (addrOf p)) → w a = s.word a := by
  obtain ⟨w, result, written, kept⟩ := fill_spec (f := fun i => type + 4 * (f i % 2 ^ 30)) (s.btokup (addrOf n)) k step
  have place : ∀ p, first ≤ p → n ≤ p → s.btokup (addrOf p) = s.btokup (addrOf n) + (p - n) * 4 := by
    intro p at_least ahead
    rw [pages.geometry.entry at_least, pages.geometry.entry low]
    omega
  refine ⟨w, result, ?_, ?_, ?_⟩
  · rintro p ⟨lower, upper⟩
    simp only at lower upper
    rw [place p (Nat.le_trans low lower) lower]
    exact written (p - n) (by omega)
  · intro p owned out
    have inside := (pages.inside owned).1
    apply kept
    intro i less
    rw [pages.geometry.entry inside, pages.geometry.entry low]
    intro same
    exact out ⟨by simp only; omega, by simp only; omega⟩
  · intro a away
    apply kept
    intro i less same
    apply away (n + i) ⟨by simp only; omega, by simp only; omega⟩
    rw [same, place (n + i) (by omega) (by omega), Nat.add_sub_cancel_left]

end RtThread.Slab

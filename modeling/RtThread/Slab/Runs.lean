import RtThread.Run
import RtThread.Slab.Free

/-! Runs of the slab allocator from rt_system_heap_init on: its callers ask for memory, use what they
have got, and give it back. -/
namespace RtThread.Slab
open Intervals Linked Transition

variable {s s' : Heap} {g : Layout} {live : List (Nat × Nat)} {a b first i k last n p q r t v z : Nat} {x : Zone}

theorem growZone_sizes (limsize : Nat) : growZone limsize 2 zallocMinZoneSize = 8 * rtMmPageSize ∨
    growZone limsize 2 zallocMinZoneSize = 16 * rtMmPageSize ∨
    growZone limsize 2 zallocMinZoneSize = 32 * rtMmPageSize := by
  simp only [growZone]
  split_ifs
  · exact Or.inr (Or.inr rfl)
  · exact Or.inr (Or.inl rfl)
  · exact Or.inl rfl

/-- The pages after rt_system_heap_init. -/
def firstOwner (first last p : Nat) : Owner :=
  if first ≤ p ∧ p < last then (if p < first + usagePages first last then .usage else .free) else .outside

theorem usagePages_range (order : first < last) : 0 < usagePages first last ∧ usagePages first last ≤ last - first := by
  unfold usagePages sizeofMemusage rtMmPageSize
  lia

theorem take_single (enough : k ≤ n) :
    take k [(a, n)] = some (a, if k < n then [(a + k, n - k)] else []) := by
  rw [take]
  split
  · rfl
  · rw [if_pos (by lia)]

theorem firstOwner_free (order : first < last) :
    firstOwner first last p = .free ↔ Covers (if usagePages first last < last - first then
      [(first + usagePages first last, last - first - usagePages first last)] else []) p := by
  have range := usagePages_range order
  have free : firstOwner first last p = .free ↔ first + usagePages first last ≤ p ∧ p < last := by
    unfold firstOwner
    split_ifs <;> simp only [false_iff, true_iff] <;> lia
  rw [free]
  by_cases less : usagePages first last < last - first
  · rw [if_pos less, covers_cons]
    unfold Run.Has
    simp only [covers_nil, or_false]
    lia
  · rw [if_neg less]
    simp only [covers_nil, iff_false]
    lia

theorem firstOwner_usage : firstOwner first last p = .usage ↔
    (first ≤ p ∧ p < last) ∧ p < first + usagePages first last := by
  unfold firstOwner
  split_ifs <;> simp only [false_iff, true_iff] <;> lia

theorem firstOwner_outside : firstOwner first last p = .outside ↔ ¬(first ≤ p ∧ p < last) := by
  unfold firstOwner
  split_ifs <;> simp_all

theorem firstOwner_block {use : Use} : firstOwner first last p ≠ .block use n k := by
  unfold firstOwner
  split_ifs <;> simp

theorem initPages (order : first < last) (some_page : 0 < first) (start : s.heapStart = addrOf first)
    (stop : s.heapEnd = addrOf last) :
    ∃ s₁ s₂ runs, rtPageInit s (addrOf first) (last - first) = some s₁ ∧
      rtPageAlloc s₁ (usagePages first last) = some (s₂, addrOf first) ∧
      s₂ = { s with word := s₂.word, rtPageList := s₂.rtPageList } ∧ PageList s₂.word s₂.rtPageList runs ∧
      Gapped runs ∧ ∀ p, firstOwner first last p = .free ↔ Covers runs p := by
  have page : addrOf first ≠ 0 := by
    unfold addrOf rtMmPageSize
    lia
  have range := usagePages_range order
  have empty : PageList ({ s with rtPageList := 0 } : Heap).word ({ s with rtPageList := 0 } : Heap).rtPageList [] :=
    pageList_nil.mpr rfl
  have none : Gapped [] := ⟨by simp, .nil⟩
  have room : ([] : List Run).length < ({ s with rtPageList := 0 } : Heap).listFuel := by
    rw [listFuel_eq (s := ({ s with rtPageList := 0 } : Heap)) start stop]
    exact Nat.succ_pos _
  obtain ⟨s₁, freed, wrote, list⟩ := rtPageFree_spec (k := last - first) (by lia) page empty none
    (fun _ _ => covers_nil) room
  rw [put] at list
  have whole : Gapped [(first, last - first)] := gapped_cons.mpr ⟨by simp only; lia, by simp, none⟩
  have room' : [(first, last - first)].length < s₁.listFuel := by
    rw [listFuel_eq (by rw [wrote.fields]; exact start) (by rw [wrote.fields]; exact stop)]
    simp only [List.length_cons, List.length_nil]
    lia
  obtain ⟨s₂, b, taken, wrote', outcome⟩ := rtPageAlloc_spec range.1 list whole room'
  rw [take_single range.2] at outcome
  rcases outcome with ⟨_, absent, _⟩ | ⟨n, rest, here, _, same, list'⟩
  · cases absent
  · cases same
    refine ⟨s₁, s₂, _, ?_, ?_, ?_, list', ?_, fun p => firstOwner_free order⟩
    · rw [rtPageInit, if_pos ⟨page, by lia⟩]
      exact freed
    · rw [taken, here]
    · rw [wrote'.fields, wrote.fields]
    · split
      · exact gapped_cons.mpr ⟨by simp only; lia, by simp, none⟩
      · exact none

theorem rtAlign_page (a : Nat) : rtAlign a rtMmPageSize = addrOf ((a + 4095) % 2 ^ 32 / 4096) := by
  unfold rtAlign addrOf rtMmPageSize
  rfl

theorem rtAlignDown_page (a : Nat) : rtAlignDown a rtMmPageSize = addrOf (a / 4096) := by
  unfold rtAlignDown addrOf rtMmPageSize
  rfl

theorem addrOf_sub_div (first last : Nat) : (addrOf last - addrOf first) / rtMmPageSize = last - first := by
  unfold addrOf rtMmPageSize
  lia

theorem usagePages_eq (most : last ≤ 2 ^ 20) :
    rtAlign ((last - first) * sizeofMemusage) rtMmPageSize / rtMmPageSize = usagePages first last := by
  unfold rtAlign usagePages sizeofMemusage rtMmPageSize
  lia

/-- What rt_system_heap_init leaves behind, where it does not refuse the region. -/
theorem init_sound {word : Nat → Nat} {beginAddr endAddr : Nat} (small : endAddr < 2 ^ 32)
    (init : rtSystemHeapInit word beginAddr endAddr = some s) : ∃ g, Sound s g [] := by
  simp only [rtSystemHeapInit, rtAlign_page beginAddr, rtAlignDown_page, addrOf_sub_div] at init
  generalize (beginAddr + 4095) % 2 ^ 32 / 4096 = first at init
  have most : endAddr / 4096 ≤ 2 ^ 20 := by lia
  generalize endAddr / 4096 = last at init most
  simp only [usagePages_eq most] at init
  split at init
  · cases init
  · rename_i order
    rw [addrOf_le, Nat.not_le] at order
    obtain ⟨u, started, rest⟩ := Option.bind_eq_some_iff.mp init
    obtain ⟨r, taken, same⟩ := Option.map_eq_some_iff.mp rest
    generalize sizes : growZone (addrOf last - addrOf first) 2 zallocMinZoneSize = zoneSize at started
    have kinds := growZone_sizes (addrOf last - addrOf first)
    rw [sizes] at kinds
    have some_page : 0 < first := by
      unfold rtPageInit at started
      split at started
      · rename_i page
        by_contra none
        apply page.1
        unfold addrOf
        rw [Nat.eq_zero_of_not_pos none, Nat.zero_mul]
      · cases started
    obtain ⟨s₁, s₂, runs, first_init, alloc, fields, list, gapped, free⟩ := initPages (s := (⟨word, addrOf first,
      addrOf last, 0, 0, fun _ => 0, 0, 0, zoneSize,
      if zallocZoneLimit < zoneSize / 4 then zallocZoneLimit else zoneSize / 4,
      zoneSize / rtMmPageSize⟩ : Heap)) order some_page rfl rfl
    rw [first_init] at started
    cases started
    rw [alloc] at taken
    cases taken
    have cnt : s.zonePageCnt = zoneSize / rtMmPageSize := by
      rw [← same, fields]
    have array : s.zoneArray = fun _ => 0 := by
      rw [← same, fields]
    have parked : s.zoneFree = 0 := by
      rw [← same, fields]
    have count : s.zoneFreeCnt = 0 := by
      rw [← same, fields]
    have range := usagePages_range order
    refine ⟨⟨firstOwner first last, runs, fun _ => none, fun _ => [], [], first, last⟩,
      ⟨?_, ?_, gapped, ?_, ?_, ?_, ?_, ?_⟩,
      ⟨?_, ?_⟩, ⟨⟨?_, ?_, ?_⟩, ⟨?_, ?_, ?_, ?_, ?_⟩, ⟨?_, ?_⟩⟩, ?_, ⟨?_, ?_, ?_⟩⟩
    · rw [← same, fields]
      unfold zallocZoneLimit rtMmPageSize at *
      refine ⟨rfl, rfl, rfl, some_page, order, most, ?_, ?_, ?_, ?_⟩
      · simp only
        unfold rtMmPageSize
        lia
      · simp only
        lia
      · simp only
        split <;> lia
      · simp only
        split <;> lia
    · rw [← same]
      exact list
    · exact free
    · exact fun p => firstOwner_outside
    · intro p
      rw [firstOwner_usage]
      simp only
      lia
    · intro p use n k
      simp [firstOwner_block]
    · intro z k owned
      exact absurd owned firstOwner_block
    · intro p z k owned
      exact absurd owned firstOwner_block
    · intro n k owned
      exact absurd owned firstOwner_block
    · intro z x found
      cases found
    · intro z x found
      cases found
    · intro z x y w found
      cases found
    · intro zi
      rw [array]
      rfl
    · exact parked
    · exact count
    · exact fun _ => List.nodup_nil
    · exact List.nodup_nil
    · simp
    · simp
    · intro z
      simp [firstOwner_block]
    · exact List.nodup_nil
    · intro p
      simp [Area, firstOwner_block]
    · intro b member
      cases member

theorem Sound.area_place (sound : Sound s g live) (area : Area g.owner g.zone p r) :
    ∃ use n k, g.owner n = .block use n k ∧ addrOf n ≤ p ∧ p + r ≤ addrOf (n + k) ∧ (use = .large → p = addrOf n) ∧
      (use = .zone → ∃ x i, g.zone n = some x ∧ p = chunkAt n x i ∧ r = x.size) := by
  rcases area with ⟨n, k, owned, rfl, rfl⟩ | ⟨z, x, i, found, taken, rfl, rfl⟩
  · refine ⟨.large, n, k, owned, Nat.le_refl _, Nat.le_of_eq (addrOf_add n k), fun _ => rfl, ?_⟩
    intro absent
    cases absent
  · have ok := sound.zones.map.ok z x found
    have range := ok.chunk_range (z := z) (taken.chunk ok)
    refine ⟨.zone, z, _, (sound.owned z).mpr ⟨x, found⟩, by lia, range.2, ?_, fun _ => ⟨x, i, found, rfl, rfl⟩⟩
    intro absent
    cases absent

theorem Pages.blocks_apart {owner : Nat → Owner} {runs : List Run} {use use' : Use} {j m : Nat}
    (pages : Pages s owner runs first last) (owned : owner n = .block use n k) (owned' : owner m = .block use' m j)
    (distinct : n ≠ m) : n + k ≤ m ∨ m + j ≤ n := by
  have upper := ((pages.block n use n k).mp owned).2.2
  have upper' := ((pages.block m use' m j).mp owned').2.2
  simp only at upper upper'
  apply apart_of_outside (r := (n, k)) (by simp only; lia) (by lia)
  intro p inside here
  have one := (pages.block p use n k).mpr ⟨owned, here⟩
  rw [(pages.block p use' m j).mpr ⟨owned', inside⟩] at one
  cases one
  exact distinct rfl

theorem Sound.apart (sound : Sound s g live) (area : Area g.owner g.zone p r) (other : Area g.owner g.zone q t)
    (distinct : p ≠ q) : p + r ≤ q ∨ q + t ≤ p := by
  obtain ⟨use, n, k, owned, low, high, large, chunk⟩ := sound.area_place area
  obtain ⟨use', m, j, owned', low', high', large', chunk'⟩ := sound.area_place other
  by_cases same : n = m
  · subst same
    rw [owned] at owned'
    cases owned'
    cases use with
    | large => exact absurd ((large rfl).trans (large' rfl).symm) distinct
    | zone =>
      obtain ⟨x, i, found, rfl, rfl⟩ := chunk rfl
      obtain ⟨y, j, found', rfl, rfl⟩ := chunk' rfl
      rw [found] at found'
      cases found'
      rw [Ne, chunkAt_inj] at distinct
      rcases Nat.lt_or_gt_of_ne distinct with less | more
      · exact Or.inl (chunks_apart less)
      · exact Or.inr (chunks_apart more)
  · rcases sound.pages.blocks_apart owned owned' same with before | after
    · have le := addrOf_le.mpr before
      lia
    · have le := addrOf_le.mpr after
      lia

theorem Sound.store (sound : Sound s g live) (area : Area g.owner g.zone p r) (low : p ≤ a) (high : a < p + r) :
    Sound (s.put a v) g live := by
  have same : (s.put a v).fixed = s.fixed := rfl
  rcases id area with ⟨n, k, owned, rfl, rfl⟩ | ⟨z, x, i, found, taken, rfl, rfl⟩
  · have inside : Run.Has (n, k) (pageNo a) := by
      rw [addrOf_add] at high
      exact pageNo_between low high
    have here := (sound.pages.block _ _ n k).mpr ⟨owned, inside⟩
    have kept : ∀ b, g.owner (pageNo b) ≠ .block .large n k → (s.put a v).word b = s.word b := by
      intro b other
      rw [put_word, if_neg]
      rintro rfl
      exact other here
    refine ⟨?_, ?_, ?_, sound.owned, sound.live⟩
    · apply sound.pages.congr same rfl
      intro b unused
      apply kept
      rw [unused]
      simp
    · apply sound.entries.congr same (fun p => sound.pages.entry_usage)
      intro b usage
      apply kept
      rw [usage]
      simp
    · apply sound.page_writes rfl
      rintro b ⟨z, j, other⟩
      apply kept
      rw [other]
      simp
  · have ok := sound.zones.map.ok z x found
    have chunk := taken.chunk ok
    have range := ok.chunk_range (z := z) chunk
    have inside := ok.chunk_page chunk low high
    have kept : KeepsOthers s (s.put a v) z := by
      intro b outside
      rw [put_word, if_neg]
      rintro rfl
      exact outside inside
    have header : ∀ n < 36, (s.put a v).word (addrOf z + n) = s.word (addrOf z + n) := by
      intro n small
      rw [put_word, if_neg (by lia)]
    have old := sound.zones.map.rep z x found
    have rep : ZoneRep (s.put a v) z x := by
      apply old.change rfl rfl
      · intro n member
        simp only [List.mem_cons, List.not_mem_nil, or_false] at member
        exact header n (by lia)
      · exact fun used => (header 0 (by decide)).trans (old.magic used)
      · exact (header 4 (by decide)).trans old.nfree
      · exact (header 20 (by decide)).trans old.uindex
      · rw [header 32 (by decide)]
        apply old.chunks.congr
        intro j member
        have other : i ≠ j := by
          rintro rfl
          exact taken.2.2 member
        rw [put_word, if_neg]
        rintro rfl
        have least := Zone.Ok.size_min x
        rcases Nat.lt_or_gt_of_ne other with less | more
        · have apart := chunks_apart (z := z) (x := x) less
          lia
        · have apart := chunks_apart (z := z) (x := x) more
          lia
    obtain ⟨pages, entries⟩ := sound.zone_writes same rfl (fun b other => kept b (other z x found))
    have map := sound.zones.map.put rep ok (sound.zones.map.separate found) rfl kept
    rw [Function.update_eq_self_iff.mpr found.symm] at map
    exact ⟨pages, entries, ⟨map, sound.zones.lists_kept found kept (header 12 (by decide)) rfl rfl rfl,
      sound.zones.placed⟩, sound.owned, sound.live⟩

structure System where
  heap : Heap
  live : List (Nat × Nat)

inductive Action where
  | malloc (size : Nat)
  | free (ptr : Nat)
  | store (addr value : Nat)

inductive Event where
  | malloc (size p : Nat)
  | free (ptr : Nat)

/-- Callers free what they have got, or null, and write to what they have got. -/
def System.allows (s : System) : Action → Bool
  | .malloc size => size < 2 ^ 32
  | .free ptr => ptr = 0 ∨ ptr ∈ s.live.map Prod.fst
  | .store addr _ => s.live.any (fun b => b.1 ≤ addr ∧ addr < b.1 + b.2)

def System.call (s : System) : Action → Option (System × List Event)
  | .malloc size => (rtMalloc s.heap size).map (fun r =>
      (⟨r.1, if r.2 = 0 then s.live else (r.2, size) :: s.live⟩, [.malloc size r.2]))
  | .free ptr => (rtFree s.heap ptr).map (fun h => (⟨h, s.live.filter (fun b => b.1 ≠ ptr)⟩, [.free ptr]))
  | .store addr value => some (⟨s.heap.put addr value, s.live⟩, [])

def step (s : System) (a : Action) : Option (System × List Event) :=
  if s.allows a then s.call a else none

/-- After rt_system_heap_init of a region that it takes. -/
def Start (s : System) : Prop :=
  (∃ word beginAddr endAddr, beginAddr < 2 ^ 32 ∧ endAddr < 2 ^ 32 ∧
    rtSystemHeapInit word beginAddr endAddr = some s.heap) ∧ s.live = []

def machine : Machine System Action Event where
  start := Start
  step := step

/-- What the three layers promise, over one layout of the heap. -/
structure HeapSound (s : System) (g : Layout) : Prop where
  sound : Sound s.heap g s.live
  sorted : g.runs.Pairwise (fun r q => addrOf r.1 + s.heap.page (addrOf r.1) * rtMmPageSize < addrOf q.1)
  whole : ∀ p, g.first + usagePages g.first g.last ≤ p ∧ p < g.last ↔
    Covers g.runs p ∨ ∃ use n k, g.owner p = .block use n k
  ofZone : ∀ p, (∃ z k, g.owner p = .block .zone z k) ↔
    ∃ z x, g.zone z = some x ∧ Run.Has (z, s.heap.zonePageCnt) p
  ofLarge : ∀ p n k, g.owner p = .block .large n k → addrOf n ∈ s.live.map Prod.fst ∧ Run.Has (n, k) p
  nfree : ∀ z x, g.zone z = some x →
    Listed s.heap.word (chunkAt z x) 0 (s.heap.zFreechunk (addrOf z)) x.frees ∧
      s.heap.zNfree (addrOf z) = s.heap.zNmax (addrOf z) - 1 - s.heap.zUindex (addrOf z) + x.frees.length
  linked : ∀ z x, g.zone z = some x → x.parked = false → ∀ zi, (g.linked zi).count z =
    if zi = s.heap.zZoneindex (addrOf z) ∧ 0 < s.heap.zNfree (addrOf z) then 1 else 0
  idle : ∀ z x, g.zone z = some x → g.idle.count z = (if x.parked then 1 else 0) ∧
    (x.parked = true → s.heap.zNfree (addrOf z) = s.heap.zNmax (addrOf z) ∧ ∀ zi, z ∉ g.linked zi)
  leads : ∀ z x p, g.zone z = some x → Run.Has (z, s.heap.zonePageCnt) p →
    s.heap.kupType (s.heap.btokup (addrOf p)) = pageTypeSmall ∧
      addrOf p - s.heap.kupSize (s.heap.btokup (addrOf p)) * rtMmPageSize = addrOf z
  apart : s.live.Pairwise (fun b c => b.1 + b.2 ≤ c.1 ∨ c.1 + c.2 ≤ b.1)
  returns : ∀ a, s.allows a → ∃ r, step s a = some r

theorem Sound.area_some (sound : Sound s g live) (area : Area g.owner g.zone p r) : p ≠ 0 := by
  obtain ⟨use, n, k, owned, low, _⟩ := sound.area_place area
  have page := sound.pages.some_page (n := n) (by rw [owned]; simp)
  lia

theorem Sound.call {s : System} {a : Action} (sound : Sound s.heap g s.live) (allowed : s.allows a = true) :
    ∃ s' e g', s.call a = some (s', e) ∧ Sound s'.heap g' s'.live := by
  cases a with
  | malloc size =>
    obtain ⟨h, p, g', result, sound'⟩ := sound.malloc (of_decide_eq_true allowed)
    exact ⟨_, _, g', by rw [System.call, result, Option.map_some], sound'⟩
  | free ptr =>
    rcases of_decide_eq_true allowed with rfl | member
    · refine ⟨⟨s.heap, s.live.filter (fun b => b.1 ≠ 0)⟩, [.free 0], g,
        by rw [System.call, rtFree, if_pos rfl, Option.map_some], sound.pages, sound.entries, sound.zones,
        sound.owned, ?_⟩
      exact sound.live.remove (fun q t => ⟨fun area => ⟨area, sound.area_some area⟩, And.left⟩)
    · obtain ⟨h, g', result, sound'⟩ := sound.free member
      exact ⟨_, _, g', by rw [System.call, result, Option.map_some], sound'⟩
  | store addr value =>
    obtain ⟨b, member, inside⟩ := List.any_eq_true.mp allowed
    obtain ⟨low, high⟩ := of_decide_eq_true inside
    obtain ⟨r, area⟩ := (sound.live.there b.1).mp (List.mem_map_of_mem member)
    have room := sound.live.room b member r area
    exact ⟨_, _, g, rfl, sound.store area low (by lia)⟩

theorem run_sound {tr : List Event} {s : System} (run : Run machine tr s) : ∃ g, Sound s.heap g s.live := by
  apply run.always (I := fun s => ∃ g, Sound s.heap g s.live)
  · rintro s ⟨⟨word, beginAddr, endAddr, _, small, init⟩, none⟩
    rw [none]
    exact init_sound small init
  · rintro s a s' es ⟨g, sound⟩ taken
    change step s a = some (s', es) at taken
    unfold step at taken
    split at taken
    · rename_i allowed
      obtain ⟨t, e, g', called, sound'⟩ := sound.call allowed
      rw [called] at taken
      cases taken
      exact ⟨g', sound'⟩
    · cases taken

theorem Sound.whole (sound : Sound s g live) : g.first + usagePages g.first g.last ≤ p ∧ p < g.last ↔
    Covers g.runs p ∨ ∃ use n k, g.owner p = .block use n k := by
  have outside := sound.pages.outside p
  have usage := sound.pages.usage p
  rw [← sound.pages.free p]
  rcases owned : g.owner p with _ | _ | _ | ⟨use, n, k⟩ <;> simp [owned] at outside usage ⊢ <;> lia

theorem Sound.ofZone (sound : Sound s g live) : (∃ z k, g.owner p = .block .zone z k) ↔
    ∃ z x, g.zone z = some x ∧ Run.Has (z, s.zonePageCnt) p := by
  constructor
  · rintro ⟨z, k, owned⟩
    obtain ⟨head, inside⟩ := (sound.pages.block p _ z k).mp owned
    have count := sound.pages.zone z k head
    rw [count] at head inside
    obtain ⟨x, found⟩ := (sound.owned z).mp head
    exact ⟨z, x, found, inside⟩
  · rintro ⟨z, x, found, inside⟩
    exact ⟨z, _, sound.zone_page found inside⟩

theorem Sound.linked_once (sound : Sound s g live) (found : g.zone z = some x) (used : x.parked = false) (zi : Nat) :
    (g.linked zi).count z = if zi = s.zZoneindex (addrOf z) ∧ 0 < s.zNfree (addrOf z) then 1 else 0 := by
  have rep := sound.zones.map.rep z x found
  rw [rep.index, rep.nfree, (sound.zones.lists.once zi).count]
  refine if_congr ?_ rfl rfl
  rw [sound.zones.placed.offers zi z, found]
  simp only [Option.some.injEq, exists_eq_left', Zone.Offers, used, true_and, eq_comm]

theorem Sound.idle_once (sound : Sound s g live) (found : g.zone z = some x) :
    g.idle.count z = (if x.parked then 1 else 0) ∧ (x.parked = true → s.zNfree (addrOf z) = s.zNmax (addrOf z) ∧
      ∀ zi, z ∉ g.linked zi) := by
  have rep := sound.zones.map.rep z x found
  constructor
  · rw [sound.zones.lists.onceIdle.count]
    refine if_congr ?_ rfl rfl
    rw [sound.zones.placed.idles z, found]
    simp
  · intro parked
    have ok := sound.zones.map.ok z x found
    have whole := ok.whole parked
    have used := ok.used
    refine ⟨?_, fun zi member => ?_⟩
    · rw [rep.nfree, rep.nmax, Zone.nfree]
      lia
    · exact absurd ((sound.zones.placed.index_of found member).2.symm.trans parked) (by decide)

theorem Sound.sorted (sound : Sound s g live) :
    g.runs.Pairwise (fun r q => addrOf r.1 + s.page (addrOf r.1) * rtMmPageSize < addrOf q.1) := by
  apply sound.pages.gapped.apart.imp_of_mem
  intro r q here _ gap
  have count : s.page (addrOf r.1) = r.2 := sound.pages.list.counts r here
  rw [count, addrOf_add, addrOf_lt]
  exact gap

theorem Sound.live_apart (sound : Sound s g live) :
    live.Pairwise (fun b c => b.1 + b.2 ≤ c.1 ∨ c.1 + c.2 ≤ b.1) := by
  have once := List.pairwise_map.mp sound.live.once
  apply once.imp_of_mem
  intro b c first second distinct
  obtain ⟨r, area⟩ := (sound.live.there b.1).mp (List.mem_map_of_mem first)
  obtain ⟨t, other⟩ := (sound.live.there c.1).mp (List.mem_map_of_mem second)
  have room := sound.live.room b first r area
  have room' := sound.live.room c second t other
  have apart := sound.apart area other distinct
  lia

/-- In every sequence of calls the pages, the zones and the chunks stay sound, and nothing is handed out twice. -/
theorem slab_sound {tr : List Event} {s : System} (run : Run machine tr s) : ∃ g, HeapSound s g := by
  obtain ⟨g, sound⟩ := run_sound run
  refine ⟨g, sound, sound.sorted, fun p => sound.whole, fun p => sound.ofZone, ?_, ?_, ?_, ?_, ?_, sound.live_apart, ?_⟩
  · intro p n k owned
    obtain ⟨head, inside⟩ := (sound.pages.block p _ n k).mp owned
    exact ⟨(sound.live.there _).mpr ⟨_, Or.inl ⟨n, k, head, rfl, rfl⟩⟩, inside⟩
  · intro z x found
    have rep := sound.zones.map.rep z x found
    exact ⟨rep.chunks, by rw [rep.nfree, rep.nmax, rep.uindex, Zone.nfree]⟩
  · exact fun z x found used zi => sound.linked_once found used zi
  · exact fun z x found => sound.idle_once found
  · exact fun z x p found inside => sound.entry_leads found inside
  · intro a allowed
    obtain ⟨s', e, _, called, _⟩ := sound.call allowed
    exact ⟨(s', e), by rw [step, if_pos allowed, called]⟩

/-- The zone at 40960 becomes wholly free and is used again for chunks of 512 bytes, and the pages at 106496
are joined to those behind them. -/
theorem slab_sound_reused : ∃ s g, HeapSound s g ∧ s.live = [(41472, 500), (81920, 8000), (8232, 100)] ∧
    s.heap.rtPageList = 106496 ∧ s.heap.page 106496 = 14 := by
  obtain ⟨h, init⟩ := Option.isSome_iff_exists.mp
    (show (rtSystemHeapInit (fun _ => 0) 4096 163840).isSome by decide +kernel)
  have start : machine.start ⟨h, []⟩ := ⟨⟨_, 4096, 163840, by decide, by decide, init⟩, rfl⟩
  obtain ⟨tr, s, run, found⟩ := Run.reaches start
    [.malloc 100, .malloc 8000, .malloc 8000, .malloc 8000, .malloc 8000, .malloc 9000, .free 49152, .store 57344 7,
      .free 57344, .free 65536, .malloc 500, .free 106496]
    (fun s => decide (s.live = [(41472, 500), (81920, 8000), (8232, 100)] ∧ s.heap.rtPageList = 106496 ∧
      s.heap.page 106496 = 14)) (by cases Option.some.inj init; decide +kernel)
  obtain ⟨g, sound⟩ := slab_sound run
  exact ⟨s, g, sound, of_decide_eq_true found⟩

end RtThread.Slab

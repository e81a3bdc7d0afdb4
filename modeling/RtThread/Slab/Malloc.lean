import Mathlib.Data.List.Nodup
import RtThread.Slab.Owners

/-! The whole heap, with the areas that have been handed out: rt_malloc returns, and hands out one that
has not been. -/
namespace RtThread.Slab
open Intervals

structure Layout where
  owner : Nat → Owner
  runs : List Run
  zone : Nat → Option Zone
  linked : Nat → List Nat
  idle : List Nat
  first : Nat
  last : Nat

/-- The `r` bytes at `p` have been handed out: a large allocation, or a chunk. -/
def Area (owner : Nat → Owner) (zone : Nat → Option Zone) (p r : Nat) : Prop :=
  (∃ n k, owner n = .block .large n k ∧ p = addrOf n ∧ r = k * rtMmPageSize) ∨
    ∃ z x i, zone z = some x ∧ x.Live i ∧ p = chunkAt z x i ∧ r = x.size

/-- The areas that have been handed out, with the sizes that were asked for. -/
structure Live (area : Nat → Nat → Prop) (live : List (Nat × Nat)) : Prop where
  once : (live.map Prod.fst).Nodup
  there : ∀ p, p ∈ live.map Prod.fst ↔ ∃ r, area p r
  room : ∀ a ∈ live, ∀ r, area a.1 r → a.2 ≤ r

structure Sound (s : Heap) (g : Layout) (live : List (Nat × Nat)) : Prop where
  pages : Pages s g.owner g.runs g.first g.last
  entries : Entries s g.owner
  zones : Zones s g.zone g.linked g.idle
  owned : ∀ z, g.owner z = .block .zone z s.zonePageCnt ↔ ∃ x, g.zone z = some x
  live : Live (Area g.owner g.zone) live

variable {s s' : Heap} {g : Layout} {owner : Nat → Owner} {zone zone' : Nat → Option Zone}
  {live : List (Nat × Nat)} {area area' : Nat → Nat → Prop} {a i j k n p q r size z zi : Nat} {x y : Zone}

theorem Live.add (live_of : Live area live) (fresh : ∀ r, ¬area p r)
    (new : ∀ q t, area' q t ↔ area q t ∨ q = p ∧ t = r) (fits : size ≤ r) : Live area' ((p, size) :: live) := by
  have out : p ∉ live.map Prod.fst := by
    intro member
    obtain ⟨t, is_area⟩ := (live_of.there p).mp member
    exact fresh t is_area
  refine ⟨List.nodup_cons.mpr ⟨out, live_of.once⟩, ?_, ?_⟩
  · intro q
    rw [List.map_cons, List.mem_cons, live_of.there]
    constructor
    · rintro (rfl | ⟨t, is_area⟩)
      · exact ⟨r, (new q r).mpr (Or.inr ⟨rfl, rfl⟩)⟩
      · exact ⟨t, (new q t).mpr (Or.inl is_area)⟩
    · rintro ⟨t, is_area⟩
      rcases (new q t).mp is_area with old | ⟨same, _⟩
      · exact Or.inr ⟨t, old⟩
      · exact Or.inl same
  · intro b member t is_area
    rcases List.mem_cons.mp member with rfl | old
    · rcases (new _ t).mp is_area with absent | ⟨_, rfl⟩
      · exact absurd absent (fresh t)
      · exact fits
    · rcases (new _ t).mp is_area with before | ⟨same, _⟩
      · exact live_of.room b old t before
      · exact absurd (same ▸ List.mem_map_of_mem old) out

theorem Live.remove (live_of : Live area live) (new : ∀ q t, area' q t ↔ area q t ∧ q ≠ p) :
    Live area' (live.filter (fun b => b.1 ≠ p)) := by
  refine ⟨live_of.once.sublist (List.filter_sublist.map _), ?_, ?_⟩
  · intro q
    have old := live_of.there q
    simp only [new, exists_and_right, ← old, List.mem_map, List.mem_filter, decide_eq_true_eq]
    constructor
    · rintro ⟨b, ⟨member, away⟩, rfl⟩
      exact ⟨⟨b, member, rfl⟩, away⟩
    · rintro ⟨⟨b, member, rfl⟩, away⟩
      exact ⟨b, ⟨member, away⟩, rfl⟩
  · intro b kept t is_area
    exact live_of.room b (List.mem_filter.mp kept).1 t ((new _ t).mp is_area).1

theorem Live.congr (live_of : Live area live) (same : ∀ q t, area' q t ↔ area q t) : Live area' live := by
  refine ⟨live_of.once, ?_, fun b member t is_area => live_of.room b member t ((same _ t).mp is_area)⟩
  intro p
  rw [live_of.there]
  exact exists_congr (fun t => (same p t).symm)

theorem Sound.zone_page (sound : Sound s g live) (found : g.zone z = some x) (inside : Run.Has (z, s.zonePageCnt) p) :
    g.owner p = .block .zone z s.zonePageCnt :=
  (sound.pages.block p _ _ _).mpr ⟨(sound.owned z).mpr ⟨x, found⟩, inside⟩

theorem Pages.some_page {runs : List Run} {first last : Nat}
    (pages : Pages s owner runs first last) (owned : owner n ≠ .outside) : addrOf n ≠ 0 := by
  have low := (pages.inside owned).1
  have positive := pages.geometry.some
  unfold addrOf rtMmPageSize
  lia

theorem Sound.zone_some (sound : Sound s g live) (found : g.zone z = some x) : addrOf z ≠ 0 := by
  apply sound.pages.some_page
  rw [(sound.owned z).mpr ⟨x, found⟩]
  simp

theorem Zone.Live.chunk {pages : Nat} (chunk : x.Live i) (ok : x.Ok pages) : i < x.nmax :=
  Nat.lt_of_le_of_lt chunk.2.1 ok.used

theorem Sound.chunk_page (sound : Sound s g live) (found : g.zone z = some x) (chunk : i < x.nmax) :
    Run.Has (z, s.zonePageCnt) (pageNo (chunkAt z x i)) :=
  (sound.zones.map.ok z x found).chunk_page chunk (Nat.le_refl _) (Nat.lt_add_of_pos_right (by
    have least := Zone.Ok.size_min x
    lia))

theorem Sound.area_owner (sound : Sound s g live) (is_area : Area g.owner g.zone p r) :
    ∃ use n k, g.owner (pageNo p) = .block use n k := by
  rcases is_area with ⟨n, k, owned, rfl, _⟩ | ⟨z, x, i, found, chunk, rfl, _⟩
  · rw [addrOf_start]
    exact ⟨_, _, _, owned⟩
  · exact ⟨_, _, _, sound.zone_page found (sound.chunk_page found (chunk.chunk (sound.zones.map.ok z x found)))⟩

theorem Sound.area_in_zone (sound : Sound s g live) (found : g.zone z = some x)
    (inside : Run.Has (z, s.zonePageCnt) (pageNo p)) (is_area : Area g.owner g.zone p r) :
    ∃ i, x.Live i ∧ p = chunkAt z x i ∧ r = x.size := by
  have here := sound.zone_page found inside
  rcases is_area with ⟨n, k, owned, rfl, _⟩ | ⟨v, w, i, there, chunk, rfl, same⟩
  · rw [addrOf_start, owned] at here
    cases here
  · have other := sound.zone_page there (sound.chunk_page there (chunk.chunk (sound.zones.map.ok v w there)))
    rw [here] at other
    cases other
    rw [found] at there
    cases there
    exact ⟨i, chunk, rfl, same⟩

theorem Zones.congr {linked : Nat → List Nat} {idle : List Nat}
    (zones : Zones s zone linked idle) (array : s'.zoneArray = s.zoneArray) (free : s'.zoneFree = s.zoneFree)
    (count : s'.zoneFreeCnt = s.zoneFreeCnt) (pages : s'.zonePageCnt = s.zonePageCnt)
    (words : ∀ z x a, zone z = some x → Run.Has (z, s.zonePageCnt) (pageNo a) → s'.word a = s.word a) :
    Zones s' zone linked idle := by
  have links : ∀ z x, zone z = some x → s'.word (addrOf z + 12) = s.word (addrOf z + 12) :=
    fun z x found => words z x _ found ((zones.map.ok z x found).header_page (by decide))
  refine ⟨zones.map.congr pages (fun z x a found inside _ => words z x a found inside),
    ⟨?_, ?_, count.trans zones.lists.count, zones.lists.once, zones.lists.onceIdle⟩, zones.placed⟩
  · intro zi
    rw [array]
    apply (zones.lists.arrays zi).congr
    intro v member
    obtain ⟨w, there, _⟩ := (zones.placed.offers zi v).mp member
    exact links v w there
  · rw [free]
    apply zones.lists.parked.congr
    intro v member
    obtain ⟨w, there, _⟩ := (zones.placed.idles v).mp member
    exact links v w there

theorem Sound.zone_writes (sound : Sound s g live) (fixed : s'.fixed = s.fixed) (head : s'.rtPageList = s.rtPageList)
    (words : ∀ a, (∀ v w, g.zone v = some w → ¬Run.Has (v, s.zonePageCnt) (pageNo a)) → s'.word a = s.word a) :
    Pages s' g.owner g.runs g.first g.last ∧ Entries s' g.owner := by
  have kept : ∀ a, (∀ use n k, g.owner (pageNo a) ≠ .block use n k) → s'.word a = s.word a := by
    intro a other
    apply words
    intro v w there inside
    exact other _ _ _ (sound.zone_page there inside)
  refine ⟨sound.pages.congr fixed head ?_, sound.entries.congr fixed (fun p => sound.pages.entry_usage) ?_⟩
  · intro a free
    apply kept
    rw [free]
    simp
  · intro a usage
    apply kept
    rw [usage]
    simp

theorem Sound.page_writes (sound : Sound s g live)
    (fields : s' = { s with word := s'.word, rtPageList := s'.rtPageList })
    (words : ∀ a, (∃ z k, g.owner (pageNo a) = .block .zone z k) → s'.word a = s.word a) :
    Zones s' g.zone g.linked g.idle := by
  apply sound.zones.congr
  · rw [fields]
  · rw [fields]
  · rw [fields]
  · rw [fields]
  · intro z x a found inside
    exact words a ⟨z, _, sound.zone_page found inside⟩

theorem area_large (free : ∀ p, Run.Has (n, k) p → owner p = .free) (some : 0 < k) :
    Area (assign owner (n, k) (.block .large n k)) zone q r ↔
      Area owner zone q r ∨ q = addrOf n ∧ r = k * rtMmPageSize := by
  constructor
  · rintro (⟨m, j, owned, rfl, rfl⟩ | chunk)
    · by_cases new : Run.Has (n, k) m
      · rw [assign_in new] at owned
        cases owned
        exact Or.inr ⟨rfl, rfl⟩
      · rw [assign_out new] at owned
        exact Or.inl (Or.inl ⟨m, j, owned, rfl, rfl⟩)
    · exact Or.inl (Or.inr chunk)
  · rintro ((⟨m, j, owned, rfl, rfl⟩ | chunk) | ⟨rfl, rfl⟩)
    · refine Or.inl ⟨m, j, ?_, rfl, rfl⟩
      rw [assign_out]
      · exact owned
      · intro new
        rw [free m new] at owned
        cases owned
    · exact Or.inr chunk
    · exact Or.inl ⟨n, k, assign_in ⟨Nat.le_refl _, Nat.lt_add_of_pos_right some⟩, rfl, rfl⟩

theorem Sound.owned_assign {o : Owner} (sound : Sound s g live)
    (old : ∀ p, Run.Has (n, k) p → ∀ z, g.owner p ≠ .block .zone z s.zonePageCnt)
    (other : ∀ z, o ≠ .block .zone z s.zonePageCnt) :
    ∀ z, assign g.owner (n, k) o z = .block .zone z s.zonePageCnt ↔ ∃ x, g.zone z = some x := by
  intro z
  by_cases new : Run.Has (n, k) z
  · rw [assign_in new, ← sound.owned z]
    simp [other z, old z new z]
  · rw [assign_out new]
    exact sound.owned z

theorem Pages.few {runs : List Run} {first last : Nat} (pages : Pages s owner runs first last)
    (some : 0 < k) (owned : ∀ p, Run.Has (n, k) p → owner p ≠ .outside) : n + k ≤ 2 ^ 20 := by
  have inside := pages.inside (owned (n + k - 1) ⟨by simp only; lia, by simp only; lia⟩)
  have most := pages.geometry.most
  lia

theorem mallocLarge_eq : mallocLarge s size =
    (rtPageAlloc s (rtAlign size rtMmPageSize / rtMmPageSize)).map (fun r =>
      if r.2 = 0 then (r.1, 0)
      else (r.1.setKup (r.1.btokup r.2) pageTypeLarge (rtAlign size rtMmPageSize / rtMmPageSize), r.2)) := rfl

theorem Sound.mallocLarge (sound : Sound s g live) (small : size < 2 ^ 32) :
    ∃ s' p g', Slab.mallocLarge s size = some (s', p) ∧ Sound s' g' (if p = 0 then live else (p, size) :: live) := by
  rw [mallocLarge_eq]
  have enough : 0 < rtAlign size rtMmPageSize / rtMmPageSize →
      size ≤ rtAlign size rtMmPageSize / rtMmPageSize * rtMmPageSize := by
    unfold rtAlign rtMmPageSize
    lia
  generalize rtAlign size rtMmPageSize / rtMmPageSize = k at enough
  rcases Nat.eq_zero_or_pos k with rfl | wanted
  · exact ⟨s, 0, g, rfl, sound⟩
  obtain ⟨s₁, b, result, fields, words, outcome⟩ := sound.pages.alloc wanted
  rw [result]
  rcases outcome with ⟨rfl, rfl⟩ | ⟨n, rest, rfl, some_page, free, pages⟩
  · exact ⟨s₁, 0, g, rfl, sound⟩
  have pages := pages .large (by simp)
  have fixed : s₁.fixed = s.fixed := by
    rw [fields]
    rfl
  have cnt : s₁.zonePageCnt = s.zonePageCnt := (fixed_eq.mp fixed).2.2.2.2.2
  have first : Run.Has (n, k) n := ⟨Nat.le_refl _, Nat.lt_add_of_pos_right wanted⟩
  have low := (sound.pages.inside (p := n) (by rw [free n first]; simp)).1
  have few := sound.pages.few wanted (fun p new => by rw [free p new]; simp)
  have entry : ∀ v a, assign g.owner (n, k) (.block .large n k) (pageNo a) ≠ .usage →
      (s₁.put (s₁.btokup (addrOf n)) v).word a = s₁.word a := by
    intro v a other
    rw [put_word, if_neg]
    rintro rfl
    exact other (pages.entry_usage (by rw [assign_in first]; simp))
  have old : Entries s₁ g.owner := by
    apply sound.entries.congr fixed (fun p => sound.pages.entry_usage)
    intro a usage
    apply words
    rw [usage]
    simp
  simp only [Option.map_some, if_neg some_page]
  refine ⟨_, _, ⟨assign g.owner (n, k) (.block .large n k), rest, g.zone, g.linked, g.idle, g.first, g.last⟩, rfl, ?_⟩
  rw [if_neg some_page]
  have same : (s₁.setKup (s₁.btokup (addrOf n)) pageTypeLarge k).fixed = s₁.fixed := rfl
  refine ⟨?_, ?_, ?_, ?_, ?_⟩
  · apply pages.congr same rfl
    intro a unused
    apply entry
    rw [unused]
    simp
  · apply old.assign same
    · intro p owned out
      exact pages.setKup_others low first (by rw [assign_out out]; exact owned) out
    · intro p z j _ absent
      cases absent
    · intro m j _ same
      cases same
      have whole : k % 2 ^ 30 = k := Nat.mod_eq_of_lt (by lia)
      rw [Heap.setKup, put_word, if_pos rfl, whole]
  · apply sound.page_writes
    · rw [fields]
      rfl
    · rintro a ⟨z, j, owned⟩
      have out : ¬Run.Has (n, k) (pageNo a) := by
        intro new
        rw [free _ new] at owned
        cases owned
      refine (entry _ a ?_).trans (words a ?_)
      · rw [assign_out out, owned]
        simp
      · rw [owned]
        simp
  · have counted : (s₁.setKup (s₁.btokup (addrOf n)) pageTypeLarge k).zonePageCnt = s.zonePageCnt := cnt
    rw [counted]
    exact sound.owned_assign (fun p new => by rw [free p new]; simp) (by simp)
  · apply sound.live.add (r := k * rtMmPageSize) ?_ ?_ (enough wanted)
    · intro r is_area
      obtain ⟨use, m, j, owned⟩ := sound.area_owner is_area
      rw [addrOf_start, free n first] at owned
      cases owned
    · exact fun q t => area_large free wanted

theorem Zone.Hands.chunkAt_eq (hands : x.Hands y i) : chunkAt z y = chunkAt z x ∧ y.size = x.size := by
  have size : y.size = x.size := congrArg chunkSize hands.index
  refine ⟨?_, size⟩
  funext j
  rw [chunkAt, chunkAt, size]

theorem area_hands (found : zone z = some x) (hands : x.Hands y i) :
    Area owner (Function.update zone z (some y)) q r ↔ Area owner zone q r ∨ q = chunkAt z x i ∧ r = x.size := by
  obtain ⟨place, same⟩ := hands.chunkAt_eq (z := z)
  constructor
  · rintro (large | ⟨v, w, j, there, chunk, rfl, rfl⟩)
    · exact Or.inl (Or.inl large)
    · by_cases own : v = z
      · subst own
        rw [Function.update_self] at there
        cases there
        rw [place, same]
        rcases (hands.live j).mp chunk with old | rfl
        · exact Or.inl (Or.inr ⟨v, x, j, found, old, rfl, rfl⟩)
        · exact Or.inr ⟨rfl, rfl⟩
      · rw [Function.update_of_ne own] at there
        exact Or.inl (Or.inr ⟨v, w, j, there, chunk, rfl, rfl⟩)
  · have here : Function.update zone z (some y) z = some y := Function.update_self ..
    rintro ((large | ⟨v, w, j, there, chunk, rfl, rfl⟩) | ⟨rfl, rfl⟩)
    · exact Or.inl large
    · by_cases own : v = z
      · subst own
        rw [found] at there
        cases there
        exact Or.inr ⟨v, y, j, here, (hands.live j).mpr (Or.inl chunk), by rw [place], same.symm⟩
      · exact Or.inr ⟨v, w, j, by rw [Function.update_of_ne own]; exact there, chunk, rfl, rfl⟩
    · exact Or.inr ⟨z, y, i, here, (hands.live i).mpr (Or.inr rfl), by rw [place], same.symm⟩

theorem Sound.owned_update (sound : Sound s g live) (found : g.zone z = some x) :
    ∀ v, g.owner v = .block .zone v s.zonePageCnt ↔ ∃ w, Function.update g.zone z (some y) v = some w := by
  intro v
  rw [sound.owned v]
  by_cases own : v = z
  · rw [own, Function.update_self, found]
    simp
  · rw [Function.update_of_ne own]

theorem Sound.takeChunk (sound : Sound s g live) (head : s.zoneArray zi ≠ 0) (fits : size ≤ chunkSize zi) :
    ∃ s' p g', Slab.takeChunk s zi (s.zoneArray zi) (chunkSize zi) = some (s', p) ∧ p ≠ 0 ∧
      Sound s' g' ((p, size) :: live) := by
  have list := sound.zones.lists.arrays zi
  obtain ⟨z, rest, first⟩ : ∃ z rest, g.linked zi = z :: rest := by
    apply List.exists_cons_of_ne_nil
    rintro empty
    exact head (list.null_iff.mpr empty)
  rw [first] at list
  obtain ⟨x, found, offers⟩ := (sound.zones.placed.offers zi z).mp (by rw [first]; exact List.mem_cons_self)
  have index := offers.2.1
  have old_ok := sound.zones.map.ok z x found
  obtain ⟨s', y, i, result, hands, ok, rep, words, fields, link⟩ :=
    takeChunk_spec (sound.zones.map.rep z x found) old_ok offers
  rw [list.1]
  have range := old_ok.chunk_range (z := z) hands.chunk
  have fixed : s'.fixed = s.fixed := by
    rw [fields]
    rfl
  have cnt : s'.zonePageCnt = s.zonePageCnt := (fixed_eq.mp fixed).2.2.2.2.2
  obtain ⟨pages, entries⟩ := sound.zone_writes  fixed (by rw [fields]) (fun a other => words a (other z x found))
  have zones := sound.zones.takes found hands ok rep words (by rw [fields, index]) (by rw [fields]) (by rw [fields])
    cnt link (by rw [index]; exact first)
  refine ⟨s', _, { g with
    zone := Function.update g.zone z (some y)
    linked := if y.nfree = 0 then Function.update g.linked x.index rest else g.linked }, result, by lia,
    pages, entries, zones, ?_, ?_⟩
  · rw [cnt]
    exact sound.owned_update found
  · apply sound.live.add (r := x.size) ?_ (fun q t => area_hands found hands)
    · unfold Zone.size
      rw [index]
      exact fits
    · intro r is_area
      obtain ⟨j, chunk, same, _⟩ := sound.area_in_zone found (sound.chunk_page found hands.chunk) is_area
      rw [chunkAt_inj] at same
      exact hands.fresh (same ▸ chunk)

theorem area_new (none_live : ∀ w, zone z = some w → w.parked = true) (new : x.New zi) :
    Area owner (Function.update zone z (some x)) q r ↔ Area owner zone q r ∨ q = chunkAt z x 0 ∧ r = x.size := by
  have here : Function.update zone z (some x) z = some x := Function.update_self ..
  constructor
  · rintro (large | ⟨v, w, j, there, chunk, rfl, rfl⟩)
    · exact Or.inl (Or.inl large)
    · by_cases own : v = z
      · subst own
        rw [here] at there
        cases there
        rw [new.live] at chunk
        subst chunk
        exact Or.inr ⟨rfl, rfl⟩
      · rw [Function.update_of_ne own] at there
        exact Or.inl (Or.inr ⟨v, w, j, there, chunk, rfl, rfl⟩)
  · rintro ((large | ⟨v, w, j, there, chunk, rfl, rfl⟩) | ⟨rfl, rfl⟩)
    · exact Or.inl large
    · by_cases own : v = z
      · subst own
        exact absurd (chunk.1.symm.trans (none_live w there)) (by decide)
      · exact Or.inr ⟨v, w, j, by rw [Function.update_of_ne own]; exact there, chunk, rfl, rfl⟩
    · exact Or.inr ⟨z, x, 0, here, new.live.mpr rfl, rfl, rfl⟩

theorem Zones.setup {linked : Nat → List Nat} {idle : List Nat} (zones : Zones s zone linked idle)
    (absent : zone z = none) (apart : Separate s zone z) (some_page : addrOf z ≠ 0) (small : chunkSize zi ≤ 16384)
    (room : 4 * chunkSize zi ≤ s.zoneSize) (least : 32768 ≤ s.zoneSize)
    (whole : s.zoneSize = s.zonePageCnt * rtMmPageSize) :
    ∃ x s', setupZone s zi (addrOf z) (chunkSize zi) = s' ∧ x.New zi ∧ x.Ok s.zonePageCnt ∧
      s'.zBaseptr (addrOf z) + s'.zUindex (addrOf z) * chunkSize zi = chunkAt z x 0 ∧
      Zones s' (Function.update zone z (some x)) (Function.update linked zi (z :: linked zi)) idle ∧
      KeepsOthers s s' z ∧
      s' = { s with word := s'.word, zoneArray := Function.update s.zoneArray zi (addrOf z) } := by
  obtain ⟨x, new, ok, rep, words, fields, link⟩ := setupZone_spec (z := z) small room least whole
  generalize setupZone s zi (addrOf z) (chunkSize zi) = s' at rep words fields link
  refine ⟨x, s', rfl, new, ok, ?_, ?_, words, fields⟩
  · rw [rep.base, rep.uindex, new.used, Nat.zero_mul, Nat.add_zero]
  · refine zones.pushes apart new.offers ok rep words some_page (by rw [fields]) link (by rw [fields]) (by rw [fields])
      (by rw [fields]) ?_ ?_
    · intro j member
      obtain ⟨w, there, _⟩ := (zones.placed.offers j z).mp member
      rw [absent] at there
      cases there
    · intro member
      obtain ⟨w, there, _⟩ := (zones.placed.idles z).mp member
      rw [absent] at there
      cases there

theorem Sound.reuse (sound : Sound s g live) (some_idle : s.zoneFree ≠ 0) (small : chunkSize zi ≤ 16384)
    (room : 4 * chunkSize zi ≤ s.zoneSize) (fits : size ≤ chunkSize zi) :
    ∃ s' p g', mallocZone s zi (chunkSize zi) = some (s', p) ∧ p ≠ 0 ∧ Sound s' g' ((p, size) :: live) := by
  have list := sound.zones.lists.parked
  obtain ⟨z, rest, first⟩ : ∃ z rest, g.idle = z :: rest := by
    apply List.exists_cons_of_ne_nil
    rintro empty
    exact some_idle (list.null_iff.mpr empty)
  rw [first] at list
  have here := list.1
  obtain ⟨x, found, parked⟩ := (sound.zones.placed.idles z).mp (by rw [first]; exact List.mem_cons_self)
  have zones := sound.zones
  rw [first] at zones
  have zones := zones.unparks
  generalize before : ({ s with zoneFree := s.zNext (addrOf z), zoneFreeCnt := s.zoneFreeCnt - 1 } : Heap) = t at zones
  have same : t.fixed = s.fixed := by
    rw [← before]
    rfl
  obtain ⟨_, _, _, sizes, _, counts⟩ := fixed_eq.mp same
  have geometry := sound.pages.geometry
  have apart : Separate t (Function.update g.zone z none) z := by
    intro v w other there
    rw [Function.update_of_ne other] at there
    rw [counts]
    exact sound.zones.map.separate found v w other there
  have least : 32768 ≤ s.zoneSize := by
    have whole := geometry.size
    unfold rtMmPageSize at whole
    rcases geometry.pages with eight | sixteen | more <;> lia
  obtain ⟨y, s', result, new, ok, place, zones', words, fields⟩ := zones.setup (Function.update_self ..) apart
    (sound.zone_some found) small (by rw [sizes]; exact room) (by rw [sizes]; exact least)
    (by rw [sizes, counts]; exact geometry.size)
  rw [Function.update_idem] at zones'
  have fixed : s'.fixed = s.fixed := by
    rw [← same, fields]
    rfl
  have cnt : s'.zonePageCnt = s.zonePageCnt := (fixed_eq.mp fixed).2.2.2.2.2
  have kept : KeepsOthers s s' z := by
    intro a outside
    have inner : t.word a = s.word a := by rw [← before]
    rw [← inner]
    exact words a (by rw [counts]; exact outside)
  obtain ⟨pages, entries⟩ :=
    sound.zone_writes fixed (by rw [fields, ← before]) (fun a other => kept a (other z x found))
  have range := ok.chunk_range (z := z) (Nat.lt_trans Nat.zero_lt_one new.more)
  have called : mallocZone s zi (chunkSize zi) = some (s', chunkAt z y 0) := by
    rw [mallocZone]
    simp only [here, before, result, place]
    exact if_pos (sound.zone_some found)
  refine ⟨s', _, { g with
    zone := Function.update g.zone z (some y)
    linked := Function.update g.linked zi (z :: g.linked zi)
    idle := rest }, called, by lia, pages, entries, zones', ?_, ?_⟩
  · rw [cnt]
    exact sound.owned_update found
  · have none_live : ∀ w, g.zone z = some w → w.parked = true := by
      intro w there
      rw [found] at there
      cases there
      exact parked
    apply sound.live.add (r := y.size) ?_ (fun q t => area_new none_live new)
    · unfold Zone.size
      rw [new.index]
      exact fits
    · intro r is_area
      have inside := ok.chunk_page (z := z) (Nat.lt_trans Nat.zero_lt_one new.more) (Nat.le_refl _)
        (Nat.lt_add_of_pos_right (by have least := Zone.Ok.size_min y; lia))
      rw [counts] at inside
      obtain ⟨j, chunk, _⟩ := sound.area_in_zone found inside is_area
      exact absurd (chunk.1.symm.trans parked) (by decide)

theorem area_zone (free : ∀ p, Run.Has (n, k) p → owner p = .free) :
    Area (assign owner (n, k) (.block .zone n k)) zone q r ↔ Area owner zone q r := by
  constructor
  · rintro (⟨m, j, owned, rfl, rfl⟩ | chunk)
    · by_cases new : Run.Has (n, k) m
      · rw [assign_in new] at owned
        cases owned
      · rw [assign_out new] at owned
        exact Or.inl ⟨m, j, owned, rfl, rfl⟩
    · exact Or.inr chunk
  · rintro (⟨m, j, owned, rfl, rfl⟩ | chunk)
    · refine Or.inl ⟨m, j, ?_, rfl, rfl⟩
      rw [assign_out]
      · exact owned
      · intro new
        rw [free m new] at owned
        cases owned
    · exact Or.inr chunk

theorem Sound.owned_new (sound : Sound s g live) (free : ∀ p, Run.Has (n, s.zonePageCnt) p → g.owner p = .free)
    (some_pages : 0 < s.zonePageCnt) :
    ∀ v, assign g.owner (n, s.zonePageCnt) (.block .zone n s.zonePageCnt) v = .block .zone v s.zonePageCnt ↔
      ∃ w, Function.update g.zone n (some y) v = some w := by
  intro v
  by_cases at_n : v = n
  · subst at_n
    rw [Function.update_self]
    exact ⟨fun _ => ⟨y, rfl⟩, fun _ => assign_in ⟨Nat.le_refl _, Nat.lt_add_of_pos_right some_pages⟩⟩
  · rw [Function.update_of_ne at_n, ← sound.owned v]
    by_cases inside : Run.Has (n, s.zonePageCnt) v
    · rw [assign_in inside, free v inside]
      simp [Ne.symm at_n]
    · rw [assign_out inside]

theorem markZone_eq (s : Heap) (z : Nat) : markZone s z = (List.range s.zonePageCnt).foldl
    (fun s off => s.setKup (s.btokup z + off * sizeofMemusage) pageTypeSmall off) s := rfl

/-- `t` is `s` with the pages from `n` on taken and marked for a zone that is not set up yet. -/
structure Marked (s t : Heap) (g : Layout) (n : Nat) (rest : List Run) : Prop where
  fixed : t.fixed = s.fixed
  pages : Pages t (assign g.owner (n, s.zonePageCnt) (.block .zone n s.zonePageCnt)) rest g.first g.last
  entries : Entries t (assign g.owner (n, s.zonePageCnt) (.block .zone n s.zonePageCnt))
  zones : Zones t g.zone g.linked g.idle

theorem Sound.mark {rest : List Run} (sound : Sound s g live)
    (fields : s' = { s with word := s'.word, rtPageList := s'.rtPageList })
    (words : ∀ a, g.owner (pageNo a) ≠ .free → s'.word a = s.word a) (some_pages : 0 < s.zonePageCnt)
    (free : ∀ p, Run.Has (n, s.zonePageCnt) p → g.owner p = .free)
    (pages : Pages s' (assign g.owner (n, s.zonePageCnt) (.block .zone n s.zonePageCnt)) rest g.first g.last) :
    Marked s (markZone s' (addrOf n)) g n rest := by
  have fixed : s'.fixed = s.fixed := by
    rw [fields]
    rfl
  have cnt : s'.zonePageCnt = s.zonePageCnt := (fixed_eq.mp fixed).2.2.2.2.2
  have first : Run.Has (n, s.zonePageCnt) n := ⟨Nat.le_refl _, Nat.lt_add_of_pos_right some_pages⟩
  have low := (sound.pages.inside (p := n) (by rw [free n first]; simp)).1
  obtain ⟨w, marked, own, others, elsewhere⟩ := pages.fillEntries (k := s.zonePageCnt) low pageTypeSmall id
    (fun s off => s.setKup (s.btokup (addrOf n) + off * sizeofMemusage) pageTypeSmall off) (fun _ _ => rfl)
  rw [← cnt, ← markZone_eq] at marked
  have same : (markZone s' (addrOf n)).fixed = s'.fixed := by
    rw [marked]
    rfl
  have mark : ∀ a, assign g.owner (n, s.zonePageCnt) (.block .zone n s.zonePageCnt) (pageNo a) ≠ .usage →
      (markZone s' (addrOf n)).word a = s'.word a := by
    intro a other
    rw [marked]
    apply elsewhere
    rintro p inside rfl
    exact other (pages.entry_usage (by rw [assign_in inside]; simp))
  have old : Entries s' g.owner := by
    apply sound.entries.congr fixed (fun p => sound.pages.entry_usage)
    intro a usage
    apply words
    rw [usage]
    simp
  constructor
  · exact same.trans fixed
  · exact pages.congr same (by rw [marked]) (fun a unused => mark a (by rw [unused]; simp))
  · apply old.assign same
    · intro p owned out
      rw [marked]
      exact others p (by rw [assign_out out]; exact owned) out
    · intro p z j inside owned
      cases owned
      have few : (p - n) % 2 ^ 30 = p - n := by
        have upper := inside.2
        simp only at upper
        have most : s.zonePageCnt ≤ 32 := by
          rcases sound.pages.geometry.pages with eight | sixteen | more <;> lia
        exact Nat.mod_eq_of_lt (by lia)
      rw [marked]
      exact (own p inside).trans (by rw [id, few])
    · intro m j _ absent
      cases absent
  · apply sound.page_writes
    · rw [marked, fields]
    · rintro a ⟨z, j, owned⟩
      have out : ¬Run.Has (n, s.zonePageCnt) (pageNo a) := by
        intro new
        rw [free _ new] at owned
        cases owned
      refine (mark a ?_).trans (words a ?_)
      · rw [assign_out out, owned]
        simp
      · rw [owned]
        simp

theorem Marked.setup {t : Heap} {rest : List Run} (marked : Marked s t g n rest) (sound : Sound s g live)
    (free : ∀ p, Run.Has (n, s.zonePageCnt) p → g.owner p = .free) (some_pages : 0 < s.zonePageCnt)
    (some_page : addrOf n ≠ 0) (small : chunkSize zi ≤ 16384) (room : 4 * chunkSize zi ≤ s.zoneSize)
    (fits : size ≤ chunkSize zi) :
    ∃ s' p g', setupZone t zi (addrOf n) (chunkSize zi) = s' ∧
      s'.zBaseptr (addrOf n) + s'.zUindex (addrOf n) * chunkSize zi = p ∧ p ≠ 0 ∧
      Sound s' g' ((p, size) :: live) := by
  have geometry := sound.pages.geometry
  have least : 8 ≤ s.zonePageCnt := by
    rcases geometry.pages with eight | sixteen | more <;> lia
  obtain ⟨_, _, _, sizes, _, counts⟩ := fixed_eq.mp marked.fixed
  have first : Run.Has (n, s.zonePageCnt) n := ⟨Nat.le_refl _, Nat.lt_add_of_pos_right some_pages⟩
  have absent : g.zone n = none := by
    rcases found : g.zone n with _ | x
    · rfl
    · have owned := (sound.owned n).mpr ⟨x, found⟩
      rw [free n first] at owned
      cases owned
  have apart : Separate t g.zone n := by
    intro v x _ there p new inside
    rw [counts] at new inside
    have owned := sound.zone_page there inside
    rw [free p new] at owned
    cases owned
  obtain ⟨y, s', done, new, ok, place, zones, kept, setup⟩ := marked.zones.setup absent apart some_page small
    (by rw [sizes]; exact room) (by rw [sizes, geometry.size]; unfold rtMmPageSize; lia)
    (by rw [sizes, counts]; exact geometry.size)
  have fixed : s'.fixed = t.fixed := by
    rw [setup]
    rfl
  have count : s'.zonePageCnt = s.zonePageCnt := (fixed_eq.mp (fixed.trans marked.fixed)).2.2.2.2.2
  have off : ∀ a,
      (∀ u m j, assign g.owner (n, s.zonePageCnt) (.block .zone n s.zonePageCnt) (pageNo a) ≠ .block u m j) →
        s'.word a = t.word a := by
    intro a other
    apply kept
    intro inside
    rw [counts] at inside
    exact other _ _ _ (assign_in inside)
  have some_chunk := Nat.lt_trans Nat.zero_lt_one new.more
  have range := ok.chunk_range (z := n) some_chunk
  refine ⟨s', _, ⟨assign g.owner (n, s.zonePageCnt) (.block .zone n s.zonePageCnt), rest,
    Function.update g.zone n (some y), Function.update g.linked zi (n :: g.linked zi), g.idle, g.first, g.last⟩,
    done, place, by lia, ?_⟩
  constructor
  · apply marked.pages.congr fixed (by rw [setup])
    intro a unused
    apply off
    rw [unused]
    simp
  · apply marked.entries.congr fixed (fun p => marked.pages.entry_usage)
    intro a usage
    apply off
    rw [usage]
    simp
  · exact zones
  · rw [count]
    exact sound.owned_new free some_pages
  · have none_live : ∀ x, g.zone n = some x → x.parked = true := by
      intro x there
      rw [absent] at there
      cases there
    apply sound.live.add (r := y.size)
    · intro r is_area
      have inside := ok.chunk_page (z := n) some_chunk (Nat.le_refl _)
        (Nat.lt_add_of_pos_right (by have least := Zone.Ok.size_min y; lia))
      rw [counts] at inside
      obtain ⟨u, m, j, owned⟩ := sound.area_owner is_area
      rw [free _ inside] at owned
      cases owned
    · intro q r
      rw [area_new none_live new, area_zone free]
    · unfold Zone.size
      rw [new.index]
      exact fits

theorem Sound.extend (sound : Sound s g live) (none_idle : s.zoneFree = 0) (small : chunkSize zi ≤ 16384)
    (room : 4 * chunkSize zi ≤ s.zoneSize) (fits : size ≤ chunkSize zi) :
    ∃ s' p g', mallocZone s zi (chunkSize zi) = some (s', p) ∧
      Sound s' g' (if p = 0 then live else (p, size) :: live) := by
  have geometry := sound.pages.geometry
  have pages_of : s.zoneSize / rtMmPageSize = s.zonePageCnt := by
    rw [geometry.size]
    exact Nat.mul_div_cancel _ (by decide)
  have some_pages : 0 < s.zonePageCnt := by
    rcases geometry.pages with eight | sixteen | more <;> lia
  rw [mallocZone, if_neg (not_not_intro none_idle), pages_of]
  obtain ⟨s₁, b, result, fields, words, outcome⟩ := sound.pages.alloc some_pages
  rw [result]
  rcases outcome with ⟨rfl, rfl⟩ | ⟨n, rest, rfl, some_page, free, pages⟩
  · exact ⟨s₁, 0, g, rfl, sound⟩
  · have marked := sound.mark fields words some_pages free (pages .zone (fun _ => rfl))
    obtain ⟨s', p, g', done, place, some_chunk, sound'⟩ :=
      marked.setup sound free some_pages some_page small room fits
    simp only [Option.map_some, if_neg some_page, done, place]
    exact ⟨s', p, g', rfl, by rwa [if_neg some_chunk]⟩

/-- rt_malloc returns: null, or what has not been handed out. -/
theorem Sound.malloc (sound : Sound s g live) (small : size < 2 ^ 32) :
    ∃ s' p g', rtMalloc s size = some (s', p) ∧ Sound s' g' (if p = 0 then live else (p, size) :: live) := by
  rw [rtMalloc]
  split
  · exact ⟨s, 0, g, rfl, sound⟩
  · rename_i some
    split
    · exact sound.mallocLarge small
    · rename_i less
      have geometry := sound.pages.geometry
      have quarter := geometry.quarter
      have limit : s.zoneLimit ≤ 16384 := by
        rcases geometry.limit with lower | upper <;> lia
      obtain ⟨same, fits, index, most, class_of⟩ := zoneindex_spec (n := size) (by lia) (by lia)
      have room : 4 * chunkSize (zoneindex size).2 ≤ s.zoneSize := by
        rw [← same]
        rcases geometry.limit with lower | upper
        · have bound := class_of (by lia)
          lia
        · lia
      rw [same] at fits most
      simp only [same]
      rw [if_neg (by lia)]
      split
      · rename_i linked
        obtain ⟨s', p, g', result, some_p, sound'⟩ := sound.takeChunk linked fits
        exact ⟨s', p, g', result, by rw [if_neg some_p]; exact sound'⟩
      · by_cases none_idle : s.zoneFree = 0
        · exact sound.extend none_idle most room fits
        · obtain ⟨s', p, g', result, some_p, sound'⟩ := sound.reuse none_idle most room fits
          exact ⟨s', p, g', result, by rw [if_neg some_p]; exact sound'⟩

end RtThread.Slab

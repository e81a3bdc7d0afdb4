import RtThread.Slab.Malloc

/-! rt_free returns for what has been handed out, and takes it back. -/
namespace RtThread.Slab
open Intervals

variable {s s' : Heap} {g : Layout} {live : List (Nat × Nat)} {owner : Nat → Owner} {zone : Nat → Option Zone}
  {a i k n p q r z : Nat} {x y : Zone}

theorem pageOf_eq (a : Nat) : pageOf a = addrOf (pageNo a) := by
  unfold pageOf rtAlignDown addrOf pageNo
  rfl

theorem Sound.area_large_back (sound : Sound s g live) (owned : g.owner n = .block .large n k) :
    Area (assign g.owner (n, k) .free) g.zone q r ↔ Area g.owner g.zone q r ∧ q ≠ addrOf n := by
  have inside := ((sound.pages.block n _ n k).mp owned).2
  constructor
  · rintro (⟨m, j, other, rfl, rfl⟩ | ⟨z, x, i, found, chunk, rfl, rfl⟩)
    · by_cases old : Run.Has (n, k) m
      · rw [assign_in old] at other
        cases other
      · rw [assign_out old] at other
        refine ⟨Or.inl ⟨m, j, other, rfl, rfl⟩, ?_⟩
        rw [Ne, addrOf_inj]
        rintro rfl
        exact old inside
    · refine ⟨Or.inr ⟨z, x, i, found, chunk, rfl, rfl⟩, ?_⟩
      intro same
      have here := sound.zone_page found (sound.chunk_page found (chunk.chunk (sound.zones.map.ok z x found)))
      rw [same, addrOf_start, owned] at here
      cases here
  · rintro ⟨⟨m, j, other, rfl, rfl⟩ | chunk, away⟩
    · refine Or.inl ⟨m, j, ?_, rfl, rfl⟩
      rw [assign_out]
      · exact other
      · intro old
        have here := (sound.pages.block m _ n k).mpr ⟨owned, old⟩
        rw [other] at here
        cases here
        exact away rfl
    · exact Or.inr chunk

/-- rt_free gives a large allocation back to the free pages. -/
theorem Sound.freeLarge (sound : Sound s g live) (owned : g.owner n = .block .large n k) (place : p = addrOf n) :
    ∃ s' g', rtFree s p = some s' ∧ Sound s' g' (live.filter (fun b => b.1 ≠ p)) := by
  have not_outside : g.owner n ≠ .outside := by
    rw [owned]
    simp
  have some_page := sound.pages.some_page not_outside
  have low := (sound.pages.inside not_outside).1
  have inside := ((sound.pages.block n _ n k).mp owned).2
  have all : ∀ p, Run.Has (n, k) p → g.owner p = .block .large n k :=
    fun p has => (sound.pages.block p _ n k).mpr ⟨owned, has⟩
  have entry := sound.entries.large n k owned
  have type : s.kupType (s.btokup (addrOf n)) = pageTypeLarge := by
    rw [Heap.kupType, entry]
    unfold pageTypeLarge
    lia
  have pages_of : s.kupSize (s.btokup (addrOf n)) = k := by
    rw [Heap.kupSize, entry]
    unfold pageTypeLarge
    lia
  have same : (s.setKup (s.btokup (addrOf n)) pageTypeLarge 0).fixed = s.fixed := rfl
  have kept : ∀ a, g.owner (pageNo a) ≠ .usage →
      (s.setKup (s.btokup (addrOf n)) pageTypeLarge 0).word a = s.word a := by
    intro a other
    rw [Heap.setKup, put_word, if_neg]
    rintro rfl
    exact other (sound.pages.entry_usage not_outside)
  have before := sound.pages.congr same rfl (fun a unused => kept a (by rw [unused]; simp))
  have cleared : Entries (s.setKup (s.btokup (addrOf n)) pageTypeLarge 0) (assign g.owner (n, k) .free) := by
    apply sound.entries.assign same
    · exact fun p other out => sound.pages.setKup_others low inside other out
    · intro p z j _ absent
      cases absent
    · intro m j _ absent
      cases absent
  obtain ⟨s', result, fields, words, pages⟩ := before.release owned
  have called : rtFree s p = some s' := by
    rw [rtFree, place, if_neg some_page, pageOf_eq, addrOf_start]
    simp only [type, pages_of, if_true]
    exact result
  have fixed : s'.fixed = (s.setKup (s.btokup (addrOf n)) pageTypeLarge 0).fixed := by
    rw [fields]
    rfl
  have cnt : s'.zonePageCnt = s.zonePageCnt := (fixed_eq.mp (fixed.trans same)).2.2.2.2.2
  refine ⟨s', ⟨assign g.owner (n, k) .free, put n k g.runs, g.zone, g.linked, g.idle, g.first, g.last⟩, called,
    pages, ?_, ?_, ?_, ?_⟩
  · apply cleared.congr fixed
    · intro p other
      rw [← btokup_fixed fixed]
      exact pages.entry_usage other
    · intro a usage
      have out : ¬Run.Has (n, k) (pageNo a) := by
        intro old
        rw [assign_in old] at usage
        cases usage
      rw [assign_out out] at usage
      exact words a (by rw [usage]; simp) out
  · apply sound.page_writes
    · rw [fields]
      rfl
    · rintro a ⟨z, j, other⟩
      refine (words a ?_ ?_).trans (kept a ?_)
      · rw [other]
        simp
      · intro old
        rw [all _ old] at other
        cases other
      · rw [other]
        simp
  · rw [cnt]
    exact sound.owned_assign (fun p old => by rw [all p old]; simp) (by simp)
  · rw [place]
    exact sound.live.remove (fun q t => sound.area_large_back owned)

theorem Sound.area_chunk_back (sound : Sound s g live) (found : g.zone z = some x) (hands : y.Hands x i) :
    Area g.owner (Function.update g.zone z (some y)) q r ↔ Area g.owner g.zone q r ∧ q ≠ chunkAt z x i := by
  obtain ⟨place, same⟩ := hands.chunkAt_eq (z := z)
  have chunk : i < x.nmax := by
    rw [hands.nmax]
    exact hands.chunk
  have page := sound.chunk_page found chunk
  have here := sound.zone_page found page
  constructor
  · rintro (⟨n, k, owned, rfl, rfl⟩ | ⟨v, w, j, there, taken, rfl, rfl⟩)
    · refine ⟨Or.inl ⟨n, k, owned, rfl, rfl⟩, ?_⟩
      intro at_chunk
      rw [← at_chunk, addrOf_start, owned] at here
      cases here
    · by_cases own : v = z
      · subst own
        rw [Function.update_self] at there
        cases there
        refine ⟨Or.inr ⟨v, x, j, found, (hands.live j).mpr (Or.inl taken), by rw [place], same.symm⟩, ?_⟩
        rw [← place, Ne, chunkAt_inj]
        rintro rfl
        exact hands.fresh taken
      · rw [Function.update_of_ne own] at there
        refine ⟨Or.inr ⟨v, w, j, there, taken, rfl, rfl⟩, ?_⟩
        intro at_chunk
        have other := sound.chunk_page there (taken.chunk (sound.zones.map.ok v w there))
        rw [at_chunk] at other
        exact sound.zones.map.apart v w z x there found own _ other page
  · rintro ⟨large | ⟨v, w, j, there, taken, rfl, rfl⟩, away⟩
    · exact Or.inl large
    · by_cases own : v = z
      · subst own
        rw [found] at there
        cases there
        refine Or.inr ⟨v, y, j, Function.update_self .., ?_, by rw [place], same⟩
        rcases (hands.live j).mp taken with still | rfl
        · exact still
        · exact absurd rfl away
      · exact Or.inr ⟨v, w, j, by rw [Function.update_of_ne own]; exact there, taken, rfl, rfl⟩

theorem area_dead {o : Option Zone} (dead : ∀ w, zone z = some w → ∀ i, ¬w.Live i)
    (still : ∀ w, o = some w → ∀ i, ¬w.Live i) :
    Area owner (Function.update zone z o) q r ↔ Area owner zone q r := by
  constructor
  · rintro (large | ⟨v, w, j, there, taken, rest⟩)
    · exact Or.inl large
    · by_cases own : v = z
      · subst own
        rw [Function.update_self] at there
        exact absurd taken (still w there j)
      · rw [Function.update_of_ne own] at there
        exact Or.inr ⟨v, w, j, there, taken, rest⟩
  · rintro (large | ⟨v, w, j, there, taken, rest⟩)
    · exact Or.inl large
    · by_cases own : v = z
      · subst own
        exact absurd taken (dead w there j)
      · exact Or.inr ⟨v, w, j, by rw [Function.update_of_ne own]; exact there, taken, rest⟩

theorem area_zone_back (blocks : BlockRuns owner) (owned : owner n = .block .zone n k) :
    Area (assign owner (n, k) .free) zone q r ↔ Area owner zone q r := by
  constructor
  · rintro (⟨m, j, other, rfl, rfl⟩ | chunk)
    · by_cases old : Run.Has (n, k) m
      · rw [assign_in old] at other
        cases other
      · rw [assign_out old] at other
        exact Or.inl ⟨m, j, other, rfl, rfl⟩
    · exact Or.inr chunk
  · rintro (⟨m, j, other, rfl, rfl⟩ | chunk)
    · refine Or.inl ⟨m, j, ?_, rfl, rfl⟩
      rw [assign_out]
      · exact other
      · intro old
        rw [(blocks m _ n k).mpr ⟨owned, old⟩] at other
        cases other
    · exact Or.inr chunk

theorem Sound.owned_back (sound : Sound s g live) (found : g.zone z = some x) :
    ∀ v, assign g.owner (z, s.zonePageCnt) .free v = .block .zone v s.zonePageCnt ↔
      ∃ w, Function.update g.zone z none v = some w := by
  intro v
  have page := sound.zones.map.page found
  by_cases own : v = z
  · rw [own, assign_in page, Function.update_self]
    simp
  · rw [Function.update_of_ne own]
    by_cases inside : Run.Has (z, s.zonePageCnt) v
    · rw [assign_in inside, ← sound.owned v, sound.zone_page found inside]
      simp [Ne.symm own]
    · rw [assign_out inside]
      exact sound.owned v

theorem Zone.Ok.dead {pages : Nat} (ok : x.Ok pages) (whole : x.frees.length = x.used + 1) (i : Nat) : ¬x.Live i := by
  rintro ⟨_, below, out⟩
  have sub : x.frees ⊆ List.range (x.used + 1) :=
    fun j member => List.mem_range.mpr (Nat.lt_succ_of_le (ok.below j member))
  have all := (List.subperm_of_subset ok.nodup sub).perm_of_length_le (Nat.le_of_eq (by rw [List.length_range, whole]))
  exact out (all.mem_iff.mpr (List.mem_range.mpr (Nat.lt_succ_of_le below)))

theorem Sound.clear {t : Heap} (sound : Sound s g live) (found : g.zone z = some x)
    (pages : Pages t g.owner g.runs g.first g.last) (entries : Entries t g.owner) :
    ∃ w, (List.range s.zonePageCnt).foldl
        (fun s i => s.setKup (s.btokup (addrOf z) + i * sizeofMemusage) pageTypeFree 0) t = { t with word := w } ∧
      (∀ a, g.owner (pageNo a) ≠ .usage → w a = t.word a) ∧
      Pages { t with word := w } g.owner g.runs g.first g.last ∧
      Entries { t with word := w } (assign g.owner (z, s.zonePageCnt) .free) := by
  have owned := (sound.owned z).mpr ⟨x, found⟩
  have low := (sound.pages.inside (p := z) (by rw [owned]; simp)).1
  have all : ∀ p, Run.Has (z, s.zonePageCnt) p → g.owner p = .block .zone z s.zonePageCnt :=
    fun p has => sound.zone_page found has
  obtain ⟨w, cleared, own, others, elsewhere⟩ := pages.fillEntries (k := s.zonePageCnt) low pageTypeFree (fun _ => 0)
    (fun s i => s.setKup (s.btokup (addrOf z) + i * sizeofMemusage) pageTypeFree 0) (fun _ _ => rfl)
  have fixed : ({ t with word := w } : Heap).fixed = t.fixed := rfl
  have kept : ∀ a, g.owner (pageNo a) ≠ .usage → w a = t.word a := by
    intro a other
    apply elsewhere
    rintro p inside rfl
    exact other (pages.entry_usage (by rw [all p inside]; simp))
  refine ⟨w, cleared, kept, ?_, ?_⟩
  · exact pages.congr fixed rfl (fun a unused => kept a (by rw [unused]; simp))
  · apply entries.assign fixed
    · exact others
    · intro p v j _ absent
      cases absent
    · intro m j _ absent
      cases absent

/-- The first of the free zones goes back to the free pages. -/
theorem Sound.release {rest : List Nat} (sound : Sound s g live) (first : g.idle = z :: rest) :
    ∃ s' g', releaseZone s = some s' ∧ Sound s' g' live := by
  have list := sound.zones.lists.parked
  rw [first] at list
  have here := list.1
  obtain ⟨x, found, parked⟩ := (sound.zones.placed.idles z).mp (by rw [first]; exact List.mem_cons_self)
  have owned := (sound.owned z).mpr ⟨x, found⟩
  have geometry := sound.pages.geometry
  have pages_of : s.zoneSize / rtMmPageSize = s.zonePageCnt := by
    rw [geometry.size]
    exact Nat.mul_div_cancel _ (by decide)
  have zones := sound.zones
  rw [first] at zones
  have zones := zones.unparks
  generalize popped : ({ s with zoneFree := s.zNext (addrOf z), zoneFreeCnt := s.zoneFreeCnt - 1 } : Heap) = t at zones
  have same : t.fixed = s.fixed := by
    rw [← popped]
    rfl
  obtain ⟨_, _, _, sizes, _, counts⟩ := fixed_eq.mp same
  have pages := sound.pages.congr same (by rw [← popped]) (fun a _ => by rw [← popped])
  have entries := sound.entries.congr same (fun p => sound.pages.entry_usage) (fun a _ => by rw [← popped])
  obtain ⟨w, cleared, kept, cleared_pages, cleared_entries⟩ := sound.clear found pages entries
  obtain ⟨s', result, fields, words, pages'⟩ := cleared_pages.release owned
  have called : releaseZone s = some s' := by
    rw [releaseZone]
    have amount : t.zoneSize / rtMmPageSize = s.zonePageCnt := by
      rw [sizes]
      exact pages_of
    simp only [here, popped]
    rw [cleared]
    simp only [amount]
    exact result
  have fixed : s'.fixed = s.fixed := by
    rw [← same, fields]
    rfl
  have cnt : s'.zonePageCnt = s.zonePageCnt := (fixed_eq.mp fixed).2.2.2.2.2
  have dead : ∀ u, g.zone z = some u → ∀ i, ¬u.Live i := by
    intro u there i live_i
    rw [found] at there
    cases there
    exact absurd (live_i.1.symm.trans parked) (by decide)
  refine ⟨s', ⟨assign g.owner (z, s.zonePageCnt) .free, put z s.zonePageCnt g.runs, Function.update g.zone z none,
    g.linked, rest, g.first, g.last⟩, called, pages', ?_, ?_, ?_, ?_⟩
  · apply cleared_entries.congr
    · rw [fields]
      rfl
    · intro p other
      have cleared_fixed : ({ t with word := w } : Heap).fixed = t.fixed := rfl
      rw [← btokup_fixed (fixed.trans (same.symm.trans cleared_fixed.symm))]
      exact pages'.entry_usage other
    · intro a usage
      have out : ¬Run.Has (z, s.zonePageCnt) (pageNo a) := by
        intro old
        rw [assign_in old] at usage
        cases usage
      rw [assign_out out] at usage
      exact words a (by rw [usage]; simp) out
  · apply zones.congr
    · rw [fields]
    · rw [fields]
    · rw [fields]
    · rw [fields]
    · intro v u a there inside
      have other : v ≠ z := by
        rintro rfl
        rw [Function.update_self] at there
        cases there
      rw [Function.update_of_ne other] at there
      rw [counts] at inside
      have of_zone := sound.zone_page there inside
      refine (words a ?_ ?_).trans (kept a ?_)
      · rw [of_zone]
        simp
      · exact sound.zones.map.apart v u z x there found other _ inside
      · rw [of_zone]
        simp
  · rw [cnt]
    exact sound.owned_back found
  · apply sound.live.congr
    intro q r
    rw [area_zone_back sound.pages.block owned, area_dead dead]
    simp

theorem Sound.linked_fuel (sound : Sound s g live) (zi : Nat) : (g.linked zi).length ≤ s.listFuel := by
  have geometry := sound.pages.geometry
  have sub : g.linked zi ⊆ List.range' g.first (g.last - g.first) := by
    intro z member
    obtain ⟨x, found, _⟩ := (sound.zones.placed.offers zi z).mp member
    have inside := sound.pages.inside (p := z) (by rw [(sound.owned z).mpr ⟨x, found⟩]; simp)
    rw [List.mem_range'_1]
    lia
  have most := (List.subperm_of_subset (sound.zones.lists.once zi) sub).length_le
  rw [List.length_range'] at most
  rw [listFuel_eq geometry.start geometry.stop]
  lia

theorem Sound.retire (sound : Sound s g live) (found : g.zone z = some x) (used : x.parked = false)
    (whole : x.nfree = x.nmax) : ∃ s' g', retireZone s (addrOf z) = some s' ∧ Sound s' g' live := by
  have ok := sound.zones.map.ok z x found
  have enough := sound.linked_fuel x.index
  have offers : x.Offers x.index := ⟨used, rfl, by have bound := ok.used; lia⟩
  obtain ⟨t, unlinked, zones, fields, words⟩ := sound.zones.parks found offers whole (sound.zone_some found) enough
  have index := (sound.zones.map.rep z x found).index
  rw [retireZone_eq, index, unlinked]
  rw [Option.bind_some]
  generalize parkZone t (addrOf z) = u at zones fields words ⊢
  have fixed : u.fixed = s.fixed := by
    rw [fields]
    rfl
  have all_free : x.frees.length = x.used + 1 := by
    have bound := ok.used
    unfold Zone.nfree at whole
    lia
  obtain ⟨pages, entries⟩ := sound.zone_writes fixed (by rw [fields]) words
  have parked : Sound u { g with
      zone := Function.update g.zone z (some { x with parked := true })
      linked := Function.update g.linked x.index ((g.linked x.index).erase z)
      idle := z :: g.idle } live := by
    refine ⟨pages, entries, zones, ?_, ?_⟩
    · rw [(fixed_eq.mp fixed).2.2.2.2.2]
      exact sound.owned_update found
    · apply sound.live.congr
      intro q r
      apply area_dead
      · intro w there
        rw [found] at there
        cases there
        exact ok.dead all_free
      · intro w there i live_i
        cases there
        exact absurd live_i.1 (by simp)
  split
  · exact parked.release rfl
  · exact ⟨u, _, rfl, parked⟩

/-- rt_free gives a chunk back to its zone. -/
theorem Sound.freeChunk (sound : Sound s g live) (found : g.zone z = some x) (taken : x.Live i)
    (place : p = chunkAt z x i) :
    ∃ s' g', Slab.freeChunk s (addrOf z) p = some s' ∧ Sound s' g' (live.filter (fun b => b.1 ≠ p)) := by
  have rep := sound.zones.map.rep z x found
  have old_ok := sound.zones.map.ok z x found
  have range := old_ok.chunk_range (z := z) (taken.chunk old_ok)
  obtain ⟨y, hands, ok, rep', words, fields, link⟩ := giveChunk_spec rep old_ok taken
  subst place
  rw [freeChunk_eq (by lia)]
  generalize giveChunk s (addrOf z) (chunkAt z x i) = t at rep' words fields link ⊢
  have fixed : t.fixed = s.fixed := by
    rw [fields]
    rfl
  have cnt : t.zonePageCnt = s.zonePageCnt := (fixed_eq.mp fixed).2.2.2.2.2
  have zones := sound.zones.gives found hands ok rep' words (sound.zone_some found) (by rw [fields]) link
    (by rw [fields]) (by rw [fields]) cnt
  obtain ⟨pages, entries⟩ := sound.zone_writes fixed (by rw [fields]) (fun a other => words a (other z x found))
  have given : Sound t { g with
      zone := Function.update g.zone z (some y)
      linked := if x.nfree = 0 then Function.update g.linked x.index (z :: g.linked x.index) else g.linked }
      (live.filter (fun b => b.1 ≠ chunkAt z x i)) := by
    refine ⟨pages, entries, zones, ?_, ?_⟩
    · rw [cnt]
      exact sound.owned_update found
    · exact sound.live.remove (fun q r => sound.area_chunk_back found hands)
  split
  · rename_i whole
    have counts := whole.1
    rw [rep'.nfree, rep'.nmax] at counts
    exact given.retire (Function.update_self ..) hands.used counts
  · exact ⟨t, _, rfl, given⟩

theorem Sound.entry_leads (sound : Sound s g live) (found : g.zone z = some x)
    (inside : Run.Has (z, s.zonePageCnt) p) : s.kupType (s.btokup (addrOf p)) = pageTypeSmall ∧
      addrOf p - s.kupSize (s.btokup (addrOf p)) * rtMmPageSize = addrOf z := by
  have entry := sound.entries.small p z _ (sound.zone_page found inside)
  have lower := inside.1
  simp only at lower
  constructor
  · rw [Heap.kupType, entry]
    unfold pageTypeSmall
    lia
  · have offset : s.kupSize (s.btokup (addrOf p)) = p - z := by
      rw [Heap.kupSize, entry]
      unfold pageTypeSmall
      lia
    rw [offset]
    unfold addrOf rtMmPageSize
    lia

/-- rt_free returns for what has been handed out. -/
theorem Sound.free (sound : Sound s g live) (member : p ∈ live.map Prod.fst) :
    ∃ s' g', rtFree s p = some s' ∧ Sound s' g' (live.filter (fun b => b.1 ≠ p)) := by
  obtain ⟨r, ⟨n, k, owned, place, _⟩ | ⟨z, x, i, found, taken, place, _⟩⟩ :=
    (sound.live.there p).mp member
  · exact sound.freeLarge owned place
  · obtain ⟨s', g', result, sound'⟩ := sound.freeChunk found taken place
    refine ⟨s', g', ?_, sound'⟩
    have ok := sound.zones.map.ok z x found
    have range := ok.chunk_range (z := z) (taken.chunk ok)
    have inside := sound.chunk_page found (taken.chunk ok)
    rw [← place] at inside range
    obtain ⟨type, back⟩ := sound.entry_leads found inside
    have magic := (sound.zones.map.rep z x found).magic taken.1
    rw [rtFree, if_neg (by lia), pageOf_eq]
    simp only [type, back, magic]
    exact result

end RtThread.Slab

import RtThread.Slab.Zone

/-! The zones of the heap, and the lists that link them: the zone array has the zones in use that have
a free chunk, and the list of free zones those that are parked. -/
namespace RtThread.Slab
open Intervals Linked

/-- The zones by their first pages. -/
structure ZoneMap (s : Heap) (zone : Nat → Option Zone) : Prop where
  rep : ∀ z x, zone z = some x → ZoneRep s z x
  ok : ∀ z x, zone z = some x → x.Ok s.zonePageCnt
  apart : ∀ z x y w, zone z = some x → zone y = some w → z ≠ y → ∀ p,
    Run.Has (z, s.zonePageCnt) p → ¬Run.Has (y, s.zonePageCnt) p

/-- The lists in memory, each with no zone twice. -/
structure ZoneLists (s : Heap) (linked : Nat → List Nat) (idle : List Nat) : Prop where
  arrays : ∀ zi, Listed s.word addrOf 12 (s.zoneArray zi) (linked zi)
  parked : Listed s.word addrOf 12 s.zoneFree idle
  count : s.zoneFreeCnt = idle.length
  once : ∀ zi, (linked zi).Nodup
  onceIdle : idle.Nodup

/-- Each list has the zones that belong there. -/
structure Placed (zone : Nat → Option Zone) (linked : Nat → List Nat) (idle : List Nat) : Prop where
  offers : ∀ zi z, z ∈ linked zi ↔ ∃ x, zone z = some x ∧ x.Offers zi
  idles : ∀ z, z ∈ idle ↔ ∃ x, zone z = some x ∧ x.parked = true

structure Zones (s : Heap) (zone : Nat → Option Zone) (linked : Nat → List Nat) (idle : List Nat) : Prop where
  map : ZoneMap s zone
  lists : ZoneLists s linked idle
  placed : Placed zone linked idle

variable {s s' : Heap} {zone : Nat → Option Zone} {linked linked' : Nat → List Nat} {idle idle' rest : List Nat}
  {x y : Zone} {i p z zi : Nat}

/-- Only words in the pages of the zone at `z` differ. -/
def KeepsOthers (s s' : Heap) (z : Nat) : Prop :=
  ∀ a, ¬Run.Has (z, s.zonePageCnt) (pageNo a) → s'.word a = s.word a

/-- The pages of a zone at `z` are not those of other zones. -/
def Separate (s : Heap) (zone : Nat → Option Zone) (z : Nat) : Prop :=
  ∀ v w, v ≠ z → zone v = some w → ∀ p, Run.Has (z, s.zonePageCnt) p → ¬Run.Has (v, s.zonePageCnt) p

theorem ZoneMap.separate (map : ZoneMap s zone) (found : zone z = some x) : Separate s zone z :=
  fun v w other there => map.apart z x v w found there (Ne.symm other)

theorem ZoneMap.congr (map : ZoneMap s zone) (pages : s'.zonePageCnt = s.zonePageCnt)
    (same : ∀ z x a, zone z = some x → Run.Has (z, s.zonePageCnt) (pageNo a) → a ≠ addrOf z + 12 →
      s'.word a = s.word a) : ZoneMap s' zone := by
  refine ⟨?_, ?_, ?_⟩
  · intro z x found
    exact (map.rep z x found).congr (map.ok z x found) (fun a inside link => same z x a found inside link)
  · rw [pages]
    exact map.ok
  · rw [pages]
    exact map.apart

theorem ZoneMap.put (map : ZoneMap s zone) (rep : ZoneRep s' z y) (ok : y.Ok s.zonePageCnt)
    (apart : Separate s zone z) (pages : s'.zonePageCnt = s.zonePageCnt)
    (words : KeepsOthers s s' z) : ZoneMap s' (Function.update zone z (some y)) := by
  have old : ∀ v w, v ≠ z → Function.update zone z (some y) v = some w → zone v = some w := by
    intro v w other found
    rwa [Function.update_of_ne other] at found
  have new : ∀ w, Function.update zone z (some y) z = some w → y = w := by
    intro w found
    rw [Function.update_self] at found
    exact Option.some.inj found
  refine ⟨?_, ?_, ?_⟩
  · intro v w found
    by_cases same : v = z
    · subst same
      rw [← new w found]
      exact rep
    · have there := old v w same found
      apply (map.rep v w there).congr (map.ok v w there)
      intro a inside _
      exact words a (fun own => apart v w same there _ own inside)
  · intro v w found
    rw [pages]
    by_cases same : v = z
    · subst same
      rw [← new w found]
      exact ok
    · exact map.ok v w (old v w same found)
  · intro v w u t found other distinct
    rw [pages]
    by_cases first : v = z
    · subst first
      exact apart u t (Ne.symm distinct) (old u t (Ne.symm distinct) other)
    · by_cases second : u = z
      · subst second
        intro p inside own
        exact apart v w first (old v w first found) p own inside
      · exact map.apart v w u t (old v w first found) (old u t second other) distinct

theorem ZoneMap.drop (map : ZoneMap s zone) : ZoneMap s (Function.update zone z none) := by
  have old : ∀ v w, Function.update zone z none v = some w → zone v = some w := by
    intro v w found
    by_cases same : v = z
    · rw [same, Function.update_self] at found
      cases found
    · rwa [Function.update_of_ne same] at found
  exact ⟨fun v w found => map.rep v w (old v w found), fun v w found => map.ok v w (old v w found),
    fun v w u t found other => map.apart v w u t (old v w found) (old u t other)⟩

theorem Placed.update {new : Option Zone} (placed : Placed zone linked idle)
    (others : ∀ zi v, v ≠ z → (v ∈ linked' zi ↔ v ∈ linked zi)) (others_idle : ∀ v, v ≠ z → (v ∈ idle' ↔ v ∈ idle))
    (own : ∀ zi, z ∈ linked' zi ↔ ∃ x, new = some x ∧ x.Offers zi)
    (own_idle : z ∈ idle' ↔ ∃ x, new = some x ∧ x.parked = true) :
    Placed (Function.update zone z new) linked' idle' := by
  constructor
  · intro zi v
    by_cases same : v = z
    · subst same
      rw [Function.update_self]
      exact own zi
    · rw [Function.update_of_ne same, others zi v same]
      exact placed.offers zi v
  · intro v
    by_cases same : v = z
    · subst same
      rw [Function.update_self]
      exact own_idle
    · rw [Function.update_of_ne same, others_idle v same]
      exact placed.idles v

theorem ZoneMap.page (map : ZoneMap s zone) (found : zone z = some x) : Run.Has (z, s.zonePageCnt) z :=
  ⟨Nat.le_refl _, Nat.lt_add_of_pos_right (map.ok z x found).some_pages⟩

theorem ZoneMap.link (map : ZoneMap s zone) (apart : Separate s zone z) (words : KeepsOthers s s' z) {v : Nat}
    {w : Zone} (there : zone v = some w) (other : v ≠ z) : s'.word (addrOf v + 12) = s.word (addrOf v + 12) := by
  apply words
  rw [addrOf_page v 12 (by decide)]
  exact fun own => apart v w other there v own (map.page there)

theorem Placed.index_of (placed : Placed zone linked idle) (found : zone z = some x) (member : z ∈ linked zi) :
    x.index = zi ∧ x.parked = false := by
  obtain ⟨w, same, offers⟩ := (placed.offers zi z).mp member
  rw [found] at same
  cases same
  exact ⟨offers.2.1, offers.1⟩

theorem Placed.not_idle (placed : Placed zone linked idle) (found : zone z = some x) (used : x.parked = false) :
    z ∉ idle := by
  intro member
  obtain ⟨w, same, parked⟩ := (placed.idles z).mp member
  rw [found] at same
  cases same
  exact absurd (used.symm.trans parked) (by decide)

theorem Zones.array_kept (zones : Zones s zone linked idle) (apart : Separate s zone z) (words : KeepsOthers s s' z)
    {l : List Nat} (list : Listed s.word addrOf 12 p l) (sub : ∀ v ∈ l, v ∈ linked zi) (out : z ∉ l) :
    Listed s'.word addrOf 12 p l := by
  apply list.congr
  intro v member
  obtain ⟨w, there, _⟩ := (zones.placed.offers zi v).mp (sub v member)
  exact zones.map.link apart words there (by rintro rfl; exact out member)

theorem Zones.idle_kept (zones : Zones s zone linked idle) (apart : Separate s zone z) (words : KeepsOthers s s' z)
    {l : List Nat} (list : Listed s.word addrOf 12 p l) (sub : ∀ v ∈ l, v ∈ idle) (out : z ∉ l) :
    Listed s'.word addrOf 12 p l := by
  apply list.congr
  intro v member
  obtain ⟨w, there, _⟩ := (zones.placed.idles v).mp (sub v member)
  exact zones.map.link apart words there (by rintro rfl; exact out member)

theorem Zones.lists_kept (zones : Zones s zone linked idle) (found : zone z = some x) (words : KeepsOthers s s' z)
    (link : s'.zNext (addrOf z) = s.zNext (addrOf z)) (array : s'.zoneArray = s.zoneArray)
    (free : s'.zoneFree = s.zoneFree) (count : s'.zoneFreeCnt = s.zoneFreeCnt) : ZoneLists s' linked idle := by
  have same : ∀ v w, zone v = some w → s'.word (addrOf v + 12) = s.word (addrOf v + 12) := by
    intro v w there
    by_cases own : v = z
    · rw [own]
      exact link
    · exact zones.map.link (zones.map.separate found) words there own
  refine ⟨?_, ?_, count.trans zones.lists.count, zones.lists.once, zones.lists.onceIdle⟩
  · intro zi
    rw [array]
    apply (zones.lists.arrays zi).congr
    intro v member
    obtain ⟨w, there, _⟩ := (zones.placed.offers zi v).mp member
    exact same v w there
  · rw [free]
    apply zones.lists.parked.congr
    intro v member
    obtain ⟨w, there, _⟩ := (zones.placed.idles v).mp member
    exact same v w there

theorem Zones.array_changed (zones : Zones s zone linked idle) (apart : Separate s zone z) (words : KeepsOthers s s' z)
    {l : List Nat} {a : Nat} (list : Listed s'.word addrOf 12 a l) (once : l.Nodup)
    (array : s'.zoneArray = Function.update s.zoneArray zi a) (other : ∀ j, j ≠ zi → z ∉ linked j) (not_idle : z ∉ idle)
    (free : s'.zoneFree = s.zoneFree) (count : s'.zoneFreeCnt = s.zoneFreeCnt) :
    ZoneLists s' (Function.update linked zi l) idle := by
  refine ⟨?_, ?_, count.trans zones.lists.count, ?_, zones.lists.onceIdle⟩
  · intro j
    rw [array]
    by_cases own : j = zi
    · rw [own, Function.update_self, Function.update_self]
      exact list
    · rw [Function.update_of_ne own, Function.update_of_ne own]
      exact zones.array_kept apart words (zones.lists.arrays j) (fun _ member => member) (other j own)
  · rw [free]
    exact zones.idle_kept apart words zones.lists.parked (fun _ member => member) not_idle
  · intro j
    by_cases own : j = zi
    · rw [own, Function.update_self]
      exact once
    · rw [Function.update_of_ne own]
      exact zones.lists.once j

theorem Zones.takes (zones : Zones s zone linked idle) (found : zone z = some x) (hands : x.Hands y i)
    (ok : y.Ok s.zonePageCnt) (rep : ZoneRep s' z y) (words : KeepsOthers s s' z)
    (array : s'.zoneArray =
      if y.nfree = 0 then Function.update s.zoneArray x.index (s.zNext (addrOf z)) else s.zoneArray)
    (free : s'.zoneFree = s.zoneFree) (count : s'.zoneFreeCnt = s.zoneFreeCnt) (pages : s'.zonePageCnt = s.zonePageCnt)
    (link : y.nfree ≠ 0 → s'.zNext (addrOf z) = s.zNext (addrOf z)) (first : linked x.index = z :: rest) :
    Zones s' (Function.update zone z (some y))
      (if y.nfree = 0 then Function.update linked x.index rest else linked) idle := by
  have apart := zones.map.separate found
  have nodup := zones.lists.once x.index
  rw [first] at nodup
  obtain ⟨out, rest_nodup⟩ := List.nodup_cons.mp nodup
  have not_idle := zones.placed.not_idle found hands.used
  have elsewhere : ∀ j, j ≠ x.index → z ∉ linked j := by
    intro j other member
    exact other (zones.placed.index_of found member).1.symm
  have sub : ∀ v ∈ rest, v ∈ linked x.index := by
    rw [first]
    exact fun v member => List.mem_cons_of_mem _ member
  refine ⟨zones.map.put rep ok apart pages words, ?_, ?_⟩
  · split
    · rename_i last
      rw [if_pos last] at array
      have list := zones.lists.arrays x.index
      rw [first] at list
      exact zones.array_changed apart words (zones.array_kept apart words list.2.2 sub out) rest_nodup array elsewhere
        not_idle free count
    · rename_i some
      rw [if_neg some] at array
      exact zones.lists_kept found words (link some) array free count
  · apply zones.placed.update
    · intro zi v other
      split
      · by_cases own : zi = x.index
        · rw [own, Function.update_self, first, List.mem_cons]
          exact ⟨Or.inr, fun member => member.resolve_left other⟩
        · rw [Function.update_of_ne own]
      · rfl
    · exact fun v _ => Iff.rfl
    · intro zi
      have others := elsewhere zi
      simp only [Option.some.injEq, exists_eq_left', Zone.Offers, hands.same, hands.index, true_and]
      split
      · rename_i last
        by_cases own : zi = x.index
        · rw [own, Function.update_self]
          simp [out, last]
        · rw [Function.update_of_ne own]
          simp [others own, Ne.symm own]
      · rename_i some
        by_cases own : zi = x.index
        · rw [own, first]
          simp [Nat.pos_of_ne_zero some]
        · simp [others own, Ne.symm own]
    · simp [not_idle, hands.same]

theorem Zones.pushes (zones : Zones s zone linked idle) (apart : Separate s zone z) (offers : y.Offers zi)
    (ok : y.Ok s.zonePageCnt) (rep : ZoneRep s' z y) (words : KeepsOthers s s' z) (some_page : addrOf z ≠ 0)
    (array : s'.zoneArray = Function.update s.zoneArray zi (addrOf z)) (link : s'.zNext (addrOf z) = s.zoneArray zi)
    (free : s'.zoneFree = s.zoneFree) (count : s'.zoneFreeCnt = s.zoneFreeCnt) (pages : s'.zonePageCnt = s.zonePageCnt)
    (out : ∀ j, z ∉ linked j) (not_idle : z ∉ idle) :
    Zones s' (Function.update zone z (some y)) (Function.update linked zi (z :: linked zi)) idle := by
  refine ⟨zones.map.put rep ok apart pages words, ?_, ?_⟩
  · have kept := zones.array_kept apart words (zones.lists.arrays zi) (fun _ member => member) (out zi)
    have list : Listed s'.word addrOf 12 (addrOf z) (z :: linked zi) := by
      refine ⟨rfl, some_page, ?_⟩
      rw [← link] at kept
      exact kept
    exact zones.array_changed apart words list (List.nodup_cons.mpr ⟨out zi, zones.lists.once zi⟩) array
      (fun j _ => out j) not_idle free count
  · apply zones.placed.update
    · intro j v other
      by_cases own : j = zi
      · rw [own, Function.update_self, List.mem_cons]
        exact ⟨fun member => member.resolve_left other, Or.inr⟩
      · rw [Function.update_of_ne own]
    · exact fun v _ => Iff.rfl
    · intro j
      obtain ⟨used, index, some⟩ := offers
      by_cases own : j = zi
      · rw [own, Function.update_self]
        simp [Zone.Offers, used, index, some]
      · rw [Function.update_of_ne own]
        simp [Zone.Offers, out j, index, Ne.symm own]
    · simp [not_idle, offers.1]

theorem Zones.gives (zones : Zones s zone linked idle) (found : zone z = some x) (hands : y.Hands x i)
    (ok : y.Ok s.zonePageCnt) (rep : ZoneRep s' z y) (words : KeepsOthers s s' z) (some_page : addrOf z ≠ 0)
    (array : s'.zoneArray = if x.nfree = 0 then Function.update s.zoneArray x.index (addrOf z) else s.zoneArray)
    (link : s'.zNext (addrOf z) = if x.nfree = 0 then s.zoneArray x.index else s.zNext (addrOf z))
    (free : s'.zoneFree = s.zoneFree) (count : s'.zoneFreeCnt = s.zoneFreeCnt)
    (pages : s'.zonePageCnt = s.zonePageCnt) :
    Zones s' (Function.update zone z (some y))
      (if x.nfree = 0 then Function.update linked x.index (z :: linked x.index) else linked) idle := by
  have apart := zones.map.separate found
  have not_idle := zones.placed.not_idle found hands.same
  have more := hands.nfree
  have offers : y.Offers x.index := ⟨hands.used, hands.index.symm, by lia⟩
  split
  · rename_i none
    rw [if_pos none] at array link
    refine zones.pushes apart offers ok rep words some_page array link free count pages ?_ not_idle
    intro j member
    obtain ⟨w, same, _, _, some⟩ := (zones.placed.offers j z).mp member
    rw [found] at same
    cases same
    lia
  · rename_i some
    rw [if_neg some] at array link
    refine ⟨zones.map.put rep ok apart pages words, zones.lists_kept found words link array free count, ?_⟩
    apply zones.placed.update (fun _ _ _ => Iff.rfl) (fun _ _ => Iff.rfl)
    · intro zi
      rw [zones.placed.offers zi z, found]
      simp only [Option.some.injEq, exists_eq_left', Zone.Offers, hands.used, hands.same, hands.index, true_and]
      exact and_congr_right (fun _ => ⟨fun _ => by lia, fun _ => Nat.pos_of_ne_zero some⟩)
    · simp [not_idle, hands.used]

theorem Zones.unparks (zones : Zones s zone linked (z :: rest)) :
    Zones { s with zoneFree := s.zNext (addrOf z), zoneFreeCnt := s.zoneFreeCnt - 1 }
      (Function.update zone z none) linked rest := by
  obtain ⟨out, rest_nodup⟩ := List.nodup_cons.mp zones.lists.onceIdle
  obtain ⟨x, found, parked⟩ := (zones.placed.idles z).mp List.mem_cons_self
  have count := zones.lists.count
  rw [List.length_cons] at count
  have map : ZoneMap { s with zoneFree := s.zNext (addrOf z), zoneFreeCnt := s.zoneFreeCnt - 1 } zone :=
    zones.map.congr rfl (fun _ _ _ _ _ _ => rfl)
  refine ⟨map.drop, ⟨zones.lists.arrays, zones.lists.parked.2.2, ?_, zones.lists.once, rest_nodup⟩, ?_⟩
  · simp only
    lia
  · apply zones.placed.update (fun _ _ _ => Iff.rfl)
    · intro v other
      rw [List.mem_cons]
      exact ⟨Or.inr, fun member => member.resolve_left other⟩
    · intro zi
      simp only [reduceCtorEq, false_and, exists_false, iff_false]
      intro member
      exact absurd ((zones.placed.index_of found member).2.symm.trans parked) (by decide)
    · simp [out]

/-- What rt_free does with a zone that has gone out of the zone array. -/
def parkZone (s : Heap) (z : Nat) : Heap :=
  let s := s.put z 0xffffffff
  let s := s.put (z + 12) s.zoneFree
  { s with zoneFree := z, zoneFreeCnt := s.zoneFreeCnt + 1 }

theorem retireZone_eq :
    retireZone s z = (unlinkZone (s.zZoneindex z) z s.listFuel s none).bind (fun s =>
      if zoneReleaseThresh < (parkZone s z).zoneFreeCnt then releaseZone (parkZone s z) else some (parkZone s z)) := rfl

theorem parkZone_rep (rep : ZoneRep s z x) (ok : x.Ok s.zonePageCnt) :
    ZoneRep (parkZone s (addrOf z)) z { x with parked := true } := by
  have words : ∀ a, a ≠ addrOf z → a ≠ addrOf z + 12 → (parkZone s (addrOf z)).word a = s.word a := by
    intro a first link
    simp [parkZone, first, link]
  refine rep.change (y := { x with parked := true }) rfl rfl ?_ ?_ ?_ ?_ ?_
  · intro n member
    simp only [List.mem_cons, List.not_mem_nil, or_false] at member
    exact words _ (by lia) (by lia)
  · intro used
    cases used
  · exact (words _ (by lia) (by lia)).trans rep.nfree
  · exact (words _ (by lia) (by lia)).trans rep.uindex
  · rw [words _ (by lia) (by lia)]
    apply rep.chunks.congr
    intro i member
    have range := ok.chunk_range (z := z) (Nat.lt_of_le_of_lt (ok.below i member) ok.used)
    exact words _ (by lia) (by lia)

theorem parkZone_keeps (ok : x.Ok s.zonePageCnt) : KeepsOthers s (parkZone s (addrOf z)) z := by
  intro a outside
  have header : ∀ n < 36, a ≠ addrOf z + n := by
    rintro n less rfl
    exact outside (ok.header_page less)
  have first := header 0 (by decide)
  rw [Nat.add_zero] at first
  simp [parkZone, first, header 12 (by decide)]

theorem Placed.parks (placed : Placed zone linked idle) (once : (linked zi).Nodup) (found : zone z = some x)
    (offers : x.Offers zi) : Placed (Function.update zone z (some { x with parked := true }))
      (Function.update linked zi ((linked zi).erase z)) (z :: idle) := by
  apply placed.update
  · intro j v other
    by_cases own : j = zi
    · rw [own, Function.update_self, once.mem_erase_iff]
      exact ⟨fun both => both.2, fun old => ⟨other, old⟩⟩
    · rw [Function.update_of_ne own]
  · intro v other
    rw [List.mem_cons]
    exact ⟨fun inside => inside.resolve_left other, Or.inr⟩
  · intro j
    by_cases own : j = zi
    · rw [own, Function.update_self]
      simp [once.mem_erase_iff, Zone.Offers]
    · rw [Function.update_of_ne own]
      simp only [Option.some.injEq, exists_eq_left', Zone.Offers, Bool.true_eq_false, false_and, iff_false]
      intro inside
      exact own ((placed.index_of found inside).1.symm.trans offers.2.1)
  · simp

theorem Zones.relinked {t : Heap} (zones : Zones s zone linked idle)
    (words : ∀ a, (∀ m ∈ linked zi, a ≠ addrOf m + 12) → t.word a = s.word a)
    (pages : t.zonePageCnt = s.zonePageCnt) : ZoneMap t zone := by
  apply zones.map.congr pages
  intro v w a there inside link
  apply words a
  rintro m linked_m rfl
  obtain ⟨u, at_m, _⟩ := (zones.placed.offers zi m).mp linked_m
  by_cases same : m = v
  · exact link (by rw [same])
  · rw [addrOf_page m 12 (by decide)] at inside
    exact zones.map.apart v w m u there at_m (Ne.symm same) m inside (zones.map.page at_m)

theorem ZoneMap.elsewhere {t : Heap} {l : List Nat} (map : ZoneMap t zone)
    (words : ∀ a, (∀ m ∈ linked zi, a ≠ addrOf m + 12) → t.word a = s.word a) (separate : Separate t zone z)
    (keeps : KeepsOthers t s' z) (member : z ∈ linked zi) (list : Listed s.word addrOf 12 p l)
    (theirs : ∀ v ∈ l, (∃ w, zone v = some w) ∧ v ∉ linked zi) : Listed s'.word addrOf 12 p l := by
  apply list.congr
  intro v inside
  obtain ⟨⟨w, there⟩, out⟩ := theirs v inside
  have link : t.word (addrOf v + 12) = s.word (addrOf v + 12) := by
    apply words
    intro m linked_m same
    have equal : v = m := addrOf_inj.mp (by lia)
    exact out (equal ▸ linked_m)
  rw [← link]
  exact map.link separate keeps there (by rintro rfl; exact out member)

theorem Zones.parks {fuel : Nat} (zones : Zones s zone linked idle) (found : zone z = some x) (offers : x.Offers zi)
    (whole : x.nfree = x.nmax) (some_page : addrOf z ≠ 0) (enough : (linked zi).length ≤ fuel) :
    ∃ t, unlinkZone zi (addrOf z) fuel s none = some t ∧
      Zones (parkZone t (addrOf z)) (Function.update zone z (some { x with parked := true }))
        (Function.update linked zi ((linked zi).erase z)) (z :: idle) ∧
      parkZone t (addrOf z) = { s with
        word := (parkZone t (addrOf z)).word
        zoneArray := (parkZone t (addrOf z)).zoneArray
        zoneFree := addrOf z
        zoneFreeCnt := s.zoneFreeCnt + 1 } ∧
      ∀ a, (∀ v w, zone v = some w → ¬Run.Has (v, s.zonePageCnt) (pageNo a)) →
        (parkZone t (addrOf z)).word a = s.word a := by
  have member := (zones.placed.offers zi z).mpr ⟨x, found, offers⟩
  have once := zones.lists.once zi
  have array : Listed s.word addrOf 12 (s.zoneSlot zi none) (linked zi) := zones.lists.arrays zi
  obtain ⟨t, result, erased, fields, rewritten, arrays, _⟩ :=
    unlinkZone_spec array once member (by simp) enough
  have words : ∀ a, (∀ m ∈ linked zi, a ≠ addrOf m + 12) → t.word a = s.word a :=
    fun a => rewritten a (by simp)
  have pages : t.zonePageCnt = s.zonePageCnt := by rw [fields]
  have not_idle := zones.placed.not_idle found offers.1
  have map := zones.relinked words pages
  have separate := map.separate found
  have ok := map.ok z x found
  have keeps := parkZone_keeps (z := z) ok
  refine ⟨t, result, ⟨?_, ?_, zones.placed.parks once found offers⟩, ?_, ?_⟩
  · refine map.put (parkZone_rep (map.rep z x found) ok) ?_ separate rfl keeps
    refine ⟨ok.used, ok.nodup, ok.below, fun _ => ?_, ok.small, ok.fits⟩
    have used := ok.used
    unfold Zone.nfree at whole
    simp only
    lia
  · refine ⟨?_, ?_, ?_, ?_, List.nodup_cons.mpr ⟨not_idle, zones.lists.onceIdle⟩⟩
    · intro j
      by_cases own : j = zi
      · rw [own, Function.update_self]
        apply Listed.congr (w := t.word) erased
        intro v inside
        obtain ⟨out, old⟩ := (once.mem_erase_iff).mp inside
        obtain ⟨w, there, _⟩ := (zones.placed.offers zi v).mp old
        exact map.link separate keeps there out
      · rw [Function.update_of_ne own]
        have array : (parkZone t (addrOf z)).zoneArray j = s.zoneArray j := arrays j own
        rw [array]
        apply map.elsewhere words separate keeps member (zones.lists.arrays j)
        intro v inside
        obtain ⟨w, there, index⟩ := (zones.placed.offers j v).mp inside
        exact ⟨⟨w, there⟩, fun both => own (index.2.1.symm.trans (zones.placed.index_of there both).1)⟩
    · refine ⟨rfl, some_page, ?_⟩
      have link : (parkZone t (addrOf z)).word (addrOf z + 12) = s.zoneFree := by
        simp only [parkZone, put_word, if_true]
        rw [fields]
        rfl
      rw [link]
      apply map.elsewhere words separate keeps member zones.lists.parked
      intro v inside
      obtain ⟨w, there, parked⟩ := (zones.placed.idles v).mp inside
      exact ⟨⟨w, there⟩, fun both =>
        absurd ((zones.placed.index_of there both).2.symm.trans parked) (by decide)⟩
    · have count : (parkZone t (addrOf z)).zoneFreeCnt = t.zoneFreeCnt + 1 := rfl
      rw [count, fields]
      exact congrArg (· + 1) zones.lists.count
    · intro j
      by_cases own : j = zi
      · rw [own, Function.update_self]
        exact once.erase z
      · rw [Function.update_of_ne own]
        exact zones.lists.once j
  · unfold parkZone
    rw [fields]
    rfl
  · intro a outside
    have own := outside z x found
    rw [← pages] at own
    rw [keeps a own]
    apply words a
    rintro m inside rfl
    obtain ⟨w, there, _⟩ := (zones.placed.offers zi m).mp inside
    apply outside m w there
    rw [addrOf_page m 12 (by decide)]
    exact zones.map.page there

end RtThread.Slab

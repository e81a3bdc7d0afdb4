import RtThread.Slab.Pages

/-! A zone in memory: its header, its chunks and its free chunks, and what each part of rt_malloc and
rt_free changes of them. -/
namespace RtThread.Slab
open Intervals Linked

def chunkSize (zi : Nat) : Nat :=
  if zi < 16 then 8 * (zi + 1)
  else if zi < 24 then 16 * (zi - 7)
  else if zi < 32 then 32 * (zi - 15)
  else if zi < 40 then 64 * (zi - 23)
  else if zi < 48 then 128 * (zi - 31)
  else if zi < 56 then 256 * (zi - 39)
  else if zi < 64 then 512 * (zi - 47)
  else 1024 * (zi - 55)

theorem chunkSize_min (zi : Nat) : 8 ≤ chunkSize zi := by
  unfold chunkSize
  split_ifs <;> lia

theorem rtAlign_up {n a : Nat} (some_size : 0 < a) (small : n + a < 2 ^ 32) :
    n ≤ rtAlign n a ∧ rtAlign n a < n + a := by
  have same : (n + (a - 1)) % 2 ^ 32 = n + (a - 1) := Nat.mod_eq_of_lt (by lia)
  have total := Nat.div_add_mod (n + (a - 1)) a
  have rest := Nat.mod_lt (n + (a - 1)) some_size
  rw [Nat.mul_comm] at total
  rw [rtAlign, same]
  lia

theorem zoneClass {n a b : Nat} (some_size : 0 < a) (small : n + a < 2 ^ 32) (low : 8 * a ≤ n) (high : n ≤ 16 * a)
    (table : ∀ q ≤ 16, 8 ≤ q → chunkSize (q + b) = q * a) :
    rtAlign n a = chunkSize (rtAlign n a / a + b) ∧ n ≤ rtAlign n a ∧ rtAlign n a ≤ 16 * a ∧ rtAlign n a / a ≤ 16 := by
  obtain ⟨lower, upper⟩ := rtAlign_up some_size small
  obtain ⟨q, whole⟩ : ∃ q, rtAlign n a = q * a := ⟨_, rfl⟩
  have count : rtAlign n a / a = q := by rw [whole, Nat.mul_div_cancel _ some_size]
  have least : 8 ≤ q := by
    by_contra less
    have bound := Nat.mul_le_mul_right a (by lia : q ≤ 7)
    lia
  have most : q ≤ 16 := by
    by_contra more
    have bound := Nat.mul_le_mul_right a (by lia : 17 ≤ q)
    lia
  refine ⟨?_, lower, ?_, by lia⟩
  · rw [count, table q most least, whole]
  · rw [whole]
    exact Nat.mul_le_mul_right a most

theorem zoneindex_spec {n : Nat} (some_bytes : 0 < n) (small : n < 16384) :
    (zoneindex n).1 = chunkSize (zoneindex n).2 ∧ n ≤ (zoneindex n).1 ∧ (zoneindex n).2 < nzones ∧
      (zoneindex n).1 ≤ 16384 ∧ (n < 8192 → (zoneindex n).1 ≤ 8192) := by
  have ofClass : ∀ a b, 0 < a → a ≤ 1024 → b ≤ 55 → 8 * a ≤ n → n ≤ 16 * a → (8192 ≤ n ∨ a ≤ 512) →
      (∀ q ≤ 16, 8 ≤ q → chunkSize (q + b) = q * a) →
      rtAlign n a = chunkSize (rtAlign n a / a + b) ∧ n ≤ rtAlign n a ∧ rtAlign n a / a + b < nzones ∧
        rtAlign n a ≤ 16384 ∧ (n < 8192 → rtAlign n a ≤ 8192) := by
    intro a b some_size most_size most low high big table
    obtain ⟨same, lower, upper, count⟩ := zoneClass some_size (by lia) low high table
    unfold nzones
    exact ⟨same, lower, by lia, by lia, by lia⟩
  unfold zoneindex
  split_ifs
  · obtain ⟨lower, upper⟩ := rtAlign_up (n := n) (a := 8) (by decide) (by lia)
    obtain ⟨q, whole⟩ : ∃ q, rtAlign n 8 = q * 8 := ⟨_, rfl⟩
    have table : ∀ q ≤ 16, 0 < q → q * 8 = chunkSize (q - 1) := by decide
    have most : q ≤ 16 := by lia
    unfold nzones
    simp only [whole, Nat.mul_div_cancel _ (by decide : 0 < 8)]
    exact ⟨table q most (by lia), by lia, by lia, by lia, by lia⟩
  · exact ofClass 16 7 (by lia) (by lia) (by lia) (by lia) (by lia) (by lia) (by decide)
  · exact ofClass 32 15 (by lia) (by lia) (by lia) (by lia) (by lia) (by lia) (by decide)
  · exact ofClass 64 23 (by lia) (by lia) (by lia) (by lia) (by lia) (by lia) (by decide)
  · exact ofClass 128 31 (by lia) (by lia) (by lia) (by lia) (by lia) (by lia) (by decide)
  · exact ofClass 256 39 (by lia) (by lia) (by lia) (by lia) (by lia) (by lia) (by decide)
  · exact ofClass 512 47 (by lia) (by lia) (by lia) (by lia) (by lia) (by lia) (by decide)
  · exact ofClass 1024 55 (by lia) (by lia) (by lia) (by lia) (by lia) (by lia) (by decide)

theorem zoneOffset_range {size : Nat} (least : 8 ≤ size) (most : size ≤ 16384) :
    36 ≤ zoneOffset size ∧ zoneOffset size < size + 36 := by
  unfold zoneOffset sizeofSlabZone minChunkSize
  split
  · have range := rtAlign_up (n := 36) (a := size) (by lia) (by lia)
    lia
  · have same : rtAlign 36 8 = 40 := by decide
    lia

/-- A zone in use, or parked with the free zones. Its chunks have the numbers below `nmax`, of which
those up to `used` have been handed out before. -/
structure Zone where
  index : Nat
  nmax : Nat
  used : Nat
  frees : List Nat
  parked : Bool

namespace Zone
variable (x : Zone)

def size : Nat := chunkSize x.index

def nfree : Nat := x.nmax - 1 - x.used + x.frees.length

/-- The zone is to be linked in the zone array, at `zi`. -/
def Offers (zi : Nat) : Prop := x.parked = false ∧ x.index = zi ∧ 0 < x.nfree

structure Ok (pages : Nat) : Prop where
  used : x.used < x.nmax
  nodup : x.frees.Nodup
  below : ∀ i ∈ x.frees, i ≤ x.used
  whole : x.parked = true → x.frees.length = x.used + 1
  small : x.size ≤ 16384
  fits : zoneOffset x.size + x.nmax * x.size ≤ pages * rtMmPageSize

end Zone

def chunkAt (z : Nat) (x : Zone) (i : Nat) : Nat := addrOf z + zoneOffset x.size + i * x.size

/-- The header of a zone in memory, and its free chunks. -/
structure ZoneRep (s : Heap) (z : Nat) (x : Zone) : Prop where
  magic : x.parked = false → s.zMagic (addrOf z) = zallocSlabMagic
  nfree : s.zNfree (addrOf z) = x.nfree
  nmax : s.zNmax (addrOf z) = x.nmax
  base : s.zBaseptr (addrOf z) = chunkAt z x 0
  uindex : s.zUindex (addrOf z) = x.used
  chunksize : s.zChunksize (addrOf z) = x.size
  index : s.zZoneindex (addrOf z) = x.index
  chunks : Listed s.word (chunkAt z x) 0 (s.zFreechunk (addrOf z)) x.frees

variable {s s' : Heap} {x : Zone} {a i j n p pages z : Nat}

theorem Zone.Ok.size_min (x : Zone) : 8 ≤ x.size := chunkSize_min _

theorem Zone.Ok.offset (ok : x.Ok pages) : 36 ≤ zoneOffset x.size :=
  (zoneOffset_range (Zone.Ok.size_min x) ok.small).1

theorem Zone.Ok.chunk_range (ok : x.Ok pages) (chunk : i < x.nmax) :
    addrOf z + 36 ≤ chunkAt z x i ∧ chunkAt z x i + x.size ≤ addrOf (z + pages) := by
  have offset := ok.offset
  have more := Nat.mul_le_mul_right x.size chunk
  have fits := ok.fits
  rw [Nat.succ_mul] at more
  rw [← addrOf_add]
  unfold chunkAt
  lia

theorem Zone.Ok.some_pages (ok : x.Ok pages) : 0 < pages := by
  have fits := ok.fits
  have offset := ok.offset
  rcases Nat.eq_zero_or_pos pages with rfl | positive
  · lia
  · exact positive

theorem pageNo_between {q : Nat} (lower : addrOf p ≤ a) (upper : a < addrOf q) : p ≤ pageNo a ∧ pageNo a < q := by
  unfold addrOf pageNo rtMmPageSize at *
  lia

theorem Zone.Ok.chunk_page (ok : x.Ok pages) (chunk : i < x.nmax) (lower : chunkAt z x i ≤ a)
    (upper : a < chunkAt z x i + x.size) : Run.Has (z, pages) (pageNo a) := by
  obtain ⟨start, stop⟩ := ok.chunk_range (z := z) chunk
  exact pageNo_between (p := z) (q := z + pages) (by lia) (by lia)

theorem Zone.Ok.header_page (ok : x.Ok pages) (header : n < 36) : Run.Has (z, pages) (pageNo (addrOf z + n)) := by
  have some := ok.some_pages
  rw [addrOf_page z n (by unfold rtMmPageSize; lia)]
  exact ⟨Nat.le_refl _, Nat.lt_add_of_pos_right some⟩

theorem chunks_apart (less : i < j) : chunkAt z x i + x.size ≤ chunkAt z x j := by
  have more := Nat.mul_le_mul_right x.size less
  rw [Nat.succ_mul] at more
  unfold chunkAt
  lia

theorem chunkAt_inj (x : Zone) : chunkAt z x i = chunkAt z x j ↔ i = j := by
  constructor
  · intro same
    have least := Zone.Ok.size_min x
    rcases Nat.lt_trichotomy i j with less | here | more
    · have apart := chunks_apart (z := z) (x := x) less
      lia
    · exact here
    · have apart := chunks_apart (z := z) (x := x) more
      lia
  · rintro rfl
    rfl

theorem ZoneRep.congr (rep : ZoneRep s z x) (ok : x.Ok pages)
    (same : ∀ a, Run.Has (z, pages) (pageNo a) → a ≠ addrOf z + 12 → s'.word a = s.word a) : ZoneRep s' z x := by
  have header : ∀ n < 36, n ≠ 12 → s'.word (addrOf z + n) = s.word (addrOf z + n) :=
    fun n small other => same _ (ok.header_page small) (by lia)
  have first := header 0 (by decide) (by decide)
  refine ⟨fun used => first.trans (rep.magic used), (header 4 (by decide) (by decide)).trans rep.nfree,
    (header 8 (by decide) (by decide)).trans rep.nmax, (header 16 (by decide) (by decide)).trans rep.base,
    (header 20 (by decide) (by decide)).trans rep.uindex, (header 24 (by decide) (by decide)).trans rep.chunksize,
    (header 28 (by decide) (by decide)).trans rep.index, ?_⟩
  have head : s'.zFreechunk (addrOf z) = s.zFreechunk (addrOf z) := header 32 (by decide) (by decide)
  rw [head]
  apply rep.chunks.congr
  intro i member
  have chunk := Nat.lt_of_le_of_lt (ok.below i member) ok.used
  have range := ok.chunk_range (z := z) chunk
  have least := Zone.Ok.size_min x
  exact same _ (ok.chunk_page chunk (Nat.le_add_right _ _) (by lia)) (by lia)

theorem ZoneRep.change {y : Zone} (rep : ZoneRep s z x) (index : y.index = x.index) (nmax : y.nmax = x.nmax)
    (kept : ∀ n ∈ [8, 16, 24, 28], s'.word (addrOf z + n) = s.word (addrOf z + n))
    (magic : y.parked = false → s'.word (addrOf z) = zallocSlabMagic) (nfree : s'.word (addrOf z + 4) = y.nfree)
    (uindex : s'.word (addrOf z + 20) = y.used)
    (chunks : Listed s'.word (chunkAt z x) 0 (s'.word (addrOf z + 32)) y.frees) : ZoneRep s' z y := by
  have size : y.size = x.size := congrArg chunkSize index
  have place : chunkAt z y = chunkAt z x := by
    funext i
    unfold chunkAt
    rw [size]
  refine ⟨magic, nfree, ?_, ?_, uindex, ?_, ?_, ?_⟩
  · exact (kept 8 (by decide)).trans (rep.nmax.trans nmax.symm)
  · rw [place]
    exact (kept 16 (by decide)).trans rep.base
  · exact (kept 24 (by decide)).trans (rep.chunksize.trans size.symm)
  · exact (kept 28 (by decide)).trans (rep.index.trans index.symm)
  · rw [place]
    exact chunks

def Zone.Live (x : Zone) (i : Nat) : Prop := x.parked = false ∧ i ≤ x.used ∧ i ∉ x.frees

/-- Of two states of a zone, the later one has one more chunk handed out. -/
structure Zone.Hands (x y : Zone) (i : Nat) : Prop where
  index : y.index = x.index
  nmax : y.nmax = x.nmax
  used : x.parked = false
  same : y.parked = false
  nfree : x.nfree = y.nfree + 1
  fresh : ¬x.Live i
  chunk : i < x.nmax
  live : ∀ j, y.Live j ↔ x.Live j ∨ j = i

theorem Zone.hands_new (ok : x.Ok pages) (used : x.parked = false) (more : x.used + 1 < x.nmax) :
    x.Hands { x with used := x.used + 1 } (x.used + 1) := by
  refine ⟨rfl, rfl, used, used, ?_, ?_, more, ?_⟩
  · unfold Zone.nfree
    simp only
    lia
  · rintro ⟨_, below, _⟩
    lia
  · intro j
    unfold Zone.Live
    constructor
    · rintro ⟨_, below, out⟩
      rcases Nat.lt_or_ge x.used j with beyond | old
      · exact Or.inr (by simp only at below; lia)
      · exact Or.inl ⟨used, old, out⟩
    · rintro (⟨_, below, out⟩ | rfl)
      · exact ⟨used, Nat.le_succ_of_le below, out⟩
      · exact ⟨used, Nat.le_refl _, fun member => absurd (ok.below _ member) (by lia)⟩

theorem Zone.hands_old {rest : List Nat} (ok : x.Ok pages) (used : x.parked = false) (frees : x.frees = i :: rest) :
    x.Hands { x with frees := rest } i := by
  have nodup := ok.nodup
  rw [frees] at nodup
  have member : i ∈ x.frees := by rw [frees]; exact List.mem_cons_self
  refine ⟨rfl, rfl, used, used, ?_, fun live => live.2.2 member,
    Nat.lt_of_le_of_lt (ok.below i member) ok.used, ?_⟩
  · unfold Zone.nfree
    simp only [frees, List.length_cons]
    lia
  · intro j
    unfold Zone.Live
    simp only [frees, List.mem_cons, not_or]
    constructor
    · rintro ⟨_, below, out⟩
      by_cases same : j = i
      · exact Or.inr same
      · exact Or.inl ⟨used, below, same, out⟩
    · rintro (⟨_, below, _, out⟩ | rfl)
      · exact ⟨used, below, out⟩
      · exact ⟨used, ok.below _ member, (List.nodup_cons.mp nodup).1⟩

theorem Zone.Ok.handed_new (ok : x.Ok pages) (used : x.parked = false) (more : x.used + 1 < x.nmax) :
    Zone.Ok { x with used := x.used + 1 } pages :=
  ⟨more, ok.nodup, fun i member => Nat.le_succ_of_le (ok.below i member),
    fun parked => absurd (used.symm.trans parked) (by decide), ok.small, ok.fits⟩

theorem Zone.Ok.handed_old {rest : List Nat} (ok : x.Ok pages) (used : x.parked = false)
    (frees : x.frees = i :: rest) : Zone.Ok { x with frees := rest } pages := by
  have nodup := ok.nodup
  rw [frees] at nodup
  exact ⟨ok.used, (List.nodup_cons.mp nodup).2,
    fun j member => ok.below j (by rw [frees]; exact List.mem_cons_of_mem _ member),
    fun parked => absurd (used.symm.trans parked) (by decide), ok.small, ok.fits⟩

/-- The zone has one free chunk less, and goes out of the zone array with its last one. -/
def countDown (s : Heap) (zi z : Nat) : Heap :=
  let s := s.put (z + 4) (s.zNfree z - 1)
  if s.zNfree z = 0 then
    { s with zoneArray := Function.update s.zoneArray zi (s.zNext z) }.put (z + 12) 0
  else s

theorem takeChunk_eq {zi size : Nat} (some_free : s.zNfree z ≠ 0) :
    takeChunk s zi z size =
      let s := countDown s zi z
      if s.zUindex z + 1 ≠ s.zNmax z then
        let s := s.put (z + 20) (s.zUindex z + 1)
        some (s, s.zBaseptr z + s.zUindex z * size)
      else some (s.put (z + 32) (s.word (s.zFreechunk z)), s.zFreechunk z) := by
  rw [takeChunk, if_neg some_free]
  rfl

/-- `t` is `s` with a free chunk of the zone less, which leaves `n` of them. -/
structure Counted (s t : Heap) (zi z n : Nat) : Prop where
  nfree : t.zNfree z = n
  words : ∀ a, a ≠ z + 4 → (n ≠ 0 ∨ a ≠ z + 12) → t.word a = s.word a
  fields : t = { s with word := t.word, zoneArray :=
    if n = 0 then Function.update s.zoneArray zi (s.zNext z) else s.zoneArray }

theorem countDown_counted (zi : Nat) (count : s.zNfree z = n + 1) : Counted s (countDown s zi z) zi z n := by
  have now : (s.put (z + 4) (s.zNfree z - 1)).zNfree z = n := by
    rw [count]
    simp [Heap.zNfree]
  have next : (s.put (z + 4) (s.zNfree z - 1)).zNext z = s.zNext z := by
    simp [Heap.zNext]
  unfold countDown
  simp only [now, next]
  split
  · rename_i none
    constructor
    · simpa [Heap.zNfree] using now
    · intro a other off
      have far : a ≠ z + 12 := off.resolve_left (fun some => some none)
      simp [other, far]
    · rw [if_pos none]
      rfl
  · rename_i some
    constructor
    · exact now
    · intro a other _
      simp [other]
    · rw [if_neg some]
      rfl

section
variable {t : Heap} {zi : Nat} (counted : Counted s t zi (addrOf z) n)
include counted

theorem Counted.header {m : Nat} (other : m ≠ 4) (link : m ≠ 12) :
    t.word (addrOf z + m) = s.word (addrOf z + m) :=
  counted.words _ (by lia) (Or.inr (by lia))

theorem Counted.chunk (ok : x.Ok pages) (inside : i < x.nmax) :
    t.word (chunkAt z x i) = s.word (chunkAt z x i) := by
  have range := ok.chunk_range (z := z) inside
  exact counted.words _ (by lia) (Or.inr (by lia))

theorem Counted.outside {m v : Nat} {y : Zone} (ok : x.Ok pages) (header : m < 36) (other : m ≠ 12)
    (left : n = y.nfree) :
    (∀ a, ¬Run.Has (z, pages) (pageNo a) → (t.put (addrOf z + m) v).word a = s.word a) ∧
      t.put (addrOf z + m) v = { s with word := (t.put (addrOf z + m) v).word, zoneArray :=
        if y.nfree = 0 then Function.update s.zoneArray zi (s.zNext (addrOf z)) else s.zoneArray } ∧
      (y.nfree ≠ 0 → (t.put (addrOf z + m) v).zNext (addrOf z) = s.zNext (addrOf z)) := by
  rw [← left]
  refine ⟨?_, ?_, ?_⟩
  · intro a out
    have away : ∀ k < 36, a ≠ addrOf z + k := by
      rintro k small rfl
      exact out (ok.header_page small)
    rw [put_word, if_neg (away m header)]
    exact counted.words a (away 4 (by decide)) (Or.inr (away 12 (by decide)))
  · rw [counted.fields]
    rfl
  · intro some
    simp only [Heap.zNext, put_word]
    rw [if_neg (by lia)]
    exact counted.words _ (by lia) (Or.inl some)

theorem Counted.kept {m v : Nat} (field : m = 20 ∨ m = 32) :
    ∀ k ∈ [8, 16, 24, 28], (t.put (addrOf z + m) v).word (addrOf z + k) = s.word (addrOf z + k) := by
  intro k member
  simp only [List.mem_cons, List.not_mem_nil, or_false] at member
  rw [put_word, if_neg (by lia)]
  exact counted.header (by lia) (by lia)

theorem Counted.magic {m v : Nat} (rep : ZoneRep s z x) (used : x.parked = false) (field : m = 20 ∨ m = 32) :
    (t.put (addrOf z + m) v).word (addrOf z) = zallocSlabMagic := by
  rw [put_word, if_neg (by lia)]
  exact (counted.words _ (by simp) (by simp)).trans (rep.magic used)

theorem Counted.rep_new (rep : ZoneRep s z x) (ok : x.Ok pages) (used : x.parked = false)
    (left : n = Zone.nfree { x with used := x.used + 1 }) :
    ZoneRep (t.put (addrOf z + 20) (x.used + 1)) z { x with used := x.used + 1 } := by
  apply rep.change (y := { x with used := x.used + 1 }) rfl rfl
  · exact counted.kept (Or.inl rfl)
  · exact fun _ => counted.magic rep used (Or.inl rfl)
  · rw [put_word, if_neg (by lia)]
    exact counted.nfree.trans left
  · rw [put_word, if_pos rfl]
  · have head : (t.put (addrOf z + 20) (x.used + 1)).word (addrOf z + 32) = s.zFreechunk (addrOf z) := by
      rw [put_word, if_neg (by lia)]
      exact counted.header (by decide) (by decide)
    rw [head]
    apply rep.chunks.congr
    intro i member
    have below := Nat.lt_of_le_of_lt (ok.below i member) ok.used
    have range := ok.chunk_range (z := z) below
    rw [put_word, if_neg (by lia)]
    exact counted.chunk ok below

theorem Counted.rep_old {rest : List Nat} (rep : ZoneRep s z x) (ok : x.Ok pages) (used : x.parked = false)
    (frees : x.frees = i :: rest) (left : n = Zone.nfree { x with frees := rest }) :
    ZoneRep (t.put (addrOf z + 32) (s.word (chunkAt z x i))) z { x with frees := rest } := by
  have chunks := rep.chunks
  rw [frees] at chunks
  obtain ⟨_, _, later⟩ := chunks
  apply rep.change (y := { x with frees := rest }) rfl rfl
  · exact counted.kept (Or.inr rfl)
  · exact fun _ => counted.magic rep used (Or.inr rfl)
  · rw [put_word, if_neg (by lia)]
    exact counted.nfree.trans left
  · rw [put_word, if_neg (by lia)]
    exact (counted.header (by decide) (by decide)).trans rep.uindex
  · rw [put_word, if_pos rfl]
    apply Listed.congr (w := s.word) later
    intro j member
    have below : j < x.nmax :=
      Nat.lt_of_le_of_lt (ok.below j (by rw [frees]; exact List.mem_cons_of_mem _ member)) ok.used
    have range := ok.chunk_range (z := z) below
    rw [put_word, if_neg (by lia)]
    exact counted.chunk ok below

end

/-- What rt_malloc changes of a zone that it takes a chunk from, and of the zone array. -/
theorem takeChunk_spec {zi : Nat} (rep : ZoneRep s z x) (ok : x.Ok pages) (offers : x.Offers zi) :
    ∃ s' y i, takeChunk s zi (addrOf z) (chunkSize zi) = some (s', chunkAt z x i) ∧ x.Hands y i ∧ y.Ok pages ∧
      ZoneRep s' z y ∧ (∀ a, ¬Run.Has (z, pages) (pageNo a) → s'.word a = s.word a) ∧
      s' = { s with word := s'.word, zoneArray :=
        if y.nfree = 0 then Function.update s.zoneArray zi (s.zNext (addrOf z)) else s.zoneArray } ∧
      (y.nfree ≠ 0 → s'.zNext (addrOf z) = s.zNext (addrOf z)) := by
  obtain ⟨used, index, some_free⟩ := offers
  obtain ⟨n, count⟩ := Nat.exists_eq_succ_of_ne_zero (Nat.pos_iff_ne_zero.mp some_free)
  have before : s.zNfree (addrOf z) = n + 1 := rep.nfree.trans count
  have counted := countDown_counted zi before
  rw [takeChunk_eq (by rw [before]; exact Nat.succ_ne_zero n)]
  generalize countDown s zi (addrOf z) = t at counted
  have uindex : t.zUindex (addrOf z) = x.used := (counted.header (by decide) (by decide)).trans rep.uindex
  have nmax : t.zNmax (addrOf z) = x.nmax := (counted.header (by decide) (by decide)).trans rep.nmax
  simp only [uindex, nmax]
  split
  · rename_i more
    have less : x.used + 1 < x.nmax := Nat.lt_of_le_of_ne ok.used more
    have hands := Zone.hands_new ok used less
    have left : n = Zone.nfree { x with used := x.used + 1 } := by
      have one := hands.nfree
      lia
    have rep' := counted.rep_new rep ok used left
    have chunk : chunkAt z x 0 + (x.used + 1) * chunkSize zi = chunkAt z x (x.used + 1) := by
      rw [← index]
      unfold chunkAt
      rw [Nat.zero_mul]
      rfl
    simp only [rep'.uindex, rep'.base]
    exact ⟨_, _, _, congrArg (fun p => some (_, p)) chunk, hands, ok.handed_new used less, rep',
      counted.outside ok (by decide) (by decide) left⟩
  · rename_i last
    have end_used : x.used + 1 = x.nmax := not_not.mp last
    obtain ⟨i, rest, frees⟩ : ∃ i rest, x.frees = i :: rest := by
      apply List.exists_cons_of_length_pos
      unfold Zone.nfree at some_free
      lia
    have hands := Zone.hands_old ok used frees
    have left : n = Zone.nfree { x with frees := rest } := by
      have one := hands.nfree
      lia
    have chunks := rep.chunks
    rw [frees] at chunks
    have head : t.zFreechunk (addrOf z) = chunkAt z x i :=
      (counted.header (by decide) (by decide)).trans chunks.1
    rw [head, counted.chunk ok hands.chunk]
    exact ⟨_, _, _, rfl, hands, ok.handed_old used frees, counted.rep_old rep ok used frees left,
      counted.outside ok (by decide) (by decide) left⟩

/-- The first part of what rt_free does with a chunk. -/
def giveChunk (s : Heap) (z ptr : Nat) : Heap :=
  let s := s.put ptr (s.zFreechunk z)
  let s := s.put (z + 32) ptr
  let nfree := s.zNfree z
  let s := s.put (z + 4) (nfree + 1)
  let zi := s.zZoneindex z
  if nfree = 0 then
    let s := s.put (z + 12) (s.zoneArray zi)
    { s with zoneArray := Function.update s.zoneArray zi z }
  else s

theorem freeChunk_eq {ptr : Nat} (away : ptr ≠ z + 28) :
    freeChunk s z ptr =
      if (giveChunk s z ptr).zNfree z = (giveChunk s z ptr).zNmax z ∧
        ((giveChunk s z ptr).zNext z ≠ 0 ∨ (giveChunk s z ptr).zoneArray (s.zZoneindex z) ≠ z) then
        retireZone (giveChunk s z ptr) z
      else some (giveChunk s z ptr) := by
  have index : (((s.put ptr (s.zFreechunk z)).put (z + 32) ptr).put (z + 4)
      (((s.put ptr (s.zFreechunk z)).put (z + 32) ptr).zNfree z + 1)).zZoneindex z = s.zZoneindex z := by
    simp [Heap.zZoneindex, away.symm]
  rw [← index]
  rfl

theorem giveChunk_words {ptr : Nat} (away : z + 36 ≤ ptr) :
    (∀ a, (giveChunk s z ptr).word a =
      if a = z + 12 ∧ s.zNfree z = 0 then s.zoneArray (s.zZoneindex z)
      else if a = z + 4 then s.zNfree z + 1 else if a = z + 32 then ptr
      else if a = ptr then s.zFreechunk z else s.word a) ∧
      giveChunk s z ptr = { s with
        word := (giveChunk s z ptr).word
        zoneArray := if s.zNfree z = 0 then Function.update s.zoneArray (s.zZoneindex z) z else s.zoneArray } := by
  have count : ((s.put ptr (s.zFreechunk z)).put (z + 32) ptr).zNfree z = s.zNfree z := by
    simp only [Heap.zNfree, put_word]
    rw [if_neg (by lia), if_neg (by lia)]
  have index : (((s.put ptr (s.zFreechunk z)).put (z + 32) ptr).put (z + 4) (s.zNfree z + 1)).zZoneindex z =
      s.zZoneindex z := by
    simp only [Heap.zZoneindex, put_word]
    rw [if_neg (by lia), if_neg (by lia), if_neg (by lia)]
  unfold giveChunk
  simp only [count, index]
  split
  · rename_i none
    refine ⟨fun a => ?_, rfl⟩
    simp only [put_word, none, and_true]
    rfl
  · rename_i some
    refine ⟨fun a => ?_, rfl⟩
    simp only [put_word, some, and_false, if_false]

/-- What rt_free changes of the zone of a chunk, and of the zone array. -/
theorem giveChunk_spec (rep : ZoneRep s z x) (ok : x.Ok pages) (live : x.Live i) :
    ∃ y, y.Hands x i ∧ y.Ok pages ∧ ZoneRep (giveChunk s (addrOf z) (chunkAt z x i)) z y ∧
      (∀ a, ¬Run.Has (z, pages) (pageNo a) → (giveChunk s (addrOf z) (chunkAt z x i)).word a = s.word a) ∧
      giveChunk s (addrOf z) (chunkAt z x i) = { s with
        word := (giveChunk s (addrOf z) (chunkAt z x i)).word
        zoneArray := if x.nfree = 0 then Function.update s.zoneArray x.index (addrOf z) else s.zoneArray } ∧
      (giveChunk s (addrOf z) (chunkAt z x i)).zNext (addrOf z) =
        if x.nfree = 0 then s.zoneArray x.index else s.zNext (addrOf z) := by
  obtain ⟨used, old, out⟩ := live
  have chunk := Nat.lt_of_le_of_lt old ok.used
  have range := ok.chunk_range (z := z) chunk
  have least := Zone.Ok.size_min x
  have ok' : Zone.Ok { x with frees := i :: x.frees } pages := by
    refine ⟨ok.used, List.nodup_cons.mpr ⟨out, ok.nodup⟩, ?_, fun parked => absurd (used.symm.trans parked) (by decide),
      ok.small, ok.fits⟩
    intro j member
    rcases List.mem_cons.mp member with rfl | there
    · exact old
    · exact ok.below j there
  have hands := Zone.hands_old ok' used rfl
  obtain ⟨words, fields⟩ := giveChunk_words (s := s) range.1
  rw [rep.nfree, rep.index] at fields
  simp only [rep.nfree, rep.index] at words
  generalize giveChunk s (addrOf z) (chunkAt z x i) = t at words fields
  refine ⟨_, hands, ok', ?_, ?_, fields, ?_⟩
  · apply rep.change hands.index.symm hands.nmax.symm
    · intro n member
      simp only [List.mem_cons, List.not_mem_nil, or_false] at member
      rw [words, if_neg (by lia), if_neg (by lia), if_neg (by lia), if_neg (by lia)]
    · intro _
      rw [words, if_neg (by lia), if_neg (by lia), if_neg (by lia), if_neg (by lia)]
      exact rep.magic used
    · rw [words, if_neg (by lia), if_pos rfl]
      exact hands.nfree.symm
    · rw [words, if_neg (by lia), if_neg (by lia), if_neg (by lia), if_neg (by lia)]
      exact rep.uindex
    · rw [words, if_neg (by lia), if_neg (by lia), if_pos rfl]
      apply rep.chunks.push
      · lia
      · rw [Nat.add_zero, words, if_neg (by lia), if_neg (by lia), if_neg (by lia), if_pos rfl]
      · intro j member
        have below := Nat.lt_of_le_of_lt (ok.below j member) ok.used
        have there := ok.chunk_range (z := z) below
        have other : chunkAt z x j ≠ chunkAt z x i := by
          rw [Ne, chunkAt_inj]
          rintro rfl
          exact out member
        rw [Nat.add_zero, words, if_neg (by lia), if_neg (by lia), if_neg (by lia), if_neg other]
  · intro a outside
    have header : ∀ n < 36, a ≠ addrOf z + n := by
      rintro n small rfl
      exact outside (ok.header_page small)
    have away : a ≠ chunkAt z x i := by
      rintro rfl
      exact outside (ok.chunk_page chunk (Nat.le_refl _) (by lia))
    rw [words, if_neg (fun link => header 12 (by decide) link.1), if_neg (header 4 (by decide)),
      if_neg (header 32 (by decide)), if_neg away]
  · simp only [Heap.zNext]
    rw [words]
    split
    · rename_i none
      rw [if_pos none.2]
    · rename_i some
      rw [if_neg (fun none => some ⟨rfl, none⟩), if_neg (by lia), if_neg (by lia), if_neg (by lia)]

theorem fill_spec {g : Heap → Nat → Heap} {f : Nat → Nat} (base : Nat) (n : Nat)
    (step : ∀ w i, g { s with word := w } i = { s with word := w }.put (base + i * 4) (f i)) :
    ∃ w, (List.range n).foldl g s = { s with word := w } ∧ (∀ i < n, w (base + i * 4) = f i) ∧
      ∀ a, (∀ i < n, a ≠ base + i * 4) → w a = s.word a := by
  induction n with
  | zero => exact ⟨s.word, rfl, by simp, fun _ _ => rfl⟩
  | succ n ih =>
    obtain ⟨w, result, written, kept⟩ := ih
    refine ⟨Function.update w (base + n * 4) (f n), ?_, ?_, ?_⟩
    · rw [List.range_succ, List.foldl_append, result, List.foldl_cons, List.foldl_nil, step]
      rfl
    · intro i less
      rcases Nat.lt_succ_iff_lt_or_eq.mp less with old | rfl
      · rw [Function.update_of_ne (by lia)]
        exact written i old
      · rw [Function.update_self]
    · intro a other
      rw [Function.update_of_ne (other n (Nat.lt_succ_self n))]
      exact kept a (fun i less => other i (Nat.lt_succ_of_lt less))

/-- A zone that has been set up, with its first chunk handed out. -/
structure Zone.New (x : Zone) (zi : Nat) : Prop where
  index : x.index = zi
  used : x.used = 0
  frees : x.frees = []
  parked : x.parked = false
  more : 1 < x.nmax

theorem Zone.New.live {zi : Nat} (new : x.New zi) : x.Live j ↔ j = 0 := by
  unfold Zone.Live
  rw [new.used, new.frees, new.parked]
  simp

theorem Zone.New.offers {zi : Nat} (new : x.New zi) : x.Offers zi := by
  have more := new.more
  refine ⟨new.parked, new.index, ?_⟩
  unfold Zone.nfree
  rw [new.used]
  lia

theorem setupZone_spec {zi : Nat} (small : chunkSize zi ≤ 16384) (room : 4 * chunkSize zi ≤ s.zoneSize)
    (least : 32768 ≤ s.zoneSize) (size : s.zoneSize = pages * rtMmPageSize) :
    ∃ x : Zone, x.New zi ∧ x.Ok pages ∧ ZoneRep (setupZone s zi (addrOf z) (chunkSize zi)) z x ∧
      (∀ a, ¬Run.Has (z, pages) (pageNo a) → (setupZone s zi (addrOf z) (chunkSize zi)).word a = s.word a) ∧
      setupZone s zi (addrOf z) (chunkSize zi) = { s with
        word := (setupZone s zi (addrOf z) (chunkSize zi)).word
        zoneArray := Function.update s.zoneArray zi (addrOf z) } ∧
      (setupZone s zi (addrOf z) (chunkSize zi)).zNext (addrOf z) = s.zoneArray zi := by
  have offset := zoneOffset_range (chunkSize_min zi) small
  have min := chunkSize_min zi
  generalize count : (s.zoneSize - zoneOffset (chunkSize zi)) / chunkSize zi = nmax
  have two : 2 ≤ nmax := by
    rw [← count, Nat.le_div_iff_mul_le (by lia)]
    lia
  have fits : nmax * chunkSize zi ≤ s.zoneSize - zoneOffset (chunkSize zi) := by
    rw [← count]
    exact Nat.div_mul_le_self _ _
  have new : Zone.New ⟨zi, nmax, 0, [], false⟩ zi := ⟨rfl, rfl, rfl, rfl, two⟩
  have ok : Zone.Ok ⟨zi, nmax, 0, [], false⟩ pages := by
    refine ⟨by simp only; lia, List.nodup_nil, by simp, by simp, small, ?_⟩
    show zoneOffset (chunkSize zi) + nmax * chunkSize zi ≤ pages * rtMmPageSize
    lia
  obtain ⟨w, cleared, written, kept⟩ := fill_spec (s := s) (g := fun s i => s.put (addrOf z + i * 4) 0)
    (f := fun _ => 0) (addrOf z) (sizeofSlabZone / 4) (fun _ _ => rfl)
  have words : ∀ a, (setupZone s zi (addrOf z) (chunkSize zi)).word a =
      if a = addrOf z + 12 then s.zoneArray zi else if a = addrOf z + 24 then chunkSize zi
      else if a = addrOf z + 20 then 0 else if a = addrOf z + 16 then addrOf z + zoneOffset (chunkSize zi)
      else if a = addrOf z + 4 then nmax - 1 else if a = addrOf z + 8 then nmax
      else if a = addrOf z + 28 then zi else if a = addrOf z then zallocSlabMagic else w a := by
    intro a
    unfold setupZone
    simp only [cleared, put_word, Heap.zNmax, if_true]
    rw [← count]
    rfl
  have fields : setupZone s zi (addrOf z) (chunkSize zi) = { s with
      word := (setupZone s zi (addrOf z) (chunkSize zi)).word
      zoneArray := Function.update s.zoneArray zi (addrOf z) } := by
    unfold setupZone
    rw [cleared]
    rfl
  generalize setupZone s zi (addrOf z) (chunkSize zi) = t at words fields
  refine ⟨_, new, ok, ⟨?_, ?_, ?_, ?_, ?_, ?_, ?_, ?_⟩, ?_, fields, ?_⟩
  · intro _
    simp [Heap.zMagic, words]
  · simp [Heap.zNfree, words, Zone.nfree]
  · simp [Heap.zNmax, words]
  · simp [Heap.zBaseptr, words, chunkAt, Zone.size]
  · simp [Heap.zUindex, words]
  · simp [Heap.zChunksize, words, Zone.size]
  · simp [Heap.zZoneindex, words]
  · have head : w (addrOf z + 32) = 0 := written 8 (by decide)
    simp [Heap.zFreechunk, words, head, Listed]
  · intro a outside
    have header : ∀ n < 36, a ≠ addrOf z + n := by
      rintro n less rfl
      exact outside (ok.header_page less)
    rw [words, if_neg (header 12 (by decide)), if_neg (header 24 (by decide)), if_neg (header 20 (by decide)),
      if_neg (header 16 (by decide)), if_neg (header 4 (by decide)), if_neg (header 8 (by decide)),
      if_neg (header 28 (by decide)), if_neg (by simpa using header 0 (by decide))]
    apply kept
    intro i less
    unfold sizeofSlabZone at less
    exact header (i * 4) (by lia)
  · simp [Heap.zNext, words]

theorem unlinkZone_spec {zi fuel : Nat} {pz : Option Nat} {l : List Nat}
    (list : Listed s.word addrOf 12 (s.zoneSlot zi pz) l) (nodup : l.Nodup) (member : z ∈ l)
    (slot : ∀ y, pz = some y → ∀ m ∈ l, y ≠ addrOf m) (enough : l.length ≤ fuel) :
    ∃ s', unlinkZone zi (addrOf z) fuel s pz = some s' ∧
      Listed s'.word addrOf 12 (s'.zoneSlot zi pz) (l.erase z) ∧
      s' = { s with word := s'.word, zoneArray := s'.zoneArray } ∧
      (∀ a, (∀ y, pz = some y → a ≠ y + 12) → (∀ m ∈ l, a ≠ addrOf m + 12) → s'.word a = s.word a) ∧
      (∀ j, j ≠ zi → s'.zoneArray j = s.zoneArray j) ∧ (pz ≠ none → s'.zoneArray = s.zoneArray) := by
  induction l generalizing s pz fuel with
  | nil => cases member
  | cons m rest ih =>
    have length := enough
    rw [List.length_cons] at length
    obtain ⟨fuel, rfl⟩ := Nat.exists_eq_succ_of_ne_zero (by lia : fuel ≠ 0)
    obtain ⟨here, some_zone, later⟩ := list
    obtain ⟨out, rest_nodup⟩ := List.nodup_cons.mp nodup
    simp only [unlinkZone, here, addrOf_inj]
    split
    · rename_i same
      subst same
      rw [List.erase_cons_head]
      refine ⟨_, rfl, ?_, ?_, ?_, ?_, ?_⟩
      · cases pz with
        | none =>
          simp only [Heap.setZoneSlot, Heap.zoneSlot, Function.update_self]
          exact later
        | some y =>
          have link : (s.setZoneSlot zi (some y) (s.zNext (addrOf m))).zoneSlot zi (some y) = s.zNext (addrOf m) := by
            simp [Heap.setZoneSlot, Heap.zoneSlot, Heap.zNext]
          rw [link]
          apply Listed.congr (w := s.word) later
          intro n there
          have other := slot y rfl n (List.mem_cons_of_mem _ there)
          simp only [Heap.setZoneSlot, put_word]
          rw [if_neg (by lia)]
      · cases pz <;> rfl
      · intro a away _
        cases pz with
        | none => rfl
        | some y =>
          simp only [Heap.setZoneSlot, put_word]
          rw [if_neg (away y rfl)]
      · intro j other
        cases pz with
        | none => exact Function.update_of_ne other _ _
        | some y => rfl
      · intro some
        cases pz with
        | none => exact absurd rfl some
        | some y => rfl
    · rename_i other
      have there : z ∈ rest := (List.mem_cons.mp member).resolve_left (fun same => other same.symm)
      have later_at : Listed s.word addrOf 12 (s.zoneSlot zi (some (addrOf m))) rest := later
      have enough_left : rest.length ≤ fuel := by lia
      obtain ⟨s', result, erased, fields, words, arrays, array⟩ := ih later_at rest_nodup there
        (by
          rintro y same n inside
          cases same
          rw [Ne, addrOf_inj]
          rintro rfl
          exact out inside)
        enough_left
      have kept : s'.zoneSlot zi pz = addrOf m := by
        rw [← here]
        cases pz with
        | none => exact congrFun (array (by simp)) zi
        | some y =>
          have first := slot y rfl m List.mem_cons_self
          apply words
          · rintro n same
            cases same
            lia
          · intro n inside
            have far := slot y rfl n (List.mem_cons_of_mem _ inside)
            lia
      rw [List.erase_cons_tail (by simpa using other)]
      refine ⟨s', result, ⟨kept, ?_, erased⟩, fields, ?_, arrays, fun _ => array (by simp)⟩
      · rw [kept, ← here]
        exact some_zone
      · intro a _ off
        apply words
        · rintro y same
          cases same
          exact off m List.mem_cons_self
        · exact fun n inside => off n (List.mem_cons_of_mem _ inside)

end RtThread.Slab

import RtThread.MemHeap.Calls
import RtThread.Run

/-! Runs of the calls of a memory heap on live pointers, and of its callers writing into
their blocks. -/
namespace RtThread.MemHeap
open Transition Tiling Linked Memheap

/-- The heap and what its callers know: the pointers they hold with the sizes asked for. -/
structure System where
  heap : Memheap
  live : Nat → Option Nat

inductive Action where
  | alloc (size : Nat)
  | free (ptr : Nat)
  | realloc (ptr newsize : Nat)
  | store (ptr i v : Nat)

inductive Event where
  | alloc (size p : Nat)
  | free (ptr : Nat)
  | realloc (ptr newsize p : Nat)
  | store (ptr i v : Nat)

/-- What a caller may pass to rt_memheap_free and rt_memheap_realloc. -/
def System.owns (s : System) (p : Nat) : Bool := p = 0 || (s.live p).isSome

/-- Sizes are below 2^31, and callers write into their own blocks only. -/
def System.allows (s : System) : Action → Bool
  | .alloc size => size < 2 ^ 31
  | .free ptr => s.owns ptr
  | .realloc ptr newsize => s.owns ptr && newsize < 2 ^ 31
  | .store ptr i _ => (s.live ptr).any (fun n => i < n)

def System.call (s : System) : Action → Option (System × List Event)
  | .alloc size =>
    (rtMemheapAlloc s.heap size).map (fun r =>
      (⟨r.1, if r.2 = 0 then s.live else Function.update s.live r.2 (some size)⟩, [.alloc size r.2]))
  | .free ptr =>
    (rtMemheapFree s.heap ptr).map (fun h => (⟨h, Function.update s.live ptr none⟩, [.free ptr]))
  | .realloc ptr newsize =>
    (rtMemheapRealloc s.heap ptr newsize).map (fun r =>
      (⟨r.1, if newsize = 0 then Function.update s.live ptr none
        else if r.2 = 0 then s.live
        else Function.update (Function.update s.live ptr none) r.2 (some newsize)⟩,
        [.realloc ptr newsize r.2]))
  | .store ptr i v => some (⟨s.heap.put (ptr + i) v, s.live⟩, [.store ptr i v])

def step (s : System) (a : Action) : Option (System × List Event) :=
  if s.allows a then s.call a else none

/-- After rt_memheap_init of an aligned region larger than two item headers. -/
def Start (s : System) : Prop :=
  (∃ mem self freeHeader startAddr size, startAddr % rtAlignSize = 0 ∧ 2 * rtMemheapSize < rtAlignDown size ∧
    startAddr + rtAlignDown size < 2 ^ 32 ∧
    (freeHeader + rtMemheapSize ≤ startAddr ∨ startAddr + rtAlignDown size ≤ freeHeader) ∧
    s.heap = rtMemheapInit mem self freeHeader startAddr size) ∧ ∀ p, s.live p = none

def machine : Machine System Action Event where
  start := Start
  step := step

variable {h h' : Memheap} {L R cells : List Cell} {c d : Cell} {x y n m p q size : Nat} {s : System}

/-- Each pointer the callers hold is that of a block in use, long enough. -/
def Owned (g : Region) (cells : List Cell) (live : Nat → Option Nat) : Prop :=
  ∀ p n, live p = some n → ∃ x, p = userPtr g x ∧ Room cells x n

def Inv (s : System) : Prop := ∃ cells, Sound s.heap cells ∧ Owned s.heap.toRegion cells s.live

/-- A pointer is new if it is not in use, or the one that was passed in. -/
def Fresh (s : System) : Event → Prop
  | .alloc _ p => p ≠ 0 → s.live p = none
  | .realloc ptr _ p => p ≠ 0 → p = ptr ∨ s.live p = none
  | _ => True

def Action.ptr : Action → Nat
  | .alloc _ => 0
  | .free p => p
  | .realloc p _ => p
  | .store p _ _ => p

/-- What a step does to the blocks: those it is not about keep their contents, and one that
is reallocated keeps as much as fits, wherever it is now. -/
structure Contents (s s' : System) (a : Action) (e : Event) : Prop where
  others : ∀ p n, s.live p = some n → p ≠ a.ptr → s'.live p = some n ∧ Copied s.heap s'.heap p p n
  moved : ∀ p n m q, s.live p = some n → e = .realloc p m q → q ≠ 0 →
    s'.live q = some m ∧ Copied s.heap s'.heap p q (min n m)
  failed : ∀ p n m, s.live p = some n → e = .realloc p m 0 → m ≠ 0 →
    s'.live p = some n ∧ Copied s.heap s'.heap p p n

variable {live : Nat → Option Nat} {g : Region} {cells' : List Cell}

theorem Contents.ofOthers {s' : System} {a : Action} {e : Event} (plain : ∀ p m q, e ≠ .realloc p m q)
    (others : ∀ p n, s.live p = some n → p ≠ a.ptr → s'.live p = some n ∧ Copied s.heap s'.heap p p n) :
    Contents s s' a e :=
  ⟨others, fun p _ m q _ same => absurd same (plain p m q), fun p _ m _ same => absurd same (plain p m 0)⟩

theorem userPtr_ne : userPtr g x ≠ 0 := by
  unfold userPtr rtMemheapSize
  lia

theorem Owned.nonzero (owned : Owned g cells live) : live 0 = none := by
  cases held : live 0 with
  | none => rfl
  | some n =>
    obtain ⟨x, null, _⟩ := owned 0 n held
    exact absurd null.symm userPtr_ne

/-- The blocks of the callers, as seen by them, are kept. -/
theorem Owned.kept (owned : Owned h.toRegion cells live) {skip : Option Nat} (kept : Kept h h' cells cells' skip)
    (held : live p = some n) (other : ∀ x, skip = some x → p ≠ userPtr h.toRegion x) :
    (∃ x, p = userPtr h.toRegion x ∧ Room cells' x n) ∧ Copied h h' p p n := by
  obtain ⟨x, rfl, c, found, used, wide, large⟩ := owned p n held
  have apart : some x ≠ skip := fun same => other x same.symm rfl
  refine ⟨⟨x, rfl, c, kept.blocks x c found used apart, used, wide, large⟩, ?_⟩
  intro i less
  apply kept.data x c found used apart
  · unfold userPtr
    lia
  · unfold userPtr
    lia

theorem Owned.fresh (owned : Owned h.toRegion cells live) (sound : Sound h cells) (found : At cells x c)
    (free : c.used = false) : live (userPtr h.toRegion x) = none := by
  cases held : live (userPtr h.toRegion x) with
  | none => rfl
  | some n =>
    obtain ⟨y, same, d, found', used, _⟩ := owned _ n held
    have here : x = y := by
      unfold userPtr at same
      lia
    exact absurd here (sound.elsewhere found' used found free)

/-- The outcome of a call that is allowed. -/
def Done (s : System) (a : Action) : Prop :=
  ∃ s' e, s.call a = some (s', [e]) ∧ Inv s' ∧ Fresh s e ∧ Contents s s' a e

theorem Owned.all (owned : Owned h.toRegion cells live) (kept : Kept h h' cells cells' none) :
    Owned h'.toRegion cells' live := by
  intro p n held
  rw [kept.region]
  exact (owned.kept kept held (by simp)).1

theorem Owned.add (owned : Owned g cells live) (room : Room cells x n) :
    Owned g cells (Function.update live (userPtr g x) (some n)) := by
  intro p m held
  by_cases here : p = userPtr g x
  · subst here
    rw [Function.update_self] at held
    cases Option.some.inj held
    exact ⟨x, rfl, room⟩
  · rw [Function.update_of_ne here] at held
    exact owned p m held

theorem Owned.drop (owned : Owned h.toRegion cells live) (kept : Kept h h' cells cells' (some x)) :
    Owned h'.toRegion cells' (Function.update live (userPtr h.toRegion x) none) := by
  intro p m held
  by_cases here : p = userPtr h.toRegion x
  · subst here
    simp [Function.update_self] at held
  · rw [Function.update_of_ne here] at held
    rw [kept.region]
    apply (owned.kept kept held _).1
    rintro y same
    cases Option.some.inj same
    exact here

theorem alloc_outcome (inv : Inv s) (request : m + 3 < 2 ^ 32) (le : size ≤ m) :
    ∃ h p s', rtMemheapAlloc s.heap m = some (h, p) ∧
      s' = ⟨h, if p = 0 then s.live else Function.update s.live p (some size)⟩ ∧ Inv s' ∧
      (p ≠ 0 → s.live p = none) ∧
      ∀ p n, s.live p = some n → s'.live p = some n ∧ Copied s.heap s'.heap p p n := by
  obtain ⟨cells, sound, owned⟩ := inv
  obtain ⟨h, p, cells', result, sound', kept, outcome⟩ := rtMemheapAlloc_spec sound request
  refine ⟨h, p, _, result, rfl, ?_⟩
  rcases outcome with rfl | ⟨x, rfl, ⟨e, place, free⟩, room⟩
  · refine ⟨⟨cells', sound', owned.all kept⟩, fun found => absurd rfl found, ?_⟩
    intro p n held
    exact ⟨held, (owned.kept kept held (by simp)).2⟩
  · have fresh := owned.fresh sound place free
    simp only [if_neg userPtr_ne]
    refine ⟨⟨cells', sound', ?_⟩, fun _ => fresh, ?_⟩
    · have added := (owned.all kept).add (room.mono le)
      rwa [kept.region] at added ⊢
    · intro p n held
      refine ⟨(Function.update_of_ne ?_ _ _).trans held, (owned.kept kept held (by simp)).2⟩
      rintro rfl
      simp [fresh] at held

theorem alloc_done (inv : Inv s) (request : size < 2 ^ 31) : Done s (.alloc size) := by
  obtain ⟨h, p, s', result, rfl, inv', fresh, others⟩ := alloc_outcome inv (m := size) (by lia) (Nat.le_refl _)
  exact ⟨_, .alloc size p, by simp [System.call, result], inv', fresh,
    .ofOthers (by simp) (fun p n held _ => others p n held)⟩

theorem free_done {ptr : Nat} (inv : Inv s) (held : s.owns ptr = true) : Done s (.free ptr) := by
  obtain ⟨cells, sound, owned⟩ := inv
  by_cases null : ptr = 0
  · subst null
    have called : s.call (.free 0) = some (⟨s.heap, Function.update s.live 0 none⟩, [.free 0]) := by
      simp [System.call, rtMemheapFree]
    have same : Function.update s.live 0 none = s.live := by
      rw [← owned.nonzero, Function.update_eq_self]
    refine ⟨_, _, called, ⟨cells, sound, ?_⟩, trivial, .ofOthers (by simp) ?_⟩
    · simp only [same]
      exact owned
    · intro p n held _
      simp only [same]
      exact ⟨held, fun _ _ => rfl⟩
  · obtain ⟨n, size⟩ := Option.isSome_iff_exists.mp (by simpa [System.owns, null] using held)
    obtain ⟨x, rfl, c, found, used, wide, _⟩ := owned ptr n size
    obtain ⟨h, cells', result, sound', kept⟩ := rtMemheapFree_spec sound found used wide
    have called : s.call (.free (userPtr s.heap.toRegion x)) =
        some (⟨h, Function.update s.live (userPtr s.heap.toRegion x) none⟩, [.free (userPtr s.heap.toRegion x)]) := by
      simp [System.call, result]
    refine ⟨_, _, called, ⟨cells', sound', owned.drop kept⟩, trivial, .ofOthers (by simp) ?_⟩
    intro p n held other
    refine ⟨(Function.update_of_ne other _ _).trans held, (owned.kept kept held ?_).2⟩
    rintro y same
    cases Option.some.inj same
    exact other

theorem store_done {ptr i v : Nat} (inv : Inv s) (held : (s.live ptr).any (fun n => i < n) = true) :
    Done s (.store ptr i v) := by
  obtain ⟨cells, sound, owned⟩ := inv
  obtain ⟨n, size, less⟩ := (Option.any_eq_true _ _).mp held
  obtain ⟨x, rfl, c, found, used, wide, large⟩ := owned ptr n size
  have less' := of_decide_eq_true less
  have inside : ∀ a, Function.update s.heap.mem (userPtr s.heap.toRegion x + i) v a ≠ s.heap.mem a →
      s.heap.startAddr + x + rtMemheapSize ≤ a ∧ a < s.heap.startAddr + x + c.size := by
    intro a differs
    have here : a = userPtr s.heap.toRegion x + i := by
      by_contra other
      exact differs (Function.update_of_ne other _ _)
    unfold userPtr at here
    lia
  have kept := write_kept found inside
  refine ⟨_, _, rfl, ⟨cells, sound.write found inside, owned⟩, trivial, .ofOthers (by simp) ?_⟩
  intro p n held other
  refine ⟨held, (owned.kept kept held ?_).2⟩
  rintro y same
  cases Option.some.inj same
  exact other

theorem realloc_done {ptr : Nat} (inv : Inv s) (held : s.owns ptr = true) (request : size + 24 < 2 ^ 32) :
    Done s (.realloc ptr size) := by
  by_cases zero : size = 0
  · subst zero
    obtain ⟨s', e, called, inv', _, contents⟩ := free_done inv held
    obtain ⟨h, result, same⟩ := Option.map_eq_some_iff.mp called
    cases same
    refine ⟨_, .realloc ptr 0 0, by simp [System.call, rtMemheapRealloc, result], inv', fun found => absurd rfl found,
      contents.others, ?_, ?_⟩
    · intro p n m q _ same nonzero
      cases same
      exact absurd rfl nonzero
    · intro p n m _ same nonzero
      cases same
      exact absurd rfl nonzero
  · obtain ⟨cells, sound, owned⟩ := id inv
    by_cases null : ptr = 0
    · subst null
      obtain ⟨enlarged, _, fits, _⟩ := itemRequest_spec (show size + 3 < 2 ^ 32 by lia)
      obtain ⟨h, p, s', result, rfl, inv', fresh, others⟩ := alloc_outcome inv fits enlarged
      have unheld : Function.update s.live 0 none = s.live := by
        rw [← owned.nonzero, Function.update_eq_self]
      have nothing : ∀ p n, s.live p = some n → p ≠ 0 := by
        rintro p n held rfl
        simp [owned.nonzero] at held
      refine ⟨_, .realloc 0 size p, by simp [System.call, rtMemheapRealloc, result, zero, unheld], inv',
        fun nonzero => Or.inr (fresh nonzero), ⟨fun p n held _ => others p n held, ?_, ?_⟩⟩
      · intro p n m q held same
        cases same
        exact absurd rfl (nothing _ _ held)
      · intro p n m held same
        cases same
        exact absurd rfl (nothing _ _ held)
    · obtain ⟨n, old⟩ := Option.isSome_iff_exists.mp (by simpa [System.owns, null] using held)
      obtain ⟨x, rfl, c, found, used, wide, large⟩ := owned ptr n old
      obtain ⟨h, q, cells', result, sound', resized⟩ := rtMemheapRealloc_spec sound found used wide request zero
      have called : s.call (.realloc (userPtr s.heap.toRegion x) size) =
          some (⟨h, if q = 0 then s.live else Function.update (Function.update s.live (userPtr s.heap.toRegion x) none)
            q (some size)⟩, [.realloc (userPtr s.heap.toRegion x) size q]) := by
        simp [System.call, result, zero]
      refine ⟨_, _, called, ?_⟩
      rcases resized with ⟨rfl, kept⟩ | ⟨kept, x', rfl, room, origin, copied⟩
      · refine ⟨⟨cells', sound', owned.all kept⟩, fun found => absurd rfl found, ⟨?_, ?_, ?_⟩⟩
        · intro p n held _
          exact ⟨held, (owned.kept kept held (by simp)).2⟩
        · intro p n m q _ same nonzero
          cases same
          exact absurd rfl nonzero
        · intro p n m held same _
          exact ⟨held, (owned.kept kept held (by simp)).2⟩
      · simp only [if_neg userPtr_ne]
        have new : x' = x ∨ s.live (userPtr s.heap.toRegion x') = none := by
          rcases origin with rfl | ⟨e, place, free⟩
          · exact Or.inl rfl
          · exact Or.inr (owned.fresh sound place free)
        refine ⟨⟨cells', sound', ?_⟩, fun _ => new.imp_left (fun same => by rw [same]), ⟨?_, ?_, ?_⟩⟩
        · have added := (owned.drop kept).add room
          rwa [kept.region] at added ⊢
        · intro p m held' other
          have moved : p ≠ userPtr s.heap.toRegion x' := by
            rintro rfl
            rcases new with rfl | none
            · exact other rfl
            · simp [none] at held'
          refine ⟨?_, (owned.kept kept held' ?_).2⟩
          · simp only [Function.update_of_ne moved, Function.update_of_ne (show p ≠ userPtr _ x from other)]
            exact held'
          · rintro y same
            cases Option.some.inj same
            exact other
        · intro p m m' q held' same _
          cases same
          rw [old] at held'
          cases Option.some.inj held'
          exact ⟨Function.update_self .., fun i less => copied i (by lia)⟩
        · intro p n m _ same
          cases same

/-- Every call the callers may make returns, and keeps the invariant. -/
theorem call_done {a : Action} (inv : Inv s) (allowed : s.allows a = true) : Done s a := by
  cases a with
  | alloc size => exact alloc_done inv (by simpa [System.allows] using allowed)
  | free ptr => exact free_done inv (by simpa [System.allows] using allowed)
  | realloc ptr newsize =>
    simp only [System.allows, Bool.and_eq_true, decide_eq_true_eq] at allowed
    exact realloc_done inv allowed.1 (by lia)
  | store ptr i v => exact store_done inv (by simpa [System.allows] using allowed)

theorem start_inv (start : Start s) : Inv s := by
  obtain ⟨⟨mem, self, f, b, size, aligned, large, bound, outside, init⟩, nothing⟩ := start
  exact ⟨_, init_sound aligned large bound outside init.symm, fun p n held => absurd held (by simp [nothing p])⟩

theorem Done.inv {a : Action} {s' : System} {es : List Event} (done : Done s a) (taken : s.call a = some (s', es)) :
    Inv s' := by
  obtain ⟨t, e, result, inv', _⟩ := done
  rw [result] at taken
  cases Option.some.inj taken
  exact inv'

theorem run_inv {tr : List Event} (run : Run machine tr s) : Inv s := by
  refine run.always (I := Inv) (fun _ => start_inv) ?_
  intro s a s' es inv taken
  change step s a = some (s', es) at taken
  unfold step at taken
  split at taken
  · rename_i allowed
    exact (call_done inv allowed).inv taken
  · cases taken

/-- Length of the data area at `p`. -/
def dataSize (h : Memheap) (p : Nat) : Nat := h.memitemSize (p - rtMemheapSize)

/-- The data areas of the pointers the callers hold. -/
structure DataAreas (s : System) : Prop where
  aligned : ∀ p n, s.live p = some n → p % rtAlignSize = 0
  inside : ∀ p n, s.live p = some n →
    s.heap.startAddr + rtMemheapSize ≤ p ∧ p + dataSize s.heap p ≤ s.heap.limit - rtMemheapSize
  large : ∀ p n, s.live p = some n → n ≤ dataSize s.heap p
  disjoint : ∀ p q m n, p ≠ q → s.live p = some m → s.live q = some n →
    p + dataSize s.heap p ≤ q ∨ q + dataSize s.heap q ≤ p

/-- The heap of a reachable state, its items being the `cells` and `frees` the free ones in
the order of the free list. -/
structure HeapSound (s : System) (cells : List Cell) (frees : List Nat) : Prop where
  items : Laid (Describes s.heap) (s.heap.limit - rtMemheapSize) s.heap.startAddr cells
  tiles : total cells = s.heap.poolSize
  tailer : cells.getLast? = some ⟨rtMemheapSize, true⟩
  inverse : ∀ y c, At cells y c → s.heap.prev (s.heap.next (s.heap.startAddr + y)) = s.heap.startAddr + y ∧
    s.heap.next (s.heap.prev (s.heap.startAddr + y)) = s.heap.startAddr + y
  circle : Circle s.heap.nextFree s.heap.prevFree s.heap.freeList frees
  once : (s.heap.freeList :: frees).Nodup
  free : ∀ x, x ∈ frees ↔ ∃ y c, At cells y c ∧ x = s.heap.startAddr + y ∧ s.heap.isUsed x = false
  apart : NoTwoFree cells
  counted : s.heap.availableSize = (frees.map s.heap.memitemSize).sum
  areas : DataAreas s
  returns : ∀ a, s.allows a = true → ∃ s' e, step s a = some (s', [e]) ∧ Fresh s e
  contents : ∀ a s' e, step s a = some (s', [e]) → Contents s s' a e

/-- The links of the items are inverse to each other, all around the pool. -/
theorem Sound.inverse (sound : Sound h cells) (found : At cells y c) :
    h.prev (h.next (h.startAddr + y)) = h.startAddr + y ∧ h.next (h.prev (h.startAddr + y)) = h.startAddr + y := by
  obtain ⟨frees, rep, _⟩ := sound.lists
  obtain ⟨body, whole⟩ := List.getLast?_eq_some_iff.mp sound.last
  have rep' : Rep (ItemSpots h.toRegion cells) h h (body ++ [⟨rtMemheapSize, true⟩] ++ []) frees := by
    simpa [← whole] using rep
  have size := rep'.whole
  rw [List.append_nil, total_append] at size
  simp only [total, Nat.add_zero] at size
  have tailer : h.limit - rtMemheapSize = h.startAddr + total body := by
    unfold Region.limit
    lia
  obtain ⟨L, R, rfl, rfl⟩ := found.split
  have header := (show Rep _ h h (L ++ [c] ++ R) frees by simpa using rep).header rfl
  constructor
  · cases R with
    | nil =>
      have last : body = L ∧ c = ⟨rtMemheapSize, true⟩ := by
        have same := List.append_inj' whole (by simp)
        exact ⟨same.1.symm, by simpa using same.2⟩
      obtain ⟨rfl, rfl⟩ := last
      have ends : h.startAddr + total body + rtMemheapSize = h.limit := by
        unfold Region.limit
        lia
      rw [header.next, Region.behind, if_pos ends, ← tailer]
      cases body with
      | nil => exact rep.laid.1.prev
      | cons b body => exact rep.laid.1.prev
    | cons d R =>
      have next := rep.next_eq
      have behind := (show Rep _ h h ((L ++ [c]) ++ [d] ++ R) frees by simpa using rep).header rfl |>.prev
      rw [lastStart_snoc, total_append, ← Nat.add_assoc] at behind
      rw [next]
      exact behind
  · rw [header.prev]
    rcases List.eq_nil_or_concat L with rfl | ⟨L', l, rfl⟩
    · rw [lastStart, tailer, (rep'.header rfl).next, Region.behind, if_pos]
      · rfl
      · unfold Region.limit
        simp only
        lia
    · simp only [List.concat_eq_append] at *
      have next := (show Rep _ h h (L' ++ l :: c :: R) frees by simpa using rep).next_eq
      rw [lastStart_snoc, next, total_append]
      simp [total, Nat.add_assoc]

theorem Sound.room_eq (sound : Sound h cells) (found : At cells y c) (other : c.used = false ∨ rtMemheapSize < c.size) :
    h.memitemSize (h.startAddr + y) = c.size - rtMemheapSize := by
  obtain ⟨L, R, rfl, rfl⟩ := found.split
  have sound' : Sound h (L ++ [c] ++ R) := by simpa using sound
  obtain ⟨d, R, rfl⟩ := sound'.cons other
  obtain ⟨frees, rep, _⟩ := sound'.lists
  exact rep.memitemSize rfl sound.placed

theorem Sound.counted_frees {frees : List Nat} (sound : Sound h cells)
    (perm : frees.Perm (freeStarts h.startAddr cells)) :
    h.availableSize = (frees.map h.memitemSize).sum := by
  rw [sound.counted, (perm.map h.memitemSize).sum_nat]
  exact (freeRoom_eq_sum (fun y c found free => sound.room_eq found (Or.inl free))).symm

theorem Owned.areas (sound : Sound s.heap cells) (owned : Owned s.heap.toRegion cells s.live) : DataAreas s := by
  have size : ∀ p n, s.live p = some n → ∃ x c, p = userPtr s.heap.toRegion x ∧ At cells x c ∧
      n + rtMemheapSize ≤ c.size ∧ dataSize s.heap p = c.size - rtMemheapSize ∧ rtMemheapSize < c.size := by
    intro p n held
    obtain ⟨x, rfl, c, found, _, wide, large⟩ := owned p n held
    refine ⟨x, c, rfl, found, large, ?_, wide⟩
    rw [← sound.room_eq found (Or.inr wide)]
    simp [dataSize, userPtr]
  obtain ⟨frees, rep, _⟩ := sound.lists
  refine ⟨?_, ?_, ?_, ?_⟩
  · intro p n held
    obtain ⟨x, c, rfl, found, _⟩ := size p n held
    obtain ⟨L, R, rfl, rfl⟩ := found.split
    have begins : total L % 4 = 0 := by
      apply total_mod
      intro d here
      exact rep.laid.forall_mem (fun _ _ _ holds => holds.aligned) d (by simp [here])
    have aligned := sound.placed.aligned
    unfold userPtr rtMemheapSize rtAlignSize
    lia
  · intro p n held
    obtain ⟨x, c, rfl, found, _, area, wide⟩ := size p n held
    have whole := rep.whole
    obtain ⟨body, rfl⟩ := List.getLast?_eq_some_iff.mp sound.last
    have inside : x + c.size ≤ total body := by
      rcases at_append.mp found with first | ⟨y, _, ⟨_, rfl⟩ | ⟨_, _, none⟩⟩
      · exact first.le
      · exact absurd wide (Nat.lt_irrefl _)
      · exact absurd none (by simp [At])
    rw [total_append] at whole
    simp only [total, Nat.add_zero] at whole
    rw [area]
    unfold userPtr Region.limit
    lia
  · intro p n held
    obtain ⟨x, c, rfl, found, large, area, _⟩ := size p n held
    lia
  · intro p q m n other first second
    obtain ⟨x, c, rfl, found, _, area, wide⟩ := size p m first
    obtain ⟨y, d, rfl, found', _, area', wide'⟩ := size q n second
    rw [area, area']
    unfold userPtr at *
    rcases found.apart found' with ⟨rfl, _⟩ | before | after
    · exact absurd rfl other
    · left
      lia
    · right
      lia

/-- In every sequence of calls the heap stays well-formed, and no block loses its contents. -/
theorem memheap_sound {tr : List Event} (run : Run machine tr s) : ∃ cells frees, HeapSound s cells frees := by
  have inv := run_inv run
  obtain ⟨cells, sound, owned⟩ := id inv
  obtain ⟨frees, rep, perm⟩ := sound.lists
  refine ⟨cells, frees, rep.laid, rep.whole, sound.last, fun y c found => sound.inverse found, rep.circle, rep.nodup,
    ?_, sound.apart, ?_, owned.areas sound, ?_, ?_⟩
  · intro x
    rw [perm.mem_iff, mem_freeStarts]
    have flag : ∀ y c, At cells y c → s.heap.isUsed (s.heap.startAddr + y) = c.used := by
      intro y c found
      obtain ⟨_, holds⟩ := rep.laid.found found
      exact isUsed_eq holds.magic
    constructor
    · rintro ⟨y, c, found, free, rfl⟩
      exact ⟨y, c, found, rfl, (flag y c found).trans free⟩
    · rintro ⟨y, c, found, rfl, free⟩
      exact ⟨y, c, found, (flag y c found).symm.trans free, rfl⟩
  · exact sound.counted_frees perm
  · intro a allowed
    obtain ⟨s', e, called, _, fresh, _⟩ := call_done inv allowed
    exact ⟨s', e, by rw [step, if_pos allowed, called], fresh⟩
  · intro a s' e taken
    unfold step at taken
    split at taken
    · rename_i allowed
      obtain ⟨t, e', called, _, _, contents⟩ := call_done inv allowed
      rw [called] at taken
      cases Option.some.inj taken
      exact contents
    · cases taken

/-- Block 124 grows in place over the header of the free item that was behind it, then moves
to 308 where it keeps the word written first, while 252 stays. -/
theorem memheap_sound_moved : ∃ s cells frees, HeapSound s cells frees ∧ s.live 308 = some 70 ∧
    s.live 252 = some 30 ∧ s.heap.mem 308 = 77 ∧ s.heap.availableSize = 176 := by
  have start : machine.start ⟨rtMemheapInit (fun _ => 0) 50 20 100 400, fun _ => none⟩ :=
    ⟨⟨_, _, _, _, _, by decide, by decide, by decide, by decide, rfl⟩, fun _ => rfl⟩
  obtain ⟨tr, s, run, found⟩ := Run.reaches start
    [.alloc 60, .alloc 20, .alloc 30, .free 208, .store 124 0 77, .realloc 124 62, .realloc 124 70]
    (fun s => decide (s.live 308 = some 70 ∧ s.live 252 = some 30 ∧ s.heap.mem 308 = 77 ∧
      s.heap.availableSize = 176)) (by decide +kernel)
  obtain ⟨cells, frees, sound⟩ := memheap_sound run
  exact ⟨s, cells, frees, sound, of_decide_eq_true found⟩

end RtThread.MemHeap

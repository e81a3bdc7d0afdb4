import RtThread.MemHeap.Runs
import Mathlib.Algebra.Order.BigOperators.Group.List
import Mathlib.Algebra.Order.Ring.Nat

/-! A memory heap whose callers ask rt_memheap_alloc for any size that a rt_size_t holds. A size
that RT_ALIGN wraps to 0 gets the smallest block. -/
namespace RtThread.MemHeap.AnySize
open Transition Tiling Linked Memheap

/-- What a caller can count on: a size that is wrapped gives nothing. -/
def granted (size : Nat) : Nat := if rtAlign size = 0 then 0 else size

/-- Sizes of any width, but for rt_memheap_realloc, which adds to them. A caller writes into what
it can count on. -/
def allows (s : System) : Action → Bool
  | .alloc size => size < 2 ^ 32
  | .realloc ptr newsize => s.owns ptr && newsize + rtMemheapSize < 2 ^ 32
  | a => s.allows a

def call (s : System) : Action → Option (System × List Event)
  | .alloc size =>
    (rtMemheapAlloc s.heap size).map (fun r =>
      (⟨r.1, if r.2 = 0 then s.live else Function.update s.live r.2 (some (granted size))⟩, [.alloc size r.2]))
  | a => s.call a

def step (s : System) (a : Action) : Option (System × List Event) := if allows s a then call s a else none

def machine : Machine System Action Event where
  start := Start
  step := step

/-- An item of the free list. -/
inductive Listed (h : Memheap) : Nat → Prop where
  | first : h.nextFree h.freeList ≠ h.freeList → Listed h (h.nextFree h.freeList)
  | next {x : Nat} : Listed h x → h.nextFree x ≠ h.freeList → Listed h (h.nextFree x)

/-- rt_memheap_alloc has an item for this size. -/
def Serves (h : Memheap) (size : Nat) : Prop :=
  itemRequest size < h.availableSize ∧ ∃ x, Listed h x ∧ itemRequest size ≤ h.memitemSize x

variable {h h' : Memheap} {cells : List Cell} {frees A : List Nat} {a x p size : Nat} {s : System}

theorem path_listed (path : Path h.nextFree h.prevFree a frees h.freeList) (fresh : h.freeList ∉ frees)
    (here : a = h.freeList ∨ Listed h a) : ∀ x ∈ frees, Listed h x := by
  induction frees generalizing a with
  | nil => exact fun x inside => absurd inside List.not_mem_nil
  | cons b rest ih =>
    obtain ⟨⟨next, _⟩, later⟩ := path
    obtain ⟨other, fresh'⟩ := not_or.mp (mt List.mem_cons.mpr fresh)
    have listed : Listed h b := by
      rw [← next] at other ⊢
      rcases here with rfl | before
      · exact .first (Ne.symm other)
      · exact .next before (Ne.symm other)
    exact List.forall_mem_cons.mpr ⟨listed, ih later fresh' (Or.inr listed)⟩

theorem path_next (path : Path h.nextFree h.prevFree a frees h.freeList) (here : x ∈ a :: frees)
    (inner : h.nextFree x ≠ h.freeList) : h.nextFree x ∈ frees := by
  induction frees generalizing a with
  | nil =>
    cases List.mem_singleton.mp here
    exact absurd path.1 inner
  | cons b rest ih =>
    obtain ⟨⟨next, _⟩, later⟩ := path
    rcases List.mem_cons.mp here with rfl | behind
    · rw [next]
      exact List.mem_cons_self
    · exact List.mem_cons_of_mem b (ih later behind)

theorem listed_iff (circle : Circle h.nextFree h.prevFree h.freeList frees) (fresh : h.freeList ∉ frees) :
    Listed h x ↔ x ∈ frees := by
  constructor
  · intro listed
    induction listed with
    | first inner => exact path_next circle List.mem_cons_self inner
    | next _ inner ih => exact path_next circle (List.mem_cons_of_mem _ ih) inner
  · exact path_listed circle fresh (Or.inl rfl) x

theorem alloc_serves (sound : Sound h cells) (result : rtMemheapAlloc h size = some (h', p)) :
    p ≠ 0 ↔ Serves h size := by
  obtain ⟨frees, rep, perm⟩ := sound.lists
  obtain ⟨fresh, _⟩ := List.nodup_cons.mp rep.nodup
  have positive : 0 < itemRequest size := by
    unfold itemRequest rtMemheapMinialloc
    simp only
    split <;> omega
  unfold rtMemheapAlloc at result
  simp only at result
  by_cases below : itemRequest size < h.availableSize
  · obtain ⟨r, found, outcome⟩ := searchFree_spec rep.circle fresh positive
      (Nat.le_succ_of_le (rep.frees_length perm))
    rw [if_pos below, found, Option.map_some] at result
    rcases outcome with ⟨short, all⟩ | ⟨listed, measured, large⟩
    · rw [if_neg (by omega)] at result
      cases Option.some.inj result
      refine ⟨fun found => absurd rfl found, ?_⟩
      rintro ⟨_, y, listed, large⟩
      have small := all y ((listed_iff rep.circle fresh).mp listed)
      omega
    · rw [if_pos large] at result
      cases Option.some.inj result
      refine ⟨fun _ => ⟨below, r.1, (listed_iff rep.circle fresh).mpr listed, by omega⟩, fun _ => ?_⟩
      unfold rtMemheapSize
      omega
  · rw [if_neg below] at result
    cases Option.some.inj result
    exact ⟨fun found => absurd rfl found, fun serves => absurd serves.1 below⟩

theorem itemRequest_wrapped (wraps : rtAlign size = 0) : itemRequest size = itemRequest 1 := by
  unfold itemRequest
  rw [wraps]
  rfl

theorem rtAlign_wraps (small : size < 2 ^ 32) : rtAlign size = 0 ↔ size = 0 ∨ 2 ^ 32 ≤ size + 3 := by
  unfold rtAlign rtAlignSize
  omega

theorem alloc_inv (inv : Inv s) (small : size < 2 ^ 32) :
    ∃ h p, rtMemheapAlloc s.heap size = some (h, p) ∧
      Inv ⟨h, if p = 0 then s.live else Function.update s.live p (some (granted size))⟩ := by
  by_cases wraps : rtAlign size = 0
  · obtain ⟨h, p, s', result, rfl, inv', _⟩ :=
      alloc_outcome inv (show 1 + 3 < 2 ^ 32 by decide) (show 0 ≤ 1 by decide)
    refine ⟨h, p, ?_, by rwa [granted, if_pos wraps]⟩
    unfold rtMemheapAlloc at result ⊢
    rwa [itemRequest_wrapped wraps]
  · have noWrap : size + 3 < 2 ^ 32 := by
      have wrap := mt (rtAlign_wraps small).mpr wraps
      omega
    obtain ⟨h, p, s', result, rfl, inv', _⟩ := alloc_outcome inv noWrap (Nat.le_refl size)
    exact ⟨h, p, result, by rwa [granted, if_neg wraps]⟩

theorem call_inv {a : Action} {s' : System} {es : List Event} (inv : Inv s) (allowed : allows s a = true)
    (taken : call s a = some (s', es)) : Inv s' := by
  cases a with
  | alloc size =>
    obtain ⟨h, p, result, inv'⟩ := alloc_inv inv (of_decide_eq_true allowed)
    simp only [call, result] at taken
    cases Option.some.inj taken
    exact inv'
  | free ptr => exact (free_done inv allowed).inv taken
  | realloc ptr newsize =>
    simp only [allows, Bool.and_eq_true, decide_eq_true_eq] at allowed
    exact (realloc_done inv allowed.1 allowed.2).inv taken
  | store ptr i v => exact (store_done inv allowed).inv taken

theorem run_inv {tr : List Event} (run : Run machine tr s) : Inv s := by
  refine run.always (I := Inv) (fun _ => start_inv) ?_
  intro s a s' es inv taken
  change step s a = some (s', es) at taken
  unfold step at taken
  split at taken
  · rename_i allowed
    exact call_inv inv allowed taken
  · cases taken

theorem alloc_room (inv : Inv s) (small : size < 2 ^ 32) (result : rtMemheapAlloc s.heap size = some (h, p))
    (nonzero : p ≠ 0) : granted size ≤ dataSize h p ∧ dataSize h p + rtMemheapSize < 2 ^ 32 := by
  obtain ⟨h', p', result', cells, sound, owned⟩ := alloc_inv inv small
  cases Option.some.inj (result.symm.trans result')
  have areas := owned.areas sound
  have bound : h.limit < 2 ^ 32 := sound.placed.bound
  have live : (if p = 0 then s.live else Function.update s.live p (some (granted size))) p =
      some (granted size) := by
    rw [if_neg nonzero, Function.update_self]
  have inside := areas.inside p _ live
  simp only at inside
  exact ⟨areas.large p _ live, by omega⟩

theorem alloc_large (inv : Inv s) (small : size < 2 ^ 32) :
    (∀ h p, rtMemheapAlloc s.heap size = some (h, p) → p ≠ 0 → size ≤ dataSize h p) ↔
      size + 3 < 2 ^ 32 ∨ ¬ Serves s.heap size := by
  obtain ⟨cells, sound, _⟩ := id inv
  obtain ⟨h, p, result, _⟩ := alloc_inv inv small
  have serves := alloc_serves sound result
  constructor
  · intro large
    by_cases noWrap : size + 3 < 2 ^ 32
    · exact Or.inl noWrap
    · right
      intro found
      have nonzero := serves.mpr found
      have bytes := large h p result nonzero
      have most := (alloc_room inv small result nonzero).2
      unfold rtMemheapSize at most
      omega
  · rintro served h₁ p₁ result₁ nonzero
    cases Option.some.inj (result.symm.trans result₁)
    have noWrap := served.resolve_right (fun none => none (serves.mp nonzero))
    have least := (alloc_room inv small result nonzero).1
    unfold granted at least
    split at least
    · rename_i wraps
      have zero := (rtAlign_wraps small).mp wraps
      omega
    · exact least

/-- A free item that is large enough for the size. -/
def Fits (h : Memheap) (size : Nat) : Prop := ∃ x, Listed h x ∧ itemRequest size ≤ h.memitemSize x

def Complete (h : Memheap) (size : Nat) : Prop :=
  Fits h size → ∃ h' p, rtMemheapAlloc h size = some (h', p) ∧ p ≠ 0

/-- available_size counts all free items. -/
theorem fits_available (sound : Sound h cells) (fits : Fits h size) : itemRequest size ≤ h.availableSize := by
  obtain ⟨frees, rep, perm⟩ := sound.lists
  obtain ⟨fresh, _⟩ := List.nodup_cons.mp rep.nodup
  obtain ⟨x, listed, large⟩ := fits
  have free : h.memitemSize x ∈ frees.map h.memitemSize :=
    List.mem_map_of_mem ((listed_iff rep.circle fresh).mp listed)
  calc itemRequest size ≤ h.memitemSize x := large
    _ ≤ (frees.map h.memitemSize).sum := List.le_sum_of_mem free
    _ = h.availableSize := (sound.counted_frees perm).symm

/-- The size has to be less than available_size, and a free item that is all there is can be as large. -/
theorem alloc_complete {tr : List Event} (run : Run machine tr s) (small : size < 2 ^ 31) :
    Complete s.heap size ↔ (Fits s.heap size → itemRequest size ≠ s.heap.availableSize) := by
  have inv := run_inv run
  obtain ⟨cells, sound, _⟩ := id inv
  obtain ⟨h, p, result, _⟩ := alloc_inv inv (show size < 2 ^ 32 by omega)
  have serves := alloc_serves sound result
  constructor
  · intro complete fits exact
    obtain ⟨h', p', result', nonzero⟩ := complete fits
    cases Option.some.inj (result.symm.trans result')
    exact absurd (serves.mp nonzero).1 (by omega)
  · intro other fits
    have le := fits_available sound fits
    have less := Nat.lt_of_le_of_ne le (other fits)
    exact ⟨h, p, result, serves.mpr ⟨less, fits⟩⟩

/-- A pool of 400 bytes at 100: its free item has 352. -/
def pool : System := ⟨rtMemheapInit (fun _ => 0) 50 20 100 400, fun _ => none⟩

theorem pool_run : Run machine [] pool :=
  .start ⟨⟨_, _, _, _, _, by decide, by decide, by decide, by decide, rfl⟩, fun _ => rfl⟩

theorem pool_fits : Fits pool.heap 352 := ⟨100, .first (by decide), by decide⟩

theorem alloc_complete_part : Complete pool.heap 348 :=
  (alloc_complete pool_run (by decide)).mpr (fun _ => by decide)

theorem alloc_incomplete : ¬ Complete pool.heap 352 := by
  intro complete
  obtain ⟨h, p, result, nonzero⟩ := complete pool_fits
  have null : (rtMemheapAlloc pool.heap 352).map Prod.snd = some 0 := by decide
  rw [result] at null
  exact nonzero (Option.some.inj null)

end RtThread.MemHeap.AnySize

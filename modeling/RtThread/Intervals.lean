import Mathlib.Algebra.Order.Ring.Int
import Mathlib.Data.List.Basic
import Mathlib.Data.List.Chain

/-! Sets of natural numbers as ascending lists of runs, with a number between any two runs that is
in neither. A run is its first number and its length. -/
namespace Intervals

abbrev Run := Nat × Nat

def Run.Has (r : Run) (p : Nat) : Prop := r.1 ≤ p ∧ p < r.1 + r.2

instance (r : Run) (p : Nat) : Decidable (r.Has p) := inferInstanceAs (Decidable (_ ∧ _))

def Covers (runs : List Run) (p : Nat) : Prop := ∃ r ∈ runs, r.Has p

structure Gapped (runs : List Run) : Prop where
  some : ∀ r ∈ runs, 0 < r.2
  apart : runs.Pairwise (fun r q => r.1 + r.2 < q.1)

/-- The first `k` numbers of the first run that has as many. -/
def take (k : Nat) : List Run → Option (Nat × List Run)
  | [] => none
  | r :: rest =>
    if k < r.2 then some (r.1, (r.1 + k, r.2 - k) :: rest)
    else if r.2 = k then some (r.1, rest)
    else (take k rest).map (fun x => (x.1, r :: x.2))

/-- A run that grows up to the next one takes that in. -/
def close (r : Run) : List Run → List Run
  | [] => [r]
  | q :: rest => if r.1 + r.2 = q.1 then (r.1, r.2 + q.2) :: rest else r :: q :: rest

/-- A run is put in its place, and joined to those that it touches. -/
def put (n k : Nat) : List Run → List Run
  | [] => [(n, k)]
  | r :: rest =>
    if r.1 + r.2 = n then close (r.1, r.2 + k) rest
    else if r.1 = n + k then (n, r.2 + k) :: rest
    else if n + k < r.1 then (n, k) :: r :: rest
    else r :: put n k rest

variable {runs rest : List Run} {r q : Run} {a k n p : Nat}

theorem covers_nil : ¬Covers [] p := by
  rintro ⟨r, member, _⟩
  cases member

theorem covers_cons : Covers (r :: rest) p ↔ r.Has p ∨ Covers rest p := by
  constructor
  · rintro ⟨q, member, has⟩
    rcases List.mem_cons.mp member with rfl | old
    · exact Or.inl has
    · exact Or.inr ⟨q, old, has⟩
  · rintro (has | ⟨q, member, has⟩)
    · exact ⟨r, List.mem_cons_self, has⟩
    · exact ⟨q, List.mem_cons_of_mem _ member, has⟩

theorem gapped_cons : Gapped (r :: rest) ↔ 0 < r.2 ∧ (∀ q ∈ rest, r.1 + r.2 < q.1) ∧ Gapped rest := by
  constructor
  · intro gapped
    obtain ⟨below, apart⟩ := List.pairwise_cons.mp gapped.apart
    exact ⟨gapped.some r List.mem_cons_self, below,
      fun q member => gapped.some q (List.mem_cons_of_mem _ member), apart⟩
  · rintro ⟨some, below, gapped⟩
    refine ⟨?_, List.pairwise_cons.mpr ⟨below, gapped.apart⟩⟩
    intro q member
    rcases List.mem_cons.mp member with rfl | old
    · exact some
    · exact gapped.some q old

theorem Gapped.after (gapped : Gapped (r :: rest)) (covers : Covers rest p) : r.1 + r.2 < p := by
  obtain ⟨q, member, has⟩ := covers
  have below := (gapped_cons.mp gapped).2.1 q member
  have start := has.1
  lia

theorem Gapped.length_le {l u : Nat} (gapped : Gapped runs) (inside : ∀ p, Covers runs p → l ≤ p ∧ p < u) :
    runs.length ≤ u - l := by
  induction runs generalizing l with
  | nil => exact Nat.zero_le _
  | cons r rest ih =>
    obtain ⟨some_there, below, later⟩ := gapped_cons.mp gapped
    have start := inside r.1 (covers_cons.mpr (Or.inl ⟨Nat.le_refl _, Nat.lt_add_of_pos_right some_there⟩))
    have shorter := ih (l := l + 1) later (by
      intro p covers
      have ahead := gapped.after covers
      have here := inside p (covers_cons.mpr (Or.inr covers))
      lia)
    rw [List.length_cons]
    lia

theorem take_start {x : Nat × List Run} (taken : take k runs = some x) (member : q ∈ x.2) :
    ∃ r ∈ runs, r.1 ≤ q.1 := by
  induction runs generalizing x with
  | nil => cases taken
  | cons r rest ih =>
    simp only [take] at taken
    split at taken
    · cases taken
      rcases List.mem_cons.mp member with rfl | old
      · exact ⟨r, List.mem_cons_self, Nat.le_add_right _ _⟩
      · exact ⟨q, List.mem_cons_of_mem _ old, Nat.le_refl _⟩
    · split at taken
      · cases taken
        exact ⟨q, List.mem_cons_of_mem _ member, Nat.le_refl _⟩
      · obtain ⟨y, later, rfl⟩ := Option.map_eq_some_iff.mp taken
        rcases List.mem_cons.mp member with rfl | old
        · exact ⟨q, List.mem_cons_self, Nat.le_refl _⟩
        · obtain ⟨s, here, le⟩ := ih later old
          exact ⟨s, List.mem_cons_of_mem _ here, le⟩

theorem take_spec (gapped : Gapped runs) (some_wanted : 0 < k) (taken : take k runs = some (a, rest)) :
    Gapped rest ∧ (∀ p, Run.Has (a, k) p → Covers runs p) ∧
      ∀ p, Covers rest p ↔ Covers runs p ∧ ¬Run.Has (a, k) p := by
  induction runs generalizing rest with
  | nil => cases taken
  | cons r tail ih =>
    have first := gapped
    obtain ⟨some_there, below, later⟩ := gapped_cons.mp gapped
    simp only [take] at taken
    split at taken
    · rename_i less
      cases taken
      refine ⟨gapped_cons.mpr ⟨by simp only; lia, ?_, later⟩, ?_, ?_⟩
      · intro q member
        have gap := below q member
        simp only
        lia
      · intro p has
        refine covers_cons.mpr (Or.inl ?_)
        unfold Run.Has at has ⊢
        simp only at has
        lia
      · intro p
        rw [covers_cons, covers_cons]
        unfold Run.Has
        simp only
        constructor
        · rintro (has | has)
          · lia
          · have beyond := first.after has
            exact ⟨Or.inr has, by lia⟩
        · rintro ⟨has | has, out⟩
          · left
            lia
          · exact Or.inr has
    · split at taken
      · rename_i all
        cases taken
        refine ⟨later, ?_, ?_⟩
        · intro p has
          refine covers_cons.mpr (Or.inl ?_)
          unfold Run.Has at has ⊢
          simp only at has
          lia
        · intro p
          rw [covers_cons]
          unfold Run.Has
          simp only
          constructor
          · intro has
            have beyond := first.after has
            exact ⟨Or.inr has, by lia⟩
          · rintro ⟨has | has, out⟩
            · lia
            · exact has
      · obtain ⟨y, found, same⟩ := Option.map_eq_some_iff.mp taken
        cases same
        obtain ⟨rest_gapped, inside, left⟩ := ih later found
        have beyond : ∀ p, Run.Has (y.1, k) p → r.1 + r.2 < p := fun p has => first.after (inside p has)
        refine ⟨gapped_cons.mpr ⟨some_there, ?_, rest_gapped⟩, ?_, ?_⟩
        · intro q member
          obtain ⟨s, here, le⟩ := take_start found member
          have gap := below s here
          lia
        · exact fun p has => covers_cons.mpr (Or.inr (inside p has))
        · intro p
          rw [covers_cons, covers_cons, left]
          constructor
          · rintro (has | ⟨has, out⟩)
            · refine ⟨Or.inl has, fun taken => ?_⟩
              have behind := beyond p taken
              unfold Run.Has at has
              lia
            · exact ⟨Or.inr has, out⟩
          · rintro ⟨has | has, out⟩
            · exact Or.inl has
            · exact Or.inr ⟨has, out⟩

theorem close_spec (some_there : 0 < r.2) (below : ∀ q ∈ rest, r.1 + r.2 ≤ q.1) (gapped : Gapped rest) :
    Gapped (close r rest) ∧ ∀ p, Covers (close r rest) p ↔ r.Has p ∨ Covers rest p := by
  cases rest with
  | nil =>
    exact ⟨gapped_cons.mpr ⟨some_there, by simp, gapped⟩, fun p => covers_cons⟩
  | cons q tail =>
    obtain ⟨some_next, gap, later⟩ := gapped_cons.mp gapped
    simp only [close]
    split
    · rename_i touch
      refine ⟨gapped_cons.mpr ⟨by simp only; lia, ?_, later⟩, ?_⟩
      · intro s member
        have further := gap s member
        simp only
        lia
      · intro p
        rw [covers_cons, covers_cons]
        have joined : Run.Has (r.1, r.2 + q.2) p ↔ r.Has p ∨ q.Has p := by
          unfold Run.Has
          simp only
          lia
        rw [joined, or_assoc]
    · rename_i apart
      have ahead := below q List.mem_cons_self
      refine ⟨gapped_cons.mpr ⟨some_there, ?_, gapped⟩, fun p => covers_cons⟩
      intro s member
      rcases List.mem_cons.mp member with rfl | old
      · lia
      · have further := gap s old
        lia

theorem put_start (member : q ∈ put n k runs) : q.1 = n ∨ ∃ r ∈ runs, r.1 = q.1 := by
  induction runs with
  | nil =>
    rw [put, List.mem_singleton] at member
    exact Or.inl (by rw [member])
  | cons r rest ih =>
    simp only [put] at member
    split at member
    · right
      cases rest with
      | nil =>
        rw [close, List.mem_singleton] at member
        exact ⟨r, List.mem_cons_self, by rw [member]⟩
      | cons s tail =>
        simp only [close] at member
        split at member
        · rcases List.mem_cons.mp member with rfl | old
          · exact ⟨r, List.mem_cons_self, rfl⟩
          · exact ⟨q, by simp [old], rfl⟩
        · rcases List.mem_cons.mp member with rfl | old
          · exact ⟨r, List.mem_cons_self, rfl⟩
          · exact ⟨q, List.mem_cons_of_mem _ old, rfl⟩
    · split at member
      · rcases List.mem_cons.mp member with rfl | old
        · exact Or.inl rfl
        · exact Or.inr ⟨q, List.mem_cons_of_mem _ old, rfl⟩
      · split at member
        · rcases List.mem_cons.mp member with rfl | old
          · exact Or.inl rfl
          · exact Or.inr ⟨q, old, rfl⟩
        · rcases List.mem_cons.mp member with rfl | old
          · exact Or.inr ⟨q, List.mem_cons_self, rfl⟩
          · rcases ih old with start | ⟨s, here, same⟩
            · exact Or.inl start
            · exact Or.inr ⟨s, List.mem_cons_of_mem _ here, same⟩

theorem apart_of_outside (some_there : 0 < r.2) (some_new : 0 < k) (outside : ∀ p, Run.Has (n, k) p → ¬r.Has p) :
    r.1 + r.2 ≤ n ∨ n + k ≤ r.1 := by
  by_contra overlap
  refine outside (max n r.1) ?_ ?_
  · unfold Run.Has
    simp only
    lia
  · unfold Run.Has
    lia

theorem put_spec (gapped : Gapped runs) (some_new : 0 < k) (outside : ∀ p, Run.Has (n, k) p → ¬Covers runs p) :
    Gapped (put n k runs) ∧ ∀ p, Covers (put n k runs) p ↔ Covers runs p ∨ Run.Has (n, k) p := by
  induction runs with
  | nil =>
    refine ⟨gapped_cons.mpr ⟨some_new, by simp, gapped⟩, fun p => ?_⟩
    rw [put, covers_cons]
    exact or_comm
  | cons r rest ih =>
    obtain ⟨some_there, below, later⟩ := gapped_cons.mp gapped
    have apart := apart_of_outside some_there some_new (fun p has here => outside p has (covers_cons.mpr (Or.inl here)))
    simp only [put]
    split
    · rename_i touch
      have free : ∀ q ∈ rest, r.1 + (r.2 + k) ≤ q.1 := by
        intro q member
        have gap := below q member
        by_contra overlap
        have some_here := later.some q member
        have here : Run.Has (n, k) q.1 := by
          unfold Run.Has
          simp only
          lia
        refine outside _ here (covers_cons.mpr (Or.inr ⟨q, member, ?_⟩))
        unfold Run.Has
        lia
      obtain ⟨closed, covers⟩ := close_spec (r := (r.1, r.2 + k)) (by simp only; lia) free later
      refine ⟨closed, fun p => ?_⟩
      rw [covers, covers_cons]
      have joined : Run.Has (r.1, r.2 + k) p ↔ r.Has p ∨ Run.Has (n, k) p := by
        unfold Run.Has
        simp only
        lia
      rw [joined, or_assoc, or_assoc, or_comm (a := Run.Has (n, k) p)]
    · rename_i behind
      split
      · rename_i touch
        refine ⟨gapped_cons.mpr ⟨by simp only; lia, ?_, later⟩, ?_⟩
        · intro q member
          have gap := below q member
          simp only
          lia
        · intro p
          rw [covers_cons, covers_cons]
          have joined : Run.Has (n, r.2 + k) p ↔ Run.Has (n, k) p ∨ r.Has p := by
            unfold Run.Has
            simp only
            lia
          rw [joined, or_assoc, or_comm]
      · rename_i ahead
        split
        · rename_i before
          refine ⟨gapped_cons.mpr ⟨some_new, ?_, gapped⟩, ?_⟩
          · intro q member
            rcases List.mem_cons.mp member with rfl | old
            · exact before
            · have gap := below q old
              simp only
              lia
          · intro p
            rw [covers_cons]
            exact or_comm
        · rename_i further
          obtain ⟨closed, covers⟩ := ih later (fun p has covered => outside p has (covers_cons.mpr (Or.inr covered)))
          refine ⟨gapped_cons.mpr ⟨some_there, ?_, closed⟩, ?_⟩
          · intro q member
            rcases put_start member with start | ⟨s, here, same⟩
            · lia
            · have gap := below s here
              lia
          · intro p
            rw [covers_cons, covers_cons, covers, or_assoc]

/-- Runs that may touch each other. -/
structure Ascending (runs : List Run) : Prop where
  some : ∀ r ∈ runs, 0 < r.2
  apart : runs.Pairwise (fun r q => r.1 + r.2 ≤ q.1)

def size (runs : List Run) : Nat := (runs.map Prod.snd).sum

theorem size_cons : size (r :: rest) = r.2 + size rest := by
  simp [size]

theorem ascending_cons : Ascending (r :: rest) ↔ 0 < r.2 ∧ (∀ q ∈ rest, r.1 + r.2 ≤ q.1) ∧ Ascending rest := by
  constructor
  · intro up
    obtain ⟨below, apart⟩ := List.pairwise_cons.mp up.apart
    exact ⟨up.some r List.mem_cons_self, below, fun q member => up.some q (List.mem_cons_of_mem _ member), apart⟩
  · rintro ⟨some, below, up⟩
    exact ⟨List.forall_mem_cons.mpr ⟨some, up.some⟩, List.pairwise_cons.mpr ⟨below, up.apart⟩⟩

theorem Ascending.size_le {l u : Nat} (up : Ascending runs) (room : l ≤ u)
    (inside : ∀ r ∈ runs, l ≤ r.1 ∧ r.1 + r.2 ≤ u) : size runs ≤ u - l := by
  induction runs generalizing l with
  | nil => exact Nat.zero_le _
  | cons r rest ih =>
    obtain ⟨_, below, later⟩ := ascending_cons.mp up
    have here := inside r List.mem_cons_self
    have less := ih later here.2 (fun q member => ⟨below q member, (inside q (List.mem_cons_of_mem _ member)).2⟩)
    rw [size_cons]
    lia

theorem Ascending.after (up : Ascending (r :: rest)) (covers : Covers rest p) : r.1 + r.2 ≤ p := by
  obtain ⟨q, member, has⟩ := covers
  exact Nat.le_trans ((ascending_cons.mp up).2.1 q member) has.1

/-- Together the runs are one, of their size, if each starts where the one before it ends. By
induction on the runs: a gap is not covered by the later ones. -/
theorem covers_one_iff (up : Ascending (r :: rest)) :
    (∀ p, Covers (r :: rest) p ↔ Run.Has (r.1, size (r :: rest)) p) ↔
      (r :: rest).IsChain (fun r q => r.1 + r.2 = q.1) := by
  induction rest generalizing r with
  | nil =>
    refine iff_of_true (fun p => ?_) (.singleton r)
    rw [covers_cons, or_iff_left covers_nil, size_cons]
    rfl
  | cons q rest ih =>
    obtain ⟨some, below, later⟩ := ascending_cons.mp up
    have gap := below q List.mem_cons_self
    have positive := later.some q List.mem_cons_self
    have total : size (r :: q :: rest) = r.2 + size (q :: rest) := size_cons
    have least : q.2 ≤ size (q :: rest) := by
      rw [size_cons]
      lia
    rw [List.isChain_cons_cons, ← ih later]
    constructor
    · intro one
      have touch : r.1 + r.2 = q.1 := by
        by_contra open_
        have covered := (one (r.1 + r.2)).mpr ⟨by simp only; lia, by simp only; lia⟩
        rcases covers_cons.mp covered with has | ⟨s, member, has⟩
        · exact absurd has.2 (by lia)
        · have start := has.1
          rcases List.mem_cons.mp member with rfl | old
          · lia
          · have behind := (ascending_cons.mp later).2.1 s old
            lia
      refine ⟨touch, fun p => ⟨fun covered => ?_, fun has => ?_⟩⟩
      · have start := up.after covered
        have inside := ((one p).mp (covers_cons.mpr (Or.inr covered))).2
        exact ⟨by simp only; lia, by simp only at inside ⊢; lia⟩
      · have start := has.1
        have stop := has.2
        simp only at start stop
        rcases covers_cons.mp ((one p).mpr ⟨by simp only; lia, by simp only; lia⟩) with first | covered
        · exact absurd first.2 (by lia)
        · exact covered
    · rintro ⟨touch, one⟩ p
      rw [covers_cons, one p]
      unfold Run.Has
      simp only
      lia

end Intervals

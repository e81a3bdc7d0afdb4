import Mathlib.Algebra.Order.Ring.Int
import Mathlib.Data.List.Perm.Basic

/-! Sorting in place: every place in turn is compared with all the places behind it, and what stands at the
two is exchanged where `swaps` says so. -/
namespace ExchangeSort

variable {α : Type} (swaps : α → α → Bool)

/-- The places behind `x`, in order. What ends up at the place of `x` comes first in the result. -/
def sink : α → List α → α × List α
  | x, [] => (x, [])
  | x, y :: ys =>
    let r := sink (if swaps x y then y else x) ys
    (r.1, (if swaps x y then x else y) :: r.2)

/-- The first `places` places. -/
def sort : Nat → List α → List α
  | 0, xs => xs
  | _ + 1, [] => []
  | places + 1, x :: xs => (sink swaps x xs).1 :: sort places (sink swaps x xs).2

variable {swaps} {x : α} {xs zs : List α} {places : Nat}

theorem sink_perm : ((sink swaps x xs).1 :: (sink swaps x xs).2).Perm (x :: xs) := by
  induction xs generalizing x with
  | nil => exact .refl _
  | cons y ys ih =>
    cases exchanged : swaps x y with
    | true =>
      simp only [sink, exchanged, if_true]
      exact (List.Perm.swap _ _ _).trans (((ih (x := y)).cons x))
    | false =>
      simp only [sink, exchanged, Bool.false_eq_true, if_false]
      exact (List.Perm.swap _ _ _).trans (((ih (x := x)).cons y).trans (List.Perm.swap _ _ _))

theorem sort_perm : (sort swaps places xs).Perm xs := by
  induction places generalizing xs with
  | zero => exact .refl _
  | succ places ih =>
    cases xs with
    | nil => exact .refl _
    | cons x xs => exact (ih.cons _).trans sink_perm

theorem sink_least {P : α → Prop} {key : α → Nat} (byKey : ∀ x y, P x → P y → swaps x y = decide (key y < key x))
    (all : ∀ z ∈ x :: xs, P z) : ∀ z ∈ x :: xs, key (sink swaps x xs).1 ≤ key z := by
  induction xs generalizing x with
  | nil =>
    intro z inside
    rw [List.mem_singleton.mp inside]
    exact Nat.le_refl _
  | cons y ys ih =>
    have px := all x List.mem_cons_self
    have py := all y (List.mem_cons_of_mem x List.mem_cons_self)
    have rest : ∀ z ∈ ys, P z := fun z inside => all z (List.mem_cons_of_mem x (List.mem_cons_of_mem y inside))
    obtain ⟨m, isM⟩ : ∃ m, m = if swaps x y then y else x := ⟨_, rfl⟩
    have pm : P m := by
      rw [isM]
      split
      · exact py
      · exact px
    have least : key m ≤ key x ∧ key m ≤ key y := by
      rw [isM, byKey x y px py]
      by_cases smaller : key y < key x
      · rw [decide_eq_true smaller, if_pos rfl]
        omega
      · rw [decide_eq_false smaller, if_neg Bool.false_ne_true]
        omega
    have below := ih (x := m) (List.forall_mem_cons.mpr ⟨pm, rest⟩)
    have front := below m List.mem_cons_self
    intro z inside
    rw [sink, ← isM]
    simp only [List.mem_cons] at inside
    rcases inside with rfl | rfl | inside
    · exact front.trans least.1
    · exact front.trans least.2
    · exact below z (List.mem_cons_of_mem m inside)

theorem sort_sorted {P : α → Prop} {key : α → Nat} (byKey : ∀ x y, P x → P y → swaps x y = decide (key y < key x))
    (all : ∀ z ∈ xs, P z) (enough : xs.length ≤ places) :
    (sort swaps places xs).Pairwise (fun x y => key x ≤ key y) := by
  induction places generalizing xs with
  | zero =>
    obtain rfl : xs = [] := List.length_eq_zero_iff.mp (by omega)
    exact List.Pairwise.nil
  | succ places ih =>
    cases xs with
    | nil => exact List.Pairwise.nil
    | cons x xs =>
      have same : ((sink swaps x xs).1 :: (sink swaps x xs).2).Perm (x :: xs) := sink_perm
      have size := same.length_eq
      simp only [List.length_cons] at size enough
      have within : ∀ z ∈ (sink swaps x xs).2, z ∈ x :: xs :=
        fun z inside => same.mem_iff.mp (List.mem_cons_of_mem _ inside)
      refine List.Pairwise.cons (fun z inside => ?_) (ih (fun z inside => all z (within z inside)) (by omega))
      exact sink_least byKey all z (within z (sort_perm.mem_iff.mp inside))

theorem sink_append (still : ∀ x, ∀ z ∈ zs, swaps x z = false) :
    sink swaps x (xs ++ zs) = ((sink swaps x xs).1, (sink swaps x xs).2 ++ zs) := by
  induction xs generalizing x with
  | nil =>
    induction zs generalizing x with
    | nil => rfl
    | cons z zs ih =>
      have fixed := still x z List.mem_cons_self
      have rest := ih (x := x) (fun x z inside => still x z (List.mem_cons_of_mem _ inside))
      simp only [List.nil_append, sink] at rest
      simp only [List.nil_append, sink, fixed, Bool.false_eq_true, if_false, rest]
  | cons y ys ih => simp only [List.cons_append, sink, ih]

theorem sort_append (still : ∀ x, ∀ z ∈ zs, swaps x z = false) (enough : xs.length ≤ places) :
    sort swaps places (xs ++ zs) = sort swaps places xs ++ zs := by
  have alone : ∀ places, sort swaps places zs = zs := by
    intro places
    induction places generalizing zs with
    | zero => rfl
    | succ places ih =>
      cases zs with
      | nil => rfl
      | cons z zs =>
        have behind : ∀ x, ∀ y ∈ zs, swaps x y = false := fun x y inside => still x y (List.mem_cons_of_mem _ inside)
        have sunk : sink swaps z ([] ++ zs) = ((sink swaps z []).1, (sink swaps z []).2 ++ zs) := sink_append behind
        rw [List.nil_append] at sunk
        rw [sort, sunk]
        exact congrArg (z :: ·) (ih behind)
  induction places generalizing xs with
  | zero =>
    obtain rfl : xs = [] := List.length_eq_zero_iff.mp (by omega)
    rfl
  | succ places ih =>
    cases xs with
    | nil => exact alone _
    | cons x xs =>
      have same : ((sink swaps x xs).1 :: (sink swaps x xs).2).Perm (x :: xs) := sink_perm
      have size := same.length_eq
      simp only [List.length_cons] at size enough
      rw [List.cons_append, sort, sink_append still, sort, ih (by omega)]
      rfl

end ExchangeSort

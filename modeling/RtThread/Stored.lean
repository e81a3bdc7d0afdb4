import Mathlib.Data.List.GetD
import Mathlib.Logic.Function.Basic

/-! Lists stored in a memory that is a function of the address. -/
namespace RtThread.Stored

section
variable {α : Type} {mem mem' : Nat → α} {p a i : Nat} {x : α} {xs ys : List α}

def store (mem : Nat → α) (p : Nat) (xs : List α) (a : Nat) : α :=
  if p ≤ a then xs.getD (a - p) (mem a) else mem a

def Holds (mem : Nat → α) (p : Nat) (xs : List α) : Prop := ∀ i x, xs[i]? = some x → mem (p + i) = x

@[simp] theorem store_nil : store mem p [] = mem := by
  funext a
  simp [store]

theorem store_outside (outside : a < p ∨ p + xs.length ≤ a) : store mem p xs a = mem a := by
  simp only [store]
  split
  · exact List.getD_eq_default _ _ (by omega)
  · rfl

theorem store_holds : Holds (store mem p xs) p xs := by
  intro i x here
  rw [store, if_pos (Nat.le_add_right p i), Nat.add_sub_cancel_left, List.getD_eq_getElem?_getD, here]
  rfl

theorem store_cons : store (Function.update mem p x) (p + 1) xs = store mem p (x :: xs) := by
  funext a
  rcases Nat.lt_trichotomy a p with below | rfl | above
  · rw [store_outside (.inl (by omega)), store_outside (.inl below), Function.update_of_ne (by omega)]
  · rw [store_outside (.inl (Nat.lt_succ_self a)), Function.update_self]
    simp [store]
  · rw [store, if_pos (by omega), store, if_pos (by omega), Function.update_of_ne (by omega),
      show a - p = a - (p + 1) + 1 by omega, List.getD_cons_succ]

theorem store_append : store (store mem p xs) (p + xs.length) ys = store mem p (xs ++ ys) := by
  induction xs generalizing mem p with
  | nil => simp
  | cons x xs ih =>
    rw [← store_cons, List.cons_append, ← store_cons, ← ih, List.length_cons, Nat.add_assoc, Nat.add_comm 1]

theorem store_snoc : Function.update (store mem p xs) (p + xs.length) x = store mem p (xs ++ [x]) := by
  rw [← store_append, ← store_cons, store_nil]

theorem store_set (inside : i < xs.length) : Function.update (store mem p xs) (p + i) x = store mem p (xs.set i x) := by
  funext a
  by_cases here : a = p + i
  · rw [here, Function.update_self, store, if_pos (Nat.le_add_right p i), Nat.add_sub_cancel_left,
      List.getD_eq_getElem _ _ (by rwa [List.length_set]), List.getElem_set_self]
  · rw [Function.update_of_ne here, store, store]
    split
    · rw [List.getD_eq_getElem?_getD, List.getD_eq_getElem?_getD, List.getElem?_set_ne (by omega)]
    · rfl

end

end RtThread.Stored

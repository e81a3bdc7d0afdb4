import Mathlib.Algebra.BigOperators.Group.Finset.Piecewise
import Mathlib.Algebra.Order.BigOperators.Group.Finset

/-! Sums over finitely many parties, each of which adds what its own place is worth. -/
namespace Tally

variable {T A : Type} [Fintype T]

theorem sum_update [DecidableEq T] (f : T → A) (g : A → Nat) (t : T) (v : A) :
    ∑ u, g (Function.update f t v u) + g (f t) = ∑ u, g (f u) + g v := by
  have others :
      ∑ u ∈ Finset.univ.erase t, g (Function.update f t v u) = ∑ u ∈ Finset.univ.erase t, g (f u) :=
    Finset.sum_congr rfl fun u hu => by rw [Function.update_of_ne (Finset.ne_of_mem_erase hu)]
  rw [← Finset.add_sum_erase _ _ (Finset.mem_univ t), Function.update_self, others,
    ← Finset.add_sum_erase _ (fun u => g (f u)) (Finset.mem_univ t)]
  omega

theorem le_sum (g : T → Nat) (t : T) : g t ≤ ∑ u, g u :=
  Finset.single_le_sum (fun _ _ => Nat.zero_le _) (Finset.mem_univ t)

theorem sum_zero {g : T → Nat} (zero : ∑ u, g u = 0) (t : T) : g t = 0 :=
  Nat.le_zero.mp (zero ▸ le_sum g t)

theorem sum_lt {g g' : T → Nat} {t : T} (less : g' t < g t) (others : ∀ u, g' u ≤ g u) :
    ∑ u, g' u < ∑ u, g u :=
  Finset.sum_lt_sum (fun u _ => others u) ⟨t, Finset.mem_univ t, less⟩

end Tally

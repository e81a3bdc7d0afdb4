import Mathlib.Order.Basic
import Mathlib.Data.Nat.Find
import Mathlib.Logic.Function.Iterate

/-! The first hit of a loop that goes from a value to the next one until it is free. -/
namespace FirstHit

variable {α : Type} (next : α → α) (free : α → Prop) [DecidablePred free]

/-- `none` where the loop has not left after so many turns. -/
def search : Nat → α → Option α
  | 0, _ => none
  | turns + 1, a => if free a then some a else search turns (next a)

/-- The hit after `k` steps, and none before. -/
def HitAt (a : α) (k : Nat) : Prop := free (next^[k] a) ∧ ∀ j < k, ¬ free (next^[j] a)

variable {next free} {a b : α}

theorem search_some {turns : Nat} (found : search next free turns a = some b) :
    ∃ k, b = next^[k] a ∧ HitAt next free a k := by
  induction turns generalizing a with
  | zero => contradiction
  | succ turns ih =>
    rw [search] at found
    split at found
    · rename_i hit
      cases found
      exact ⟨0, rfl, hit, fun j early => absurd early (Nat.not_lt_zero j)⟩
    · rename_i taken
      obtain ⟨k, place, hit, before⟩ := ih found
      refine ⟨k + 1, place, hit, ?_⟩
      intro j early
      cases j with
      | zero => exact taken
      | succ j => exact before j (Nat.lt_of_succ_lt_succ early)

theorem search_hit {k : Nat} (hit : HitAt next free a k) : search next free (k + 1) a = some (next^[k] a) := by
  induction k generalizing a with
  | zero => exact if_pos hit.1
  | succ k ih =>
    have taken : ¬ free a := hit.2 0 (Nat.succ_pos k)
    rw [search, if_neg taken]
    exact ih ⟨hit.1, fun j early => hit.2 (j + 1) (Nat.succ_lt_succ early)⟩

theorem search_iff : (∃ turns, search next free turns a = some b) ↔ ∃ k, b = next^[k] a ∧ HitAt next free a k := by
  constructor
  · rintro ⟨turns, found⟩
    exact search_some found
  · rintro ⟨k, rfl, hit⟩
    exact ⟨k + 1, search_hit hit⟩

theorem hitAt_of_free {k : Nat} (hit : free (next^[k] a)) : ∃ j ≤ k, HitAt next free a j := by
  have some_free : ∃ j, free (next^[j] a) := ⟨k, hit⟩
  exact ⟨Nat.find some_free, Nat.find_min' some_free hit, Nat.find_spec some_free, fun j => Nat.find_min some_free⟩

end FirstHit

import Mathlib.Data.Nat.ModEq
import Mathlib.Data.List.Basic
import Mathlib.Logic.Function.Basic

/-! Ring buffers: `size` slots read from `out` on, wrapping at the end. The slots in use
are a window that grows at one side and shrinks at the other. -/
namespace Ring

variable {α : Type} (pool : Nat → α) (size out : Nat)

/-- The `n` values in use, oldest first. -/
def window (n : Nat) : List α := (List.range n).map (fun i => pool ((out + i) % size))

@[simp] theorem window_zero : window pool size out 0 = [] := rfl

@[simp] theorem length_window (n : Nat) : (window pool size out n).length = n := by simp [window]

theorem slot_ne {i n : Nat} (before : i < n) (fits : n < size) : (out + i) % size ≠ (out + n) % size := by
  intro same
  have shift : Nat.ModEq size i n := Nat.ModEq.add_left_cancel' out same
  have equal := Nat.ModEq.eq_of_lt_of_lt shift (by omega) fits
  omega

theorem window_push {n : Nat} (fits : n < size) (v : α) :
    window (Function.update pool ((out + n) % size) v) size out (n + 1) =
      window pool size out n ++ [v] := by
  have old : ∀ i ∈ List.range n,
      Function.update pool ((out + n) % size) v ((out + i) % size) = pool ((out + i) % size) := by
    intro i hi
    exact Function.update_of_ne (slot_ne size out (List.mem_range.mp hi) fits) _ _
  simp [window, List.range_succ, List.map_congr_left old]

theorem window_pop {n : Nat} (inside : out < size) :
    window pool size out (n + 1) = pool out :: window pool size ((out + 1) % size) n := by
  simp only [window, List.range_succ_eq_map, List.map_cons, List.map_map, Nat.add_zero,
    Nat.mod_eq_of_lt inside]
  congr 1
  apply List.map_congr_left
  intro i _
  simp only [Function.comp, Nat.mod_add_mod]
  congr 2
  omega

theorem window_drop (n k : Nat) :
    (window pool size out n).drop k = window pool size ((out + k) % size) (n - k) := by
  apply List.ext_getElem
  · simp
  · intro i _ _
    simp [window, Nat.add_assoc]

theorem window_take {n k : Nat} (part : k ≤ n) :
    (window pool size out n).take k = window pool size out k := by
  simp [window, ← List.map_take, List.take_range, Nat.min_eq_left part]

theorem window_append {pool' f : Nat → α} {n k : Nat}
    (old : ∀ i, i < n → pool' ((out + i) % size) = pool ((out + i) % size))
    (new : ∀ i, i < k → pool' ((out + (n + i)) % size) = f i) :
    window pool' size out (n + k) = window pool size out n ++ (List.range k).map f := by
  simp only [window, List.range_add, List.map_append, List.map_map]
  congr 1
  · exact List.map_congr_left (fun i here => old i (List.mem_range.mp here))
  · exact List.map_congr_left (fun i here => new i (List.mem_range.mp here))

theorem mod_wrap {i : Nat} (once : i < 2 * size) : i % size = if i < size then i else i - size := by
  split
  · rename_i inside
    exact Nat.mod_eq_of_lt inside
  · rename_i outside
    rw [Nat.mod_eq_sub_mod (by omega), Nat.mod_eq_of_lt (by omega)]

theorem next_eq_mod {i : Nat} (inside : i < size) :
    (if size ≤ i + 1 then 0 else i + 1) = (i + 1) % size := by
  split
  · rw [show i + 1 = size by omega, Nat.mod_self]
  · rw [Nat.mod_eq_of_lt (by omega)]

end Ring

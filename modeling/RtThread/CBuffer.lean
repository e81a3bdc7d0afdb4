import Mathlib.Data.List.InsertIdx
import Mathlib.Logic.Function.Basic

/-! Arrays as functions of the index: a text followed by a fill value, the copies and
single writes that insert and erase in it, and the search for a terminator. -/
namespace CBuffer

variable {α : Type} (fill : α)

/-- `text`, and `fill` behind it. -/
def padded (text : List α) : Nat → α := fun i => text.getD i fill

/-- memmove and memcpy of `n` values from `src + j` to `dst + i`. -/
def copy (dst : Nat → α) (i : Nat) (src : Nat → α) (j n : Nat) : Nat → α :=
  fun k => if i ≤ k ∧ k < i + n then src (j + (k - i)) else dst k

/-- `n` values from `i` on. -/
def slice (s : Nat → α) (i n : Nat) : List α := (List.range n).map (fun k => s (i + k))

/-- The first `fill` at `i` or behind it, looking at `n` values. -/
def find [DecidableEq α] (s : Nat → α) : Nat → Nat → Option Nat
  | _, 0 => none
  | i, n + 1 => if s i = fill then some i else find s (i + 1) n

variable {fill} {text : List α}

theorem padded_inside {i : Nat} (inside : i < text.length) : padded fill text i = text[i] := by
  simp [padded, inside]

theorem padded_outside {i : Nat} (outside : text.length ≤ i) : padded fill text i = fill := by
  simp [padded, outside]

@[simp] theorem length_slice (s : Nat → α) (i n : Nat) : (slice s i n).length = n := by simp [slice]

theorem slice_padded {i n : Nat} (inside : i + n ≤ text.length) :
    slice (padded fill text) i n = (text.drop i).take n := by
  apply List.ext_getElem
  · simp only [length_slice, List.length_take, List.length_drop]
    lia
  · intro k below _
    rw [length_slice] at below
    simp only [slice, List.getElem_map, List.getElem_range, List.getElem_take, List.getElem_drop]
    exact padded_inside (by lia)

theorem find_padded [DecidableEq α] {i n : Nat} (apart : fill ∉ text) (inside : i ≤ text.length)
    (room : text.length - i < n) : find fill (padded fill text) i n = some text.length := by
  induction n generalizing i with
  | zero => lia
  | succ n ih =>
    rw [find]
    split
    · rename_i stop
      rcases Nat.lt_or_ge i text.length with before | ended
      · rw [padded_inside before] at stop
        exact absurd (stop ▸ List.getElem_mem before) apart
      · congr 1
        lia
    · rename_i go
      have before : i < text.length := by
        by_contra ended
        exact go (padded_outside (by lia))
      exact ih (by lia) (by lia)

theorem padded_injective [DecidableEq α] {other : List α} (apart : fill ∉ text) (apart' : fill ∉ other)
    (same : padded fill text = padded fill other) : text = other := by
  have one := find_padded apart (Nat.zero_le _) (show text.length - 0 < text.length + other.length + 1 by lia)
  have two := find_padded apart' (Nat.zero_le _) (show other.length - 0 < text.length + other.length + 1 by lia)
  have length : text.length = other.length := Option.some.inj (one.symm.trans (same ▸ two))
  apply List.ext_getElem length
  intro k below below'
  rw [← padded_inside below, ← padded_inside below', same]

theorem update_end (c : α) :
    Function.update (padded fill text) text.length c = padded fill (text ++ [c]) := by
  funext k
  rcases Nat.lt_trichotomy k text.length with before | rfl | behind
  · rw [Function.update_of_ne (by lia), padded_inside before, padded_inside (by simp; lia),
      List.getElem_append_left before]
  · rw [Function.update_self, padded_inside (by simp)]
    simp
  · rw [Function.update_of_ne (by lia), padded_outside (by lia), padded_outside (by simp; lia)]

theorem copy_insert {i : Nat} (inside : i ≤ text.length) (c : α) :
    Function.update (copy (padded fill text) (i + 1) (padded fill text) i (text.length - i)) i c =
      padded fill (text.insertIdx i c) := by
  have length : (text.insertIdx i c).length = text.length + 1 := List.length_insertIdx_of_le_length inside c
  funext k
  rcases Nat.lt_trichotomy k i with before | rfl | behind
  · rw [Function.update_of_ne (by lia), copy, if_neg (by lia), padded_inside (by lia),
      padded_inside (by lia), List.getElem_insertIdx_of_lt before]
  · rw [Function.update_self, padded_inside (by lia), List.getElem_insertIdx_self]
  · rw [Function.update_of_ne (by lia), copy]
    split
    · rename_i moved
      rw [padded_inside (by lia), padded_inside (by lia), List.getElem_insertIdx_of_gt behind]
      congr 1
      lia
    · rw [padded_outside (by lia), padded_outside (by lia)]

theorem copy_erase {i : Nat} (inside : i < text.length) :
    Function.update (copy (padded fill text) i (padded fill text) (i + 1) (text.length - 1 - i))
      (text.length - 1) fill = padded fill (text.eraseIdx i) := by
  have length : (text.eraseIdx i).length = text.length - 1 := List.length_eraseIdx_of_lt inside
  funext k
  rcases Nat.lt_trichotomy k (text.length - 1) with before | rfl | behind
  · have kept : k < (text.eraseIdx i).length := by lia
    rw [Function.update_of_ne (by lia), copy, padded_inside kept, List.getElem_eraseIdx]
    split
    · rename_i moved
      rw [dif_neg (by lia), padded_inside (by lia)]
      congr 1
      lia
    · rw [dif_pos (by lia), padded_inside (by lia)]
  · rw [Function.update_self, padded_outside (by lia)]
  · rw [Function.update_of_ne (by lia), copy, if_neg (by lia), padded_outside (by lia),
      padded_outside (by lia)]

theorem copy_none (dst src : Nat → α) (i j : Nat) : copy dst i src j 0 = dst := by
  funext k
  rw [copy, if_neg (by lia)]

theorem padded_drop (i k : Nat) : padded fill (text.drop i) k = padded fill text (i + k) := by
  simp [padded]

theorem padded_append_fill (n : Nat) : padded fill (text ++ List.replicate n fill) = padded fill text := by
  funext k
  rcases Nat.lt_or_ge k text.length with inside | outside
  · rw [padded_inside inside, padded_inside (by simp; lia), List.getElem_append_left inside]
  · rw [padded_outside outside]
    rcases Nat.lt_or_ge k (text ++ List.replicate n fill).length with filled | behind
    · rw [padded_inside filled, List.getElem_append_right outside, List.getElem_replicate]
    · rw [padded_outside behind]

theorem copy_rest {other new : List α} {i : Nat} {s : Nat → α}
    (begin_ : other.take i = text.take i)
    (written : ∀ k, k < new.length → padded fill new k = padded fill other (i + k))
    (whole : text.length ≤ i + new.length) (whole' : other.length ≤ i + new.length)
    (source : ∀ k, k < new.length → s k = padded fill new k) :
    copy (padded fill text) i s 0 new.length = padded fill other := by
  funext k
  rw [copy]
  split
  · rename_i copied
    rw [Nat.zero_add, source _ (by lia), written _ (by lia)]
    congr 1
    lia
  · rename_i kept
    rcases Nat.lt_or_ge k i with before | behind
    · have same := congrArg (fun l => padded fill l k) begin_
      simpa [padded, before, List.getElem?_take] using same.symm
    · rw [padded_outside (by lia), padded_outside (by lia)]

theorem copy_whole {other : List α} {s : Nat → α} {n : Nat}
    (source : ∀ k, k < n → s k = padded fill other k) (whole : text.length ≤ n) (whole' : other.length ≤ n) :
    copy (padded fill text) 0 s 0 n = padded fill other := by
  funext k
  rw [copy]
  split
  · rw [Nat.zero_add, Nat.sub_zero, source k (by lia)]
  · rw [padded_outside (by lia), padded_outside (by lia)]

end CBuffer

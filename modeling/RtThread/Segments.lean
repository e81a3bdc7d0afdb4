import RtThread.CBuffer
import RtThread.Ring

/-! A stream of values in a ring of `count` buffers of `size` values each: it begins with the buffer
`first`, and goes on in the next one where a buffer ends. -/
namespace Segments
open CBuffer

variable {α : Type} (size count first : Nat)

def place (p : Nat) : Nat := (first + p / size) % count * size + p % size

def stream (memory : Nat → α) : Nat → α := fun p => memory (place size count first p)

/-- The position `p` of the stream is at `offset` in the buffer `desc`. Between two buffers this is the
end of the one or the start of the other. -/
def At (desc offset p : Nat) : Prop :=
  ∃ j < count, desc = (first + j) % count ∧ offset ≤ size ∧ p = j * size + offset

variable {size count first} {desc offset p n : Nat}

theorem at_start (inside : first < count) : At size count first first 0 0 :=
  ⟨0, by lia, (Nat.mod_eq_of_lt inside).symm, Nat.zero_le _, by lia⟩

theorem At.advance (here : At size count first desc offset p) (fits : offset + n ≤ size) :
    At size count first desc (offset + n) (p + n) := by
  obtain ⟨j, some_, buffer, _, pos⟩ := here
  exact ⟨j, some_, buffer, fits, by lia⟩

theorem At.next (here : At size count first desc size p) (more : p < count * size) :
    At size count first ((desc + 1) % count) 0 p := by
  obtain ⟨j, some_, rfl, _, rfl⟩ := here
  have step : (j + 1) * size = j * size + size := Nat.succ_mul j size
  refine ⟨j + 1, ?_, by rw [Nat.mod_add_mod, Nat.add_assoc], Nat.zero_le _, by lia⟩
  rw [← step] at more
  exact Nat.lt_of_mul_lt_mul_right more

theorem same_buffer {d d' r r' : Nat} (inside : r < size) (inside' : r' < size) :
    d * size + r = d' * size + r' ↔ d = d' ∧ r = r' := by
  constructor
  · intro same
    have quotient := congrArg (· / size) same
    have remainder := congrArg (· % size) same
    simp only [Nat.mul_add_mod', Nat.mod_eq_of_lt inside, Nat.mod_eq_of_lt inside'] at remainder
    rw [Nat.mul_comm d, Nat.mul_comm d'] at quotient
    simp only [Nat.mul_add_div (Nat.zero_lt_of_lt inside), Nat.div_eq_of_lt inside,
      Nat.div_eq_of_lt inside'] at quotient
    exact ⟨quotient, remainder⟩
  · rintro ⟨rfl, rfl⟩
    rfl

theorem At.inside (here : At size count first desc offset p) {k : Nat} (fits : offset + k < size) :
    place size count first (p + k) = desc * size + offset + k := by
  obtain ⟨j, some_, rfl, _, rfl⟩ := here
  have quotient : (j * size + offset + k) / size = j := by
    rw [Nat.add_assoc, Nat.mul_comm, Nat.mul_add_div (by lia), Nat.div_eq_of_lt fits, Nat.add_zero]
  have remainder : (j * size + offset + k) % size = offset + k := by
    rw [Nat.add_assoc, Nat.mul_add_mod', Nat.mod_eq_of_lt fits]
  rw [place, quotient, remainder, Nat.add_assoc]

theorem At.only (here : At size count first desc offset p) {q k : Nat} (fits : offset + k < size)
    (whole : q < count * size) (same : place size count first q = desc * size + offset + k) : q = p + k := by
  obtain ⟨j, some_, rfl, _, rfl⟩ := here
  have size_pos : 0 < size := by lia
  have within : q / size < count := Nat.div_lt_of_lt_mul (Nat.mul_comm count size ▸ whole)
  rw [place, Nat.add_assoc, same_buffer (Nat.mod_lt _ size_pos) fits] at same
  have buffer : q / size = j := by
    rcases Nat.lt_trichotomy (q / size) j with before | equal | behind
    · exact absurd same.1 (Ring.slot_ne _ _ before some_)
    · exact equal
    · exact absurd same.1.symm (Ring.slot_ne _ _ behind within)
  have parts := Nat.div_add_mod q size
  rw [buffer, same.2, Nat.mul_comm] at parts
  lia

theorem At.write (here : At size count first desc offset p) (fits : offset + n ≤ size) (memory src : Nat → α)
    (o : Nat) {q : Nat} (whole : q < count * size) :
    stream size count first (copy memory (desc * size + offset) src o n) q =
      copy (stream size count first memory) p src o n q := by
  simp only [stream, copy]
  by_cases written : p ≤ q ∧ q < p + n
  · have target := here.inside (k := q - p) (by lia)
    rw [Nat.add_sub_cancel' written.1] at target
    rw [if_pos written, target, if_pos (by lia)]
    congr 1
    lia
  · rw [if_neg written, if_neg]
    rintro ⟨low, high⟩
    have target := here.only (k := place size count first q - (desc * size + offset)) (by lia) whole (by lia)
    lia

theorem At.read (here : At size count first desc offset p) (fits : offset + n ≤ size) (dst memory : Nat → α)
    (i : Nat) :
    copy dst i memory (desc * size + offset) n = copy dst i (stream size count first memory) p n := by
  funext k
  simp only [copy, stream]
  split
  · rw [here.inside (by lia)]
  · rfl

theorem copy_copy (dst src : Nat → α) (i o n m : Nat) :
    copy (copy dst i src o n) (i + n) src (o + n) m = copy dst i src o (n + m) := by
  funext k
  simp only [copy]
  by_cases first : i ≤ k ∧ k < i + n
  · rw [if_neg (by lia), if_pos first, if_pos (by lia)]
  · by_cases second : i + n ≤ k ∧ k < i + n + m
    · rw [if_pos second, if_pos (by lia)]
      congr 1
      lia
    · rw [if_neg second, if_neg first, if_neg (by lia)]

theorem copy_congr {dst dst' : Nat → α} {q : Nat} (same : dst q = dst' q) (src : Nat → α) (i o n : Nat) :
    copy dst i src o n q = copy dst' i src o n q := by
  simp only [copy, same]

theorem slice_append (s : Nat → α) (i n m : Nat) : slice s i (n + m) = slice s i n ++ slice s (i + n) m := by
  simp [slice, List.range_add, Nat.add_assoc]

theorem slice_congr {s s' : Nat → α} {i n : Nat} (same : ∀ q, i ≤ q → q < i + n → s q = s' q) :
    slice s i n = slice s' i n := by
  apply List.map_congr_left
  intro k inside
  have below := List.mem_range.mp inside
  exact same (i + k) (by lia) (by lia)

theorem slice_copy (dst src : Nat → α) (i o n : Nat) : slice (copy dst i src o n) i n = slice src o n := by
  apply List.map_congr_left
  intro k inside
  have below := List.mem_range.mp inside
  simp only [copy]
  rw [if_pos (by lia), Nat.add_sub_cancel_left]

end Segments

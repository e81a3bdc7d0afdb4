import Mathlib.Data.List.Basic
import Mathlib.Data.List.Infix

/-! Frames in a stream that arrives in pieces. A splitter is given what it kept and the
next piece, and returns the frames that are complete and what it keeps. -/
namespace Framing

section search
variable {α : Type} {pat buf rest : List α} {start i : Nat}

/-- The pattern stands in `buf` at position `i`. -/
def At (pat buf : List α) (i : Nat) : Prop := pat <+: buf.drop i

instance [DecidableEq α] : Decidable (At pat buf i) := inferInstanceAs (Decidable (pat <+: buf.drop i))

/-- The first position of a pattern from `start` on, as bytes.find of Python. -/
def find [DecidableEq α] (buf pat : List α) (start : Nat) : Option Nat :=
  (List.range' start (buf.length + 1 - start)).find? (fun i => decide (At pat buf i))

/-- The last position of a pattern, as bytes.rfind of Python. -/
def rfind [DecidableEq α] (buf pat : List α) : Option Nat :=
  (List.range (buf.length + 1)).reverse.find? (fun i => decide (At pat buf i))

/-- `buf[i : j]` -/
def slice (buf : List α) (i j : Nat) : List α := (buf.drop i).take (j - i)

theorem At.bound (here : At pat buf i) : pat.length ≤ buf.length - i := by
  simpa using here.length_le

theorem at_append_left (pre : List α) : At pat (pre ++ buf) (pre.length + i) ↔ At pat buf i := by
  simp only [At, ← List.drop_drop, List.drop_left]

theorem at_append_right (inside : i + pat.length ≤ buf.length) :
    At pat (buf ++ rest) i ↔ At pat buf i := by
  simp only [At]
  rw [List.drop_append_of_le_length (by omega)]
  constructor
  · intro here
    apply List.prefix_of_prefix_length_le here (List.prefix_append _ _)
    simp only [List.length_drop]
    omega
  · exact List.prefix_append_of_prefix

variable [DecidableEq α]

theorem find_eq_some : find buf pat start = some i ↔
    At pat buf i ∧ (start ≤ i ∧ i ≤ buf.length) ∧ ∀ j, start ≤ j → j < i → ¬ At pat buf j := by
  have range : i ∈ List.range' start (buf.length + 1 - start) ↔ start ≤ i ∧ i ≤ buf.length := by
    rw [List.mem_range'_1]
    omega
  simp only [find, List.find?_range'_eq_some, range, decide_eq_true_eq, Bool.not_eq_true',
    decide_eq_false_iff_not]

theorem find_eq_none (some : 0 < pat.length) :
    find buf pat start = none ↔ ∀ j, start ≤ j → ¬ At pat buf j := by
  simp only [find, List.find?_eq_none, List.mem_range'_1, decide_eq_true_eq]
  constructor
  · intro nowhere j after here
    have bound := here.bound
    exact nowhere j ⟨after, by omega⟩ here
  · intro nowhere j range
    exact nowhere j range.1

theorem find_bounds (found : find buf pat start = some i) (some : 0 < pat.length) :
    start ≤ i ∧ i + pat.length ≤ buf.length := by
  obtain ⟨here, ⟨after, -⟩, -⟩ := find_eq_some.mp found
  have bound := here.bound
  omega

end search

variable {α : Type}

/-- One piece: `buf += data; frames, buf = split(buf)`. -/
def feed (split : List α → List (List α) × List α) (st : List (List α) × List α) (data : List α) :
    List (List α) × List α :=
  let r := split (st.2 ++ data)
  (st.1 ++ r.1, r.2)

/-- All pieces; the frames in order, and what is left over. -/
def receive (split : List α → List (List α) × List α) (chunks : List (List α)) :
    List (List α) × List α :=
  chunks.foldl (feed split) ([], [])

variable (Frame : List α → Prop)

/-- The beginning of a frame, short of its end. -/
def Started (p : List α) : Prop := p = [] ∨ ∃ f, Frame f ∧ p <+: f ∧ p.length < f.length

/-- The splitter cuts whole frames off and keeps what has started. -/
def Exact (split : List α → List (List α) × List α) : Prop :=
  ∀ fs p, (∀ f ∈ fs, Frame f) → Started Frame p → split (fs.flatten ++ p) = (fs, p)

variable {Frame} {split : List α → List (List α) × List α}

/-- Wherever a sequence of frames is cut, in front of the cut are some whole frames and
the beginning of the next one. -/
theorem cut_frames {fs : List (List α)} (frames : ∀ f ∈ fs, Frame f) {pre post : List α}
    (cut : pre ++ post = fs.flatten) :
    ∃ gs hs p, fs = gs ++ hs ∧ pre = gs.flatten ++ p ∧ p ++ post = hs.flatten ∧ Started Frame p := by
  induction fs generalizing pre with
  | nil =>
    obtain ⟨rfl, rfl⟩ := List.append_eq_nil_iff.mp cut
    exact ⟨[], [], [], rfl, rfl, rfl, .inl rfl⟩
  | cons f rest ih =>
    rw [List.flatten_cons] at cut
    by_cases short : pre.length < f.length
    · have part : pre <+: f := List.prefix_of_prefix_length_le ⟨post, cut⟩ ⟨_, rfl⟩ (by omega)
      exact ⟨[], f :: rest, pre, rfl, rfl, by simpa using cut, .inr ⟨f, frames f (by simp), part, short⟩⟩
    · obtain ⟨more, rfl⟩ : f <+: pre := List.prefix_of_prefix_length_le ⟨_, rfl⟩ ⟨post, cut⟩ (by omega)
      rw [List.append_assoc] at cut
      obtain ⟨gs, hs, p, rfl, rfl, tail, started⟩ :=
        ih (fun g member => frames g (by simp [member])) (List.append_cancel_left cut)
      exact ⟨f :: gs, hs, p, rfl, by simp, tail, started⟩

/-- The pieces from some point on, when what is kept and they make up whole frames. -/
theorem feed_exact (exact : Exact Frame split) (chunks : List (List α)) {fs out : List (List α)}
    {p : List α} (frames : ∀ f ∈ fs, Frame f) (started : Started Frame p)
    (whole : p ++ chunks.flatten = fs.flatten) : chunks.foldl (feed split) (out, p) = (out ++ fs, []) := by
  induction chunks generalizing fs out p with
  | nil =>
    -- what is kept is no frame, so that no frame is missing
    have kept := exact [] p (by simp) started
    have all := exact fs [] frames (.inl rfl)
    rw [List.append_nil] at all
    simp only [List.flatten_nil, List.append_nil, List.nil_append] at whole kept
    rw [← whole, kept] at all
    obtain ⟨rfl, rfl⟩ := Prod.mk.inj all
    simp
  | cons c rest ih =>
    rw [List.flatten_cons, ← List.append_assoc] at whole
    obtain ⟨gs, hs, q, rfl, taken, tail, next⟩ := cut_frames frames whole
    have step : feed split (out, p) c = (out ++ gs, q) := by
      simp only [feed, taken, exact gs q (fun g member => frames g (by simp [member])) next]
    rw [List.foldl_cons, step, ih (fun h member => frames h (by simp [member])) next tail,
      List.append_assoc]

/-- However a sequence of frames is cut into pieces, an exact splitter gives it back. -/
theorem receive_exact (exact : Exact Frame split) {chunks fs : List (List α)}
    (frames : ∀ f ∈ fs, Frame f) (whole : chunks.flatten = fs.flatten) :
    receive split chunks = (fs, []) := by
  have all : chunks.foldl (feed split) ([], []) = ([] ++ fs, []) :=
    feed_exact exact chunks frames (.inl rfl) whole
  exact all

/-- A splitter that loops over its buffer with the position reached and the frames found is
exact if one turn takes one frame and the last one keeps what has started. -/
theorem loop_exact {loop : List α → List (List α) → Nat → List (List α) × List α}
    (turn : ∀ pre f rest frames, Frame f → loop (pre ++ (f ++ rest)) frames pre.length =
      loop (pre ++ (f ++ rest)) (frames ++ [f]) (pre ++ f).length)
    (last : ∀ pre p frames, Started Frame p → loop (pre ++ p) frames pre.length = (frames, p)) :
    Exact Frame (fun buf => loop buf [] 0) := by
  have all : ∀ fs pre p frames, (∀ f ∈ fs, Frame f) → Started Frame p →
      loop (pre ++ (fs.flatten ++ p)) frames pre.length = (frames ++ fs, p) := by
    intro fs pre p frames whole started
    induction fs generalizing pre frames with
    | nil => simpa using last pre p frames started
    | cons f rest ih =>
      rw [List.flatten_cons, List.append_assoc, turn pre f _ frames (whole f (by simp)),
        ← List.append_assoc pre, ih _ _ (fun g member => whole g (by simp [member]))]
      simp
  intro fs p whole started
  simpa using all fs [] p [] whole started

end Framing

import RtThread.CBuffer
import Mathlib.Data.List.Forall2

/-! The arguments of a command (msh_split in msh.c): blanks in the line become the ends of strings. -/
namespace RtThread.Msh
open CBuffer

abbrev Text := List UInt8

def finshArgMax : Nat := 10

def isBlank (c : UInt8) : Bool := c == 0x20 || c == 0x09

/-- `cmd`, `ptr` as an index in it, and `position`, which is counted on its own. -/
structure Cursor where
  cmd : Nat → UInt8
  ptr : Nat
  position : Nat

def Cursor.advance (s : Cursor) : Cursor := { s with ptr := s.ptr + 1, position := s.position + 1 }

/- Only the text of `length` characters and its terminator are accessed: anything else is `none`. -/

def load (length : Nat) (cmd : Nat → UInt8) (i : Nat) : Option UInt8 := if i ≤ length then some (cmd i) else none

def store (length : Nat) (cmd : Nat → UInt8) (i : Nat) (c : UInt8) : Option (Nat → UInt8) :=
  if i ≤ length then some (Function.update cmd i c) else none

def cstr (length : Nat) (cmd : Nat → UInt8) (i : Nat) : Option Text :=
  (find 0 cmd i (length + 1 - i)).map (fun stop => slice cmd i (stop - i))

def stripBlank (length : Nat) (s : Cursor) : Option Cursor :=
  (load length s.cmd s.ptr).bind (fun c =>
    if _more : isBlank c = true ∧ s.position < length then
      (store length s.cmd s.ptr 0).bind (fun cmd => stripBlank length (Cursor.advance { s with cmd := cmd }))
    else some s)
termination_by length - s.position
decreasing_by simp only [Cursor.advance]; lia

def skipString (length : Nat) (s : Cursor) : Option Cursor :=
  (load length s.cmd s.ptr).bind (fun c =>
    if _more : c ≠ 0x22 ∧ s.position < length then
      if c = 0x5c then
        (load length s.cmd (s.ptr + 1)).bind (fun d =>
          if d = 0x22 then skipString length s.advance.advance else skipString length s.advance)
      else skipString length s.advance
    else some s)
termination_by length - s.position
decreasing_by all_goals simp only [Cursor.advance]; lia

def skipWord (length : Nat) (s : Cursor) : Option Cursor :=
  (load length s.cmd s.ptr).bind (fun c =>
    if _more : isBlank c = false ∧ s.position < length then skipWord length s.advance else some s)
termination_by length - s.position
decreasing_by simp only [Cursor.advance]; lia

/-- With `argv[0]` to `argv[argc - 1]`, and what has been printed. -/
structure Split where
  cursor : Cursor
  argv : List Nat
  printed : List Text

def tooMany : Text := "Too many args ! We only Use:\n".toList.map (fun c => UInt8.ofNat c.toNat)

/-- One turn of the loop, which is the last one where it breaks. -/
def splitTurn (length : Nat) (s : Split) : Option (Bool × Split) :=
  (stripBlank length s.cursor).bind (fun cursor =>
    if s.argv.length ≥ finshArgMax then
      (s.argv.mapM (cstr length cursor.cmd)).map (fun args =>
        (false, ⟨cursor, s.argv, s.printed ++ [tooMany] ++ args⟩))
    else if cursor.position ≥ length then some (false, { s with cursor := cursor })
    else
      (load length cursor.cmd cursor.ptr).bind (fun c =>
        if c = 0x22 then
          (skipString length cursor.advance).bind (fun stop =>
            let argv := s.argv ++ [cursor.advance.ptr]
            if stop.position ≥ length then some (false, { s with cursor := stop, argv := argv })
            else
              (store length stop.cmd stop.ptr 0).map (fun cmd =>
                (true, { s with cursor := Cursor.advance { stop with cmd := cmd }, argv := argv })))
        else
          (skipWord length cursor).map (fun stop =>
            (decide (stop.position < length), { s with cursor := stop, argv := s.argv ++ [cursor.ptr] }))))

def splitLoop (length : Nat) : Nat → Split → Option Split
  | 0, s => if s.cursor.position < length then none else some s
  | fuel + 1, s =>
    if s.cursor.position < length then
      (splitTurn length s).bind (fun r => if r.1 then splitLoop length fuel r.2 else some r.2)
    else some s

def mshSplit (fuel length : Nat) (cmd : Nat → UInt8) : Option Split :=
  splitLoop length fuel ⟨⟨cmd, 0, 0⟩, [], []⟩

/- The tokens of a text. -/

/-- A token behind its opening quote, and what is behind the closing one. -/
def quoted : Text → Text × Option Text
  | [] => ([], none)
  | [c] => if c = 0x22 then ([], some []) else ([c], none)
  | c :: d :: rest =>
    if c = 0x22 then ([], some (d :: rest))
    else if c = 0x5c ∧ d = 0x22 then (c :: d :: (quoted rest).1, (quoted rest).2)
    else (c :: (quoted (d :: rest)).1, (quoted (d :: rest)).2)

theorem quoted_shorter (text : Text) : ∀ behind, (quoted text).2 = some behind → behind.length < text.length := by
  fun_induction quoted text with
  | case1 => simp
  | case2 => simp
  | case3 => simp
  | case4 d rest => simp
  | case5 c d rest _ _ ih =>
    intro behind closed
    have shorter := ih behind closed
    simp only [List.length_cons]
    lia
  | case6 c d rest _ _ ih =>
    intro behind closed
    have shorter := ih behind closed
    simp only [List.length_cons] at *
    lia

def tokens (text : Text) : List Text :=
  match text with
  | [] => []
  | c :: rest =>
    if isBlank c then tokens rest
    else if c = 0x22 then
      match _closed : (quoted rest).2 with
      | none => [(quoted rest).1]
      | some behind => (quoted rest).1 :: tokens behind
    else
      (c :: rest.takeWhile (fun c => !isBlank c)) :: tokens (rest.dropWhile (fun c => !isBlank c))
termination_by text.length
decreasing_by
  · simp
  · have shorter := quoted_shorter rest behind _closed
    simp only [List.length_cons]
    lia
  · have shorter := (List.dropWhile_sublist (fun c => !isBlank c) (l := rest)).length_le
    simp only [List.length_cons]
    lia

variable {length : Nat} {cmd cmd' : Nat → UInt8} {p a : Nat} {text tok rest : Text}

/- Strings in the memory. -/

def Holds (cmd : Nat → UInt8) : Nat → Text → Prop
  | p, [] => cmd p = 0
  | p, c :: rest => cmd p = c ∧ Holds cmd (p + 1) rest

def Reads (cmd : Nat → UInt8) : Nat → Text → Prop
  | _, [] => True
  | p, c :: rest => cmd p = c ∧ Reads cmd (p + 1) rest

theorem holds_padded (text : Text) : Holds (padded 0 text) 0 text := by
  suffices all : ∀ rest before, text = before ++ rest → Holds (padded 0 text) before.length rest from
    all text [] rfl
  intro rest
  induction rest with
  | nil =>
    rintro before rfl
    exact padded_outside (by simp)
  | cons c rest ih =>
    rintro before rfl
    refine ⟨by simp [padded], ?_⟩
    have tail := ih (before ++ [c]) (by simp)
    rwa [List.length_append] at tail

theorem Holds.frame (holds : Holds cmd p text) (same : ∀ i, p ≤ i → cmd' i = cmd i) : Holds cmd' p text := by
  induction text generalizing p with
  | nil => exact (same p (Nat.le_refl p)).trans holds
  | cons c rest ih =>
    exact ⟨(same p (Nat.le_refl p)).trans holds.1, ih holds.2 fun i behind => same i (by lia)⟩

theorem Reads.frame (reads : Reads cmd p text) (same : ∀ i, p ≤ i → i < p + text.length → cmd' i = cmd i) :
    Reads cmd' p text := by
  induction text generalizing p with
  | nil => trivial
  | cons c rest ih =>
    simp only [List.length_cons] at same
    exact ⟨(same p (Nat.le_refl p) (by lia)).trans reads.1,
      ih reads.2 fun i behind before => same i (by lia) (by lia)⟩

theorem holds_append : Holds cmd p (tok ++ rest) ↔ Reads cmd p tok ∧ Holds cmd (p + tok.length) rest := by
  induction tok generalizing p with
  | nil => simp [Reads]
  | cons c tok ih =>
    have place : p + 1 + tok.length = p + (c :: tok).length := by
      simp only [List.length_cons]
      lia
    rw [List.cons_append, Holds, Reads, ih, place, and_assoc]

theorem holds_iff : Holds cmd p tok ↔ Reads cmd p tok ∧ cmd (p + tok.length) = 0 := by
  have whole : Holds cmd p (tok ++ []) ↔ Reads cmd p tok ∧ Holds cmd (p + tok.length) [] := holds_append
  rwa [List.append_nil] at whole

theorem Holds.cstr (holds : Holds cmd p text) (plain : 0 ∉ text) (inside : p + text.length ≤ length) :
    cstr length cmd p = some text := by
  have found : find 0 cmd p (length + 1 - p) = some (p + text.length) ∧ slice cmd p text.length = text := by
    induction text generalizing p with
    | nil =>
      have some_ : length + 1 - p = length - p + 1 := by
        simp only [List.length_nil] at inside
        lia
      have zero : cmd p = 0 := holds
      exact ⟨by rw [some_, find, if_pos zero]; rfl, rfl⟩
    | cons c rest ih =>
      simp only [List.mem_cons, not_or, List.length_cons] at plain inside
      obtain ⟨stop, chars⟩ := ih holds.2 plain.2 (by lia)
      have some_ : length + 1 - p = length + 1 - (p + 1) + 1 := by lia
      have go : ¬ cmd p = 0 := by
        rw [holds.1]
        exact fun zero => plain.1 zero.symm
      constructor
      · rw [some_, find, if_neg go, stop, List.length_cons]
        congr 1
        lia
      · rw [slice, List.length_cons, List.range_succ_eq_map, List.map_cons, List.map_map, Nat.add_zero, holds.1]
        congr 1
        refine Eq.trans ?_ chars
        apply List.map_congr_left
        intro k _
        simp only [Function.comp]
        congr 1
        lia
  rw [Msh.cstr, found.1, Option.map_some, Nat.add_sub_cancel_left, found.2]

/- The inner loops. -/

/-- Between `p` and `q` there is nothing but ends of strings, and the rest is as it was. -/
structure Stripped (cmd cmd' : Nat → UInt8) (p q : Nat) : Prop where
  order : p ≤ q
  zeros : ∀ i, p ≤ i → i < q → cmd' i = 0
  others : ∀ i, i < p ∨ q ≤ i → cmd' i = cmd i

theorem stripBlank_step (inside : p ≤ length) : stripBlank length ⟨cmd, p, p⟩ =
    if isBlank (cmd p) = true ∧ p < length then stripBlank length ⟨Function.update cmd p 0, p + 1, p + 1⟩
    else some ⟨cmd, p, p⟩ := by
  rw [stripBlank, load, if_pos inside, Option.bind_some, store, if_pos inside]
  split <;> rfl

theorem skipWord_step (inside : p ≤ length) : skipWord length ⟨cmd, p, p⟩ =
    if isBlank (cmd p) = false ∧ p < length then skipWord length ⟨cmd, p + 1, p + 1⟩
    else some ⟨cmd, p, p⟩ := by
  rw [skipWord, load, if_pos inside, Option.bind_some]
  split <;> rfl

/-- Two characters at once only where the second one is a quote, so that the text does not end before it. -/
theorem skipString_step (inside : p ≤ length) : skipString length ⟨cmd, p, p⟩ =
    if cmd p ≠ 0x22 ∧ p < length then
      if cmd p = 0x5c ∧ cmd (p + 1) = 0x22 then skipString length ⟨cmd, p + 2, p + 2⟩
      else skipString length ⟨cmd, p + 1, p + 1⟩
    else some ⟨cmd, p, p⟩ := by
  rw [skipString, load, if_pos inside, Option.bind_some]
  by_cases more : cmd p ≠ 0x22 ∧ p < length
  · have next : p + 1 ≤ length := more.2
    rw [dif_pos more, if_pos more, load, if_pos next, Option.bind_some]
    by_cases escape : cmd p = 0x5c
    · by_cases quote : cmd (p + 1) = 0x22
      · rw [if_pos escape, if_pos quote, if_pos ⟨escape, quote⟩]
        rfl
      · rw [if_pos escape, if_neg quote, if_neg (fun both => quote both.2)]
        rfl
    · rw [if_neg escape, if_neg (fun both => escape both.1)]
      rfl
  · rw [dif_neg more, if_neg more]

theorem strip_blanks (holds : Holds cmd p rest) (whole : p + rest.length = length) :
    ∃ cmd' q, stripBlank length ⟨cmd, p, p⟩ = some ⟨cmd', q, q⟩ ∧ Stripped cmd cmd' p q ∧
      q + (rest.dropWhile isBlank).length = length ∧ Holds cmd' q (rest.dropWhile isBlank) := by
  induction rest generalizing cmd p with
  | nil =>
    have end_ : ¬ p < length := by simp at whole; lia
    exact ⟨cmd, p, by rw [stripBlank_step (by lia), if_neg (fun both => end_ both.2)],
      ⟨Nat.le_refl p, fun i _ _ => by lia, fun _ _ => rfl⟩, whole, holds⟩
  | cons c rest ih =>
    rw [List.length_cons] at whole
    rw [stripBlank_step (by lia), holds.1, List.dropWhile_cons]
    by_cases blank : isBlank c = true
    · have cut : Holds (Function.update cmd p 0) (p + 1) rest :=
        holds.2.frame fun i behind => Function.update_of_ne (by lia) _ _
      obtain ⟨cmd', q, done, ⟨order, zeros, others⟩, all, after⟩ := ih cut (by lia)
      rw [if_pos ⟨blank, by lia⟩, if_pos blank]
      refine ⟨cmd', q, done, ⟨by lia, fun i low high => ?_, fun i apart => ?_⟩, all, after⟩
      · rcases Nat.eq_or_lt_of_le low with rfl | behind
        · rw [others p (by lia), Function.update_self]
        · exact zeros i behind high
      · rw [others i (by lia), Function.update_of_ne (by lia)]
    · rw [if_neg (fun both => blank both.1), if_neg blank]
      exact ⟨cmd, p, rfl, ⟨Nat.le_refl p, fun i _ _ => by lia, fun _ _ => rfl⟩, whole, holds⟩

theorem skip_word (holds : Holds cmd p rest) (whole : p + rest.length = length) :
    ∃ q, skipWord length ⟨cmd, p, p⟩ = some ⟨cmd, q, q⟩ ∧
      q = p + (rest.takeWhile (fun c => !isBlank c)).length := by
  induction rest generalizing p with
  | nil =>
    have end_ : ¬ p < length := by simp at whole; lia
    exact ⟨p, by rw [skipWord_step (by lia), if_neg (fun both => end_ both.2)], rfl⟩
  | cons c rest ih =>
    rw [List.length_cons] at whole
    rw [skipWord_step (by lia), holds.1, List.takeWhile_cons]
    cases blank : isBlank c with
    | true => exact ⟨p, by rw [if_neg (by simp)], rfl⟩
    | false =>
      obtain ⟨q, done, place⟩ := ih holds.2 (by lia)
      refine ⟨q, by rw [if_pos ⟨rfl, by lia⟩, done], ?_⟩
      simp only [Bool.not_false, if_true, List.length_cons]
      lia

theorem skip_string (holds : Holds cmd p rest) (whole : p + rest.length = length) :
    ∃ q, skipString length ⟨cmd, p, p⟩ = some ⟨cmd, q, q⟩ ∧ q = p + (quoted rest).1.length := by
  fun_induction quoted rest generalizing p with
  | case1 =>
    have end_ : ¬ p < length := by simp at whole; lia
    exact ⟨p, by rw [skipString_step (by lia), if_neg (fun both => end_ both.2)], rfl⟩
  | case2 =>
    simp only [List.length_cons, List.length_nil] at whole
    exact ⟨p, by rw [skipString_step (by lia), if_neg (fun both => both.1 holds.1)], rfl⟩
  | case3 c other =>
    simp only [List.length_cons, List.length_nil] at whole
    have zero : cmd (p + 1) = 0 := holds.2
    refine ⟨p + 1, ?_, rfl⟩
    rw [skipString_step (by lia), holds.1, zero, if_pos ⟨other, by lia⟩, if_neg (by simp),
      skipString_step (by lia), if_neg (by lia)]
  | case4 d rest =>
    simp only [List.length_cons] at whole
    exact ⟨p, by rw [skipString_step (by lia), if_neg (fun both => both.1 holds.1)], rfl⟩
  | case5 c d rest other escape ih =>
    simp only [List.length_cons] at whole
    obtain ⟨q, done, place⟩ := ih holds.2.2 (by lia)
    refine ⟨q, ?_, by simp only [List.length_cons]; lia⟩
    rw [skipString_step (by lia), holds.1, holds.2.1, if_pos ⟨other, by lia⟩, if_pos escape]
    exact done
  | case6 c d rest other plain ih =>
    simp only [List.length_cons] at whole
    obtain ⟨q, done, place⟩ := ih holds.2 (by simp only [List.length_cons]; lia)
    refine ⟨q, ?_, by simp only [List.length_cons]; lia⟩
    rw [skipString_step (by lia), holds.1, holds.2.1, if_pos ⟨other, by lia⟩, if_neg plain]
    exact done

theorem quoted_open (rest : Text) (unclosed : (quoted rest).2 = none) : (quoted rest).1 = rest := by
  fun_induction quoted rest with
  | case1 => rfl
  | case2 => cases unclosed
  | case3 => rfl
  | case4 => cases unclosed
  | case5 c d rest _ _ ih => rw [ih unclosed]
  | case6 c d rest _ _ ih => rw [ih unclosed]

theorem quoted_closed (rest : Text) {behind : Text} (closed : (quoted rest).2 = some behind) :
    rest = (quoted rest).1 ++ 0x22 :: behind := by
  fun_induction quoted rest with
  | case1 => cases closed
  | case2 => simpa using closed
  | case3 => cases closed
  | case4 d rest => simpa using closed
  | case5 c d rest _ _ ih => rw [List.cons_append, List.cons_append, ← ih closed]
  | case6 c d rest _ _ ih => rw [List.cons_append, ← ih closed]

/- Tokens. -/

theorem tokens_nil : tokens [] = [] := by rw [tokens]

theorem tokens_strip (text : Text) : tokens text = tokens (text.dropWhile isBlank) := by
  induction text with
  | nil => rfl
  | cons c rest ih =>
    rw [List.dropWhile_cons]
    split
    · rename_i blank
      rw [tokens, if_pos blank, ih]
    · rfl

theorem tokens_open {rest : Text} (unclosed : (quoted rest).2 = none) :
    tokens (0x22 :: rest) = [(quoted rest).1] := by
  rw [tokens, if_neg (by decide), if_pos rfl]
  split
  · rfl
  · rename_i closed
    cases unclosed.symm.trans closed

theorem tokens_closed {rest behind : Text} (closed : (quoted rest).2 = some behind) :
    tokens (0x22 :: rest) = (quoted rest).1 :: tokens behind := by
  rw [tokens, if_neg (by decide), if_pos rfl]
  split
  · rename_i unclosed
    cases unclosed.symm.trans closed
  · rename_i other same
    cases closed.symm.trans same
    rfl

theorem tokens_word {c : UInt8} {rest : Text} (word : isBlank c = false) (plain : c ≠ 0x22) :
    tokens (c :: rest) = (c :: rest).takeWhile (fun c => !isBlank c) ::
      tokens ((c :: rest).dropWhile (fun c => !isBlank c)) := by
  rw [tokens, if_neg (by simp [word]), if_neg plain]
  simp [word]

/- Turns. -/

/-- A token in front of `p`, which ends there or with a blank that is going to be overwritten. -/
structure Cut (cmd : Nat → UInt8) (p a : Nat) (tok : Text) : Prop where
  plain : 0 ∉ tok
  reads : Reads cmd a tok
  before : a + tok.length ≤ p
  end_ : cmd (a + tok.length) = 0 ∨ a + tok.length = p ∧ isBlank (cmd p) = true

/-- A string that has its end at `p` or in front of it. -/
structure Finished (p : Nat) (cmd : Nat → UInt8) (a : Nat) (tok : Text) : Prop where
  plain : 0 ∉ tok
  holds : Holds cmd a tok
  inside : a + tok.length ≤ p

theorem Finished.cut {q : Nat} (string : Finished p cmd a tok) (later : p ≤ q)
    (same : ∀ i, i ≤ p → cmd' i = cmd i) : Cut cmd' q a tok := by
  obtain ⟨reads, zero⟩ := holds_iff.mp string.holds
  have inside := string.inside
  refine ⟨string.plain, reads.frame fun i _ below => same i (by lia), by lia, .inl ?_⟩
  rw [same _ inside, zero]

theorem Finished.weaken {q : Nat} (string : Finished p cmd a tok) (later : p ≤ q) : Finished q cmd a tok :=
  ⟨string.plain, string.holds, Nat.le_trans string.inside later⟩

theorem Cut.strip {q : Nat} (cut : Cut cmd p a tok) (stripped : Stripped cmd cmd' p q)
    (stop : isBlank (cmd' q) = false) : Finished q cmd' a tok := by
  obtain ⟨plain, reads, before, end_⟩ := cut
  obtain ⟨order, zeros, others⟩ := stripped
  refine ⟨plain, holds_iff.mpr ⟨reads.frame fun i _ below => others i (by lia), ?_⟩, by lia⟩
  rcases Nat.lt_or_ge (a + tok.length) p with inner | here
  · rw [others _ (.inl inner)]
    exact end_.resolve_right (by lia)
  · rcases Nat.lt_or_ge (a + tok.length) q with zeroed | last
    · exact zeros _ here zeroed
    · have same : a + tok.length = q := by lia
      rw [same, ← others q (.inr (Nat.le_refl q))] at end_
      rw [same]
      refine end_.resolve_right fun blank => ?_
      have here_ : p = q := by lia
      rw [here_, ← others q (.inr (Nat.le_refl q)), stop] at blank
      cases blank.2

/-- The head of the loop: what is in front of `p` has become the tokens `done`. -/
structure Inv (text : Text) (length : Nat) (s : Split) (cmd : Nat → UInt8) (p : Nat) (rest : Text)
    (done : List Text) : Prop where
  cursor : s.cursor = ⟨cmd, p, p⟩
  whole : p + rest.length = length
  holds : Holds cmd p rest
  plain : 0 ∉ rest
  tokens : tokens text = done ++ tokens rest
  few : done.length ≤ finshArgMax
  argv : List.Forall₂ (Cut cmd p) s.argv done

/-- The arguments are the first tokens of the text. -/
structure Splits (text : Text) (length : Nat) (s : Split) : Prop where
  position : s.cursor.position ≤ length
  argv : s.argv.map (cstr length s.cursor.cmd) = ((tokens text).take finshArgMax).map some

variable {argv : List Nat} {done : List Text} {s : Split}

theorem finished_cstr (strings : List.Forall₂ (Finished p cmd) argv done) (inside : p ≤ length) :
    argv.map (cstr length cmd) = done.map some := by
  induction strings with
  | nil => rfl
  | cons one _ ih => rw [List.map_cons, List.map_cons, ih, one.holds.cstr one.plain (one.weaken inside).inside]

theorem finished_mapM (strings : List.Forall₂ (Finished p cmd) argv done) (inside : p ≤ length) :
    argv.mapM (cstr length cmd) = some done := by
  induction strings with
  | nil => rfl
  | cons one _ ih =>
    rw [List.mapM_cons, ih, one.holds.cstr one.plain (one.weaken inside).inside]
    rfl

theorem splits_of (strings : List.Forall₂ (Finished p cmd) argv done) (inside : p ≤ length)
    (all : done = (tokens text).take finshArgMax) (printed : List Text) :
    Splits text length ⟨⟨cmd, p, p⟩, argv, printed⟩ :=
  ⟨inside, by rw [← all]; exact finished_cstr strings inside⟩

/-- Behind the blanks. -/
structure Ready (text : Text) (length : Nat) (argv : List Nat) (cmd : Nat → UInt8) (p : Nat) (rest : Text)
    (done : List Text) : Prop where
  whole : p + rest.length = length
  holds : Holds cmd p rest
  plain : 0 ∉ rest
  tokens : tokens text = done ++ tokens rest
  few : done.length ≤ finshArgMax
  argv : List.Forall₂ (Finished p cmd) argv done

theorem Inv.strip (inv : Inv text length s cmd p rest done) :
    ∃ cmd' q, stripBlank length s.cursor = some ⟨cmd', q, q⟩ ∧
      Ready text length s.argv cmd' q (rest.dropWhile isBlank) done := by
  obtain ⟨cursor, whole, holds, plain, toks, few, argv⟩ := inv
  obtain ⟨cmd', q, taken, stripped, all, after⟩ := strip_blanks holds whole
  have stop : isBlank (cmd' q) = false := by
    have head := List.head?_dropWhile_not isBlank rest
    cases left : rest.dropWhile isBlank with
    | nil =>
      rw [left] at after
      have zero : cmd' q = 0 := after
      rw [zero]
      rfl
    | cons c tail =>
      rw [left] at after head
      rw [after.1]
      exact head
  refine ⟨cmd', q, by rw [cursor, taken], all, after, ?_, ?_, few, ?_⟩
  · exact fun zero => plain ((List.dropWhile_sublist _).subset zero)
  · rw [toks, tokens_strip rest]
  · exact argv.imp fun a tok cut => cut.strip stripped stop

/-- Where the loop goes on there is less left of the text. -/
structure Progress (text : Text) (length : Nat) (rest : Text) (r : Bool × Split) : Prop where
  stops : r.1 = false → Splits text length r.2
  goes : r.1 = true → ∃ cmd p rest' done, Inv text length r.2 cmd p rest' done ∧ rest'.length < rest.length

theorem Ready.string (ready : Ready text length argv cmd p (0x22 :: rest) done) (room : done.length < finshArgMax)
    (printed : List Text) :
    ∃ r, (skipString length ⟨cmd, p + 1, p + 1⟩).bind (fun stop =>
        let argv := argv ++ [p + 1]
        if stop.position ≥ length then some (false, (⟨stop, argv, printed⟩ : Split))
        else
          (store length stop.cmd stop.ptr 0).map (fun cmd =>
            (true, ⟨Cursor.advance { stop with cmd := cmd }, argv, printed⟩))) = some r ∧
      Progress text length (0x22 :: rest) r := by
  obtain ⟨whole, holds, plain, toks, few, strings⟩ := ready
  rw [List.length_cons] at whole
  simp only [List.mem_cons, not_or] at plain
  obtain ⟨q, taken, place⟩ := skip_string holds.2 (show p + 1 + rest.length = length by lia)
  rw [taken, Option.bind_some]
  cases closing : (quoted rest).2 with
  | none =>
    have all := quoted_open rest closing
    rw [all] at place
    have last : Finished length cmd (p + 1) rest := ⟨plain.2, holds.2, by lia⟩
    have strings' : List.Forall₂ (Finished length cmd) (argv ++ [p + 1]) (done ++ [rest]) :=
      List.rel_append (strings.imp fun a tok string => string.weaken (by lia)) (.cons last .nil)
    have end_ : q = length := by lia
    refine ⟨_, by simp only [if_pos (show q ≥ length by lia)]; rfl, fun _ => ?_, fun more => by cases more⟩
    rw [end_]
    apply splits_of strings' (Nat.le_refl length)
    have all_ : Msh.tokens text = done ++ [rest] := by rw [toks, tokens_open closing, all]
    rw [all_, List.take_of_length_le (by simp; lia)]
  | some behind =>
    have parts := quoted_closed rest closing
    have sizes := congrArg List.length parts
    rw [List.length_append, List.length_cons] at sizes
    have text_ : Holds cmd (p + 1) ((quoted rest).1 ++ 0x22 :: behind) := parts ▸ holds.2
    obtain ⟨reads, quote, after⟩ := holds_append.mp text_
    rw [← place] at quote after
    have token : 0 ∉ (quoted rest).1 := fun zero => plain.2 (parts ▸ List.mem_append_left _ zero)
    have tail : 0 ∉ behind := fun zero => plain.2 (parts ▸ List.mem_append_right _ (List.mem_cons_of_mem _ zero))
    have more : ¬ q ≥ length := by lia
    refine ⟨(true, ⟨⟨Function.update cmd q 0, q + 1, q + 1⟩, argv ++ [p + 1], printed⟩), ?_,
      ⟨fun stops => (by cases stops), fun _ => ?_⟩⟩
    · simp only [if_neg more, store, if_pos (show q ≤ length by lia), Option.map_some]
      rfl
    refine ⟨Function.update cmd q 0, q + 1, behind, done ++ [(quoted rest).1],
      ⟨rfl, by lia, ?_, tail, ?_, ?_, ?_⟩, ?_⟩
    · exact after.frame fun i later => Function.update_of_ne (by lia) _ _
    · rw [toks, tokens_closed closing, List.append_assoc]
      rfl
    · rw [List.length_append]
      exact room
    · refine List.rel_append (strings.imp fun a tok string => ?_) (.cons ?_ .nil)
      · exact string.cut (by lia) fun i below => Function.update_of_ne (by lia) _ _
      · refine ⟨token, reads.frame fun i _ below => Function.update_of_ne (by lia) _ _, by lia, .inl ?_⟩
        rw [← place, Function.update_self]
    · rw [List.length_cons]
      lia

theorem Ready.word {c : UInt8} (ready : Ready text length argv cmd p (c :: rest) done)
    (room : done.length < finshArgMax) (word : isBlank c = false) (other : c ≠ 0x22) (printed : List Text) :
    ∃ r, (skipWord length ⟨cmd, p, p⟩).map (fun stop =>
        (decide (stop.position < length), (⟨stop, argv ++ [p], printed⟩ : Split))) = some r ∧
      Progress text length (c :: rest) r := by
  obtain ⟨whole, holds, plain, toks, few, strings⟩ := ready
  obtain ⟨q, taken, place⟩ := skip_word holds whole
  obtain ⟨tok, token⟩ : ∃ tok, tok = (c :: rest).takeWhile (fun c => !isBlank c) := ⟨_, rfl⟩
  obtain ⟨behind, left⟩ : ∃ behind, behind = (c :: rest).dropWhile (fun c => !isBlank c) := ⟨_, rfl⟩
  have parts : c :: rest = tok ++ behind := by rw [token, left, List.takeWhile_append_dropWhile]
  have some_ : 0 < tok.length := by rw [token, List.takeWhile_cons, word]; exact Nat.succ_pos _
  rw [tokens_word word other, ← token, ← left] at toks
  rw [← token] at place
  have sizes := congrArg List.length parts
  rw [List.length_append] at sizes
  have text_ : Holds cmd p (tok ++ behind) := parts ▸ holds
  obtain ⟨reads, after⟩ := holds_append.mp text_
  rw [← place] at after
  have nonzero : 0 ∉ tok := fun zero => plain (parts ▸ List.mem_append_left _ zero)
  have tail : 0 ∉ behind := fun zero => plain (parts ▸ List.mem_append_right _ zero)
  refine ⟨_, by rw [taken]; rfl, fun stops => ?_, fun goes => ?_⟩
  · have end_ : q = length := by
      have ended := of_decide_eq_false stops
      simp only at ended
      lia
    have nothing : behind = [] := List.eq_nil_of_length_eq_zero (by lia)
    have last : Finished length cmd p tok := by
      rw [nothing] at text_
      exact ⟨nonzero, by rwa [List.append_nil] at text_, by lia⟩
    have strings' : List.Forall₂ (Finished length cmd) (argv ++ [p]) (done ++ [tok]) :=
      List.rel_append (strings.imp fun a tok string => string.weaken (by lia)) (.cons last .nil)
    rw [end_]
    apply splits_of strings' (Nat.le_refl length)
    have all : Msh.tokens text = done ++ [tok] := by rw [toks, nothing, tokens_nil]
    rw [all, List.take_of_length_le (by simp; lia)]
  · have more : q < length := of_decide_eq_true goes
    -- it is a blank that ends the token, and it is not overwritten yet
    have blank : isBlank (cmd q) = true := by
      have head := List.head?_dropWhile_not (fun c => !isBlank c) (c :: rest)
      rw [← left] at head
      cases behind with
      | nil =>
        simp only [List.length_nil] at sizes
        lia
      | cons d more =>
        rw [after.1]
        simpa using head
    refine ⟨cmd, q, behind, done ++ [tok], ⟨rfl, by lia, after, tail, ?_, ?_, ?_⟩, by lia⟩
    · rw [toks, List.append_assoc]
      rfl
    · rw [List.length_append]
      exact room
    · refine List.rel_append (strings.imp fun a tok string => ?_) (.cons ?_ .nil)
      · exact string.cut (by lia) fun _ _ => rfl
      · exact ⟨nonzero, reads, by lia, .inr ⟨by lia, blank⟩⟩

theorem Progress.mono {more : Text} {r : Bool × Split} (progress : Progress text length rest r)
    (shorter : rest.length ≤ more.length) : Progress text length more r := by
  refine ⟨progress.stops, fun goes => ?_⟩
  obtain ⟨cmd, p, rest', done, inv, less⟩ := progress.goes goes
  exact ⟨cmd, p, rest', done, inv, by lia⟩

theorem Inv.turn (inv : Inv text length s cmd p rest done) :
    ∃ r, splitTurn length s = some r ∧ Progress text length rest r := by
  obtain ⟨cmd', q, taken, ready⟩ := inv.strip
  have shorter := (List.dropWhile_sublist isBlank (l := rest)).length_le
  have head := List.head?_dropWhile_not isBlank rest
  have inside : q ≤ length := ready.whole ▸ Nat.le_add_right _ _
  have count := ready.argv.length_eq
  rw [splitTurn, taken, Option.bind_some]
  by_cases full : s.argv.length ≥ finshArgMax
  · have ten : done.length = finshArgMax := by
      have few := ready.few
      lia
    rw [if_pos full, finished_mapM ready.argv inside]
    refine ⟨_, rfl, fun _ => ?_, fun goes => by cases goes⟩
    apply splits_of ready.argv inside
    rw [ready.tokens, ← ten, List.take_left]
  · have room : done.length < finshArgMax := by lia
    rw [if_neg full]
    generalize rest.dropWhile isBlank = left at *
    cases left with
    | nil =>
      have end_ : q = length := ready.whole
      rw [if_pos (by simp only; lia)]
      refine ⟨_, rfl, fun _ => ?_, fun goes => by cases goes⟩
      apply splits_of ready.argv inside
      rw [ready.tokens, tokens_nil, List.append_nil, List.take_of_length_le (by lia)]
    | cons c left =>
      have whole := ready.whole
      rw [List.length_cons] at whole
      rw [if_neg (by simp only; lia), load, if_pos inside, Option.bind_some]
      simp only [ready.holds.1]
      by_cases quote : c = 0x22
      · subst quote
        rw [if_pos rfl]
        obtain ⟨r, done_, progress⟩ := ready.string room s.printed
        exact ⟨r, done_, progress.mono shorter⟩
      · rw [if_neg quote]
        obtain ⟨r, done_, progress⟩ := ready.word room head quote s.printed
        exact ⟨r, done_, progress.mono shorter⟩

theorem Inv.ends (inv : Inv text length s cmd p rest done) (ended : ¬ s.cursor.position < length) :
    Splits text length s := by
  obtain ⟨cursor, argv, printed⟩ := s
  obtain ⟨here, whole, holds, plain, toks, few, strings⟩ := inv
  simp only at here strings ended
  rw [here] at ended ⊢
  have nothing : rest = [] := List.eq_nil_of_length_eq_zero (by simp only at ended; lia)
  subst nothing
  have zero : cmd p = 0 := holds
  have stop : isBlank (cmd p) = false := by
    rw [zero]
    rfl
  have same : Stripped cmd cmd p p := ⟨Nat.le_refl p, fun i _ _ => by lia, fun _ _ => rfl⟩
  have finished := strings.imp fun a tok cut => cut.strip same stop
  apply splits_of finished (Nat.le_of_eq whole)
  rw [toks, tokens_nil, List.append_nil, List.take_of_length_le few]

theorem Inv.loop {fuel : Nat} (inv : Inv text length s cmd p rest done) (enough : rest.length ≤ fuel) :
    ∃ s', splitLoop length fuel s = some s' ∧ Splits text length s' := by
  induction fuel generalizing s cmd p rest done with
  | zero =>
    have place := inv.whole
    have ended : ¬ s.cursor.position < length := by
      rw [inv.cursor]
      simp only
      lia
    exact ⟨s, by rw [splitLoop, if_neg ended], inv.ends ended⟩
  | succ fuel ih =>
    rw [splitLoop]
    by_cases more : s.cursor.position < length
    · obtain ⟨⟨goes, s'⟩, taken, progress⟩ := inv.turn
      rw [if_pos more, taken, Option.bind_some]
      cases goes with
      | false => exact ⟨s', rfl, progress.stops rfl⟩
      | true =>
        obtain ⟨cmd', q, rest', done', inv', shorter⟩ := progress.goes rfl
        exact ih inv' (by lia)
    · rw [if_neg more]
      exact ⟨s, rfl, inv.ends more⟩

/-- Within the text and its terminator, and with at most one turn for each character. -/
theorem msh_split_tokens {text : Text} (plain : 0 ∉ text) {fuel : Nat} (enough : text.length ≤ fuel) :
    ∃ s, mshSplit fuel text.length (padded 0 text) = some s ∧ Splits text text.length s := by
  have start : Inv text text.length ⟨⟨padded 0 text, 0, 0⟩, [], []⟩ (padded 0 text) 0 text [] :=
    ⟨rfl, Nat.zero_add _, holds_padded text, plain, rfl, Nat.zero_le _, .nil⟩
  exact start.loop enough

/-- `a  "b \"c"d`: three tokens, of which the second one has a quote in it. -/
def quotedLine : Text := [0x61, 0x20, 0x20, 0x22, 0x62, 0x20, 0x5c, 0x22, 0x63, 0x22, 0x64]

theorem msh_split_tokens_quoted : ∃ s, mshSplit 11 quotedLine.length (padded 0 quotedLine) = some s ∧
    Splits quotedLine quotedLine.length s :=
  msh_split_tokens (by decide) (by decide)

end RtThread.Msh

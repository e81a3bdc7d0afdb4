import Mathlib.Algebra.Order.Ring.Int
import Mathlib.Data.List.Basic
import Mathlib.Logic.Function.Basic

/-! rt_vsnprintf (kservice.c), with RT_PRINTF_PRECISION and without RT_PRINTF_LONGLONG and
RT_PRINTF_SPECIAL. The format and the strings are the bytes before the NUL, and are not in the buffer. -/
namespace RtThread.Printf

abbrev Text := List UInt8

def int32 (x : Int) : Int := Int.bmod x (2 ^ 32)

structure Flags where
  zeropad : Bool := false
  sign : Bool := false
  plus : Bool := false
  space : Bool := false
  left : Bool := false
  special : Bool := false
  large : Bool := false
  deriving DecidableEq

inductive Arg where
  | int (v : BitVec 32)
  | str (s : Option Text)
  | ptr (v : BitVec 32)

inductive Kind where
  | int | str | ptr
  deriving DecidableEq

def Arg.kind : Arg → Kind
  | .int _ => .int
  | .str _ => .str
  | .ptr _ => .ptr

/-! The output points. `put` stores a character and advances the cursor. -/
section Output
variable {O : Type} (put : O → UInt8 → O)

/-- `while (bound < n--)`. The distance to the bound is enough fuel. -/
def padLoop (c : UInt8) (bound : Int) : Nat → Int → O → Int × O
  | 0, n, out => (int32 (n - 1), out)
  | fuel + 1, n, out =>
    if bound < n then padLoop c bound fuel (n - 1) (put out c) else (int32 (n - 1), out)

def pad (c : UInt8) (bound n : Int) (out : O) : Int × O := padLoop put c bound (n - bound).toNat n out

def preLoop (c : UInt8) : Nat → Int → O → Int × O
  | 0, n, out => (int32 (n - 1), out)
  | fuel + 1, n, out =>
    if 0 < int32 (n - 1) then preLoop c fuel (int32 (n - 1)) (put out c) else (int32 (n - 1), out)

def prePad (c : UInt8) (n : Int) (out : O) : Int × O := preLoop put c (int32 (n - 1)).toNat n out

def digit (large : Bool) (d : Nat) : UInt8 :=
  ((if large then "0123456789ABCDEF" else "0123456789abcdef").toList.getD d '0').toUInt8

/-- The remainder and the quotient. -/
def divide (n base : Nat) : Nat × Nat := if base = 10 then (n % 10, n / 10) else (n % 16, n / 16)

/-- `tmp`, of 16 cells, from the last digit on. -/
def digitLoop (large : Bool) (base : Nat) : Nat → Nat → Text
  | 0, _ => []
  | cells + 1, n =>
    if n = 0 then [] else digit large (divide n base).1 :: digitLoop large base cells (divide n base).2

def getSign (num : BitVec 32) (flags : Flags) : UInt8 × BitVec 32 :=
  if flags.sign then
    if num.toInt < 0 then ('-'.toUInt8, -num)
    else if flags.plus then ('+'.toUInt8, num)
    else if flags.space then (' '.toUInt8, num)
    else (0, num)
  else (0, num)

def tmpDigits (num : BitVec 32) (base : Nat) (large : Bool) : Text :=
  if num = 0 then ['0'.toUInt8] else digitLoop large base 16 num.toNat

def printNumber (num : BitVec 32) (base : Nat) (s precision : Int) (type : Flags) (out : O) : O :=
  let zeropad := type.zeropad && !type.left
  let c := if zeropad then '0'.toUInt8 else ' '.toUInt8
  let sign := (getSign num type).1
  let tmp := tmpDigits (getSign num type).2 base type.large
  let i : Int := tmp.length
  let most := if precision < i then i else precision
  let size := int32 (s - most)
  let (size, out) :=
    if !zeropad && !type.left then
      pad put ' '.toUInt8 0 (if sign ≠ 0 ∧ 0 < size then int32 (size - 1) else size) out
    else (size, out)
  let (size, out) := if sign ≠ 0 then (int32 (size - 1), put out sign) else (size, out)
  let (size, out) := if !type.left then pad put c 0 size out else (size, out)
  let out := (pad put '0'.toUInt8 i most out).2
  let out := if precision ≠ 0 then tmp.reverse.foldl put out else out
  (pad put ' '.toUInt8 0 size out).2

def printChar (v : BitVec 32) (fieldWidth : Int) (flags : Flags) (out : O) : O :=
  let (fieldWidth, out) := if !flags.left then prePad put ' '.toUInt8 fieldWidth out else (fieldWidth, out)
  (prePad put ' '.toUInt8 fieldWidth (put out (UInt8.ofBitVec (v.setWidth 8)))).2

def printString (s : Option Text) (fieldWidth precision : Int) (flags : Flags) (out : O) : O :=
  let s := s.getD ("(NULL)".toList.map Char.toUInt8)
  let len := int32 s.length
  let len := if 0 < precision ∧ precision < len then precision else len
  let (fieldWidth, out) := if !flags.left then pad put ' '.toUInt8 len fieldWidth out else (fieldWidth, out)
  let out := (s.take len.toNat).foldl put out
  (pad put ' '.toUInt8 len fieldWidth out).2

def radix (c : UInt8) (flags : Flags) : Option (Nat × Flags) :=
  if c = 'o'.toUInt8 then some (8, flags)
  else if c = 'X'.toUInt8 then some (16, { flags with large := true })
  else if c = 'x'.toUInt8 then some (16, flags)
  else if c = 'd'.toUInt8 ∨ c = 'i'.toUInt8 then some (10, { flags with sign := true })
  else if c = 'u'.toUInt8 then some (10, flags)
  else none

def qualified (v : BitVec 32) (qualifier : UInt8) (flags : Flags) : BitVec 32 :=
  if qualifier = 'h'.toUInt8 then
    if flags.sign then (v.setWidth 16).signExtend 32 else (v.setWidth 16).setWidth 32
  else v

/-- The switch, at the character `c`. An argument of another type has no defined value: `none`. -/
def switch (c qualifier : UInt8) (flags : Flags) (fieldWidth precision : Int) (args : List Arg) (out : O) :
    Option (List Arg × O) :=
  if c = 'c'.toUInt8 then
    match args with
    | .int v :: args => some (args, printChar put v fieldWidth flags out)
    | _ => none
  else if c = 's'.toUInt8 then
    match args with
    | .str s :: args => some (args, printString put s fieldWidth precision flags out)
    | _ => none
  else if c = 'p'.toUInt8 then
    match args with
    | .ptr v :: args =>
      if fieldWidth = -1 then some (args, printNumber put v 16 8 precision { flags with zeropad := true } out)
      else some (args, printNumber put v 16 fieldWidth precision flags out)
    | _ => none
  else if c = '%'.toUInt8 then some (args, put out '%'.toUInt8)
  else
    match radix c flags with
    | some (base, flags) =>
      match args with
      | .int v :: args => some (args, printNumber put (qualified v qualifier flags) base fieldWidth precision flags out)
      | _ => none
    | none => some (args, put (put out '%'.toUInt8) c)

end Output

def isDigit (c : UInt8) : Bool := '0'.toUInt8 ≤ c && c ≤ '9'.toUInt8

def skipAtoi : Int → Text → Int × Text
  | i, c :: fmt => if isDigit c then skipAtoi (int32 (i * 10 + c.toNat - 48)) fmt else (i, c :: fmt)
  | i, [] => (i, [])

/-- A field width or a precision, as the format has it. -/
inductive Amount where
  | none
  | number (n : Int)
  | star
  deriving DecidableEq

def getFlags : Flags → Text → Flags × Text
  | flags, c :: fmt =>
    if c = '-'.toUInt8 then getFlags { flags with left := true } fmt
    else if c = '+'.toUInt8 then getFlags { flags with plus := true } fmt
    else if c = ' '.toUInt8 then getFlags { flags with space := true } fmt
    else if c = '#'.toUInt8 then getFlags { flags with special := true } fmt
    else if c = '0'.toUInt8 then getFlags { flags with zeropad := true } fmt
    else (flags, c :: fmt)
  | flags, [] => (flags, [])

def getAmount : Text → Amount × Text
  | c :: fmt =>
    if isDigit c then ((skipAtoi 0 (c :: fmt)).1 |> .number, (skipAtoi 0 (c :: fmt)).2)
    else if c = '*'.toUInt8 then (.star, fmt)
    else (.none, c :: fmt)
  | [] => (.none, [])

/-- A dot alone leaves -1, and the check for negative precisions makes it 0. -/
def getPrecision : Text → Amount × Text
  | c :: fmt =>
    if c = '.'.toUInt8 then
      match getAmount fmt with
      | (.none, fmt) => (.number (-1), fmt)
      | got => got
    else (.none, c :: fmt)
  | [] => (.none, [])

def getQualifier : Text → UInt8 × Text
  | c :: fmt => if c = 'h'.toUInt8 ∨ c = 'l'.toUInt8 then (c, fmt) else (0, c :: fmt)
  | [] => (0, [])

/-- What stands between a '%' and the character of the conversion, which is the first of `fmt`. -/
structure Directive where
  flags : Flags
  fieldWidth : Amount
  precision : Amount
  qualifier : UInt8
  fmt : Text
  deriving DecidableEq

def directive (fmt : Text) : Directive :=
  let flags := getFlags {} fmt
  let fieldWidth := getAmount flags.2
  let precision := getPrecision fieldWidth.2
  let qualifier := getQualifier precision.2
  ⟨flags.1, fieldWidth.1, precision.1, qualifier.1, qualifier.2⟩

/-- The field width, with the flags, and the arguments that are left. -/
def Directive.takeWidth (d : Directive) (args : List Arg) : Option (Int × Flags × List Arg) :=
  match d.fieldWidth with
  | .none => some (-1, d.flags, args)
  | .number n => some (n, d.flags, args)
  | .star =>
    match args with
    | .int v :: args =>
      if v.toInt < 0 then some (int32 (-v.toInt), { d.flags with left := true }, args)
      else some (v.toInt, d.flags, args)
    | _ => none

def Directive.takePrecision (d : Directive) (args : List Arg) : Option (Int × List Arg) :=
  match d.precision with
  | .none => some (-1, args)
  | .number n => some (max n 0, args)
  | .star =>
    match args with
    | .int v :: args => some (max v.toInt 0, args)
    | _ => none

section Loop
variable {O : Type} (put : O → UInt8 → O)

/-- From behind a '%' up to the `++fmt` of the for; at the NUL this one undoes the `--fmt`. -/
def convert (fmt : Text) (args : List Arg) (out : O) : Option (Text × List Arg × O) :=
  let d := directive fmt
  (d.takeWidth args).bind (fun w => (d.takePrecision w.2.2).bind (fun p =>
    match d.fmt with
    | c :: fmt => (switch put c d.qualifier w.2.1 w.1 p.1 p.2 out).map (fun r => (fmt, r.1, r.2))
    | [] => some ([], p.2, put out '%'.toUInt8)))

/-- A turn of the for takes a character off the format, so its length is enough fuel. -/
def formatLoop : Nat → Text → List Arg → O → Option O
  | _, [], _, out => some out
  | 0, _ :: _, _, _ => none
  | fuel + 1, c :: fmt, args, out =>
    if c ≠ '%'.toUInt8 then formatLoop fuel fmt args (put out c)
    else (convert put fmt args out).bind (fun r => formatLoop fuel r.1 r.2.1 r.2.2)

end Loop

/-- `str` and `end`, with the memory. -/
structure Sink where
  mem : Nat → UInt8
  str : Nat
  stop : Nat

def Sink.put (o : Sink) (c : UInt8) : Sink where
  mem := if o.str < o.stop then Function.update o.mem o.str c else o.mem
  str := (o.str + 1) % 2 ^ 32
  stop := o.stop

def Sink.terminate (o : Sink) (size : Nat) : Nat → UInt8 :=
  if 0 < size then
    if o.str < o.stop then Function.update o.mem o.str 0 else Function.update o.mem (o.stop - 1) 0
  else o.mem

/-- The memory and the value returned. -/
def rtVsnprintf (mem : Nat → UInt8) (buf size : Nat) (fmt : Text) (args : List Arg) :
    Option ((Nat → UInt8) × Int) :=
  let stop := (buf + size) % 2 ^ 32
  let (stop, size) := if stop < buf then (2 ^ 32 - 1, 2 ^ 32 - 1 - buf) else (stop, size)
  (formatLoop Sink.put fmt.length fmt args ⟨mem, buf, stop⟩).map (fun o =>
    (o.terminate size, int32 ((o.str : Int) - buf)))

/-- The characters one after the other. -/
def snoc (text : Text) (c : UInt8) : Text := text ++ [c]

def text (fmt : Text) (args : List Arg) : Option Text := formatLoop snoc fmt.length fmt args []

/-- The arguments a directive takes, in their order. -/
def Directive.kinds (d : Directive) : List Kind :=
  (if d.fieldWidth = .star then [.int] else []) ++ (if d.precision = .star then [.int] else []) ++
    match d.fmt with
    | [] => []
    | c :: _ =>
      if c = 's'.toUInt8 then [.str]
      else if c = 'p'.toUInt8 then [.ptr]
      else if c = 'c'.toUInt8 ∨ (radix c {}).isSome then [.int]
      else []

/-- The arguments that match the format. -/
def takes : Nat → Text → List Kind
  | fuel + 1, c :: fmt =>
    if c ≠ '%'.toUInt8 then takes fuel fmt
    else (directive fmt).kinds ++ takes fuel (directive fmt).fmt.tail
  | _, _ => []

def Matches (fmt : Text) (args : List Arg) : Prop := takes fmt.length fmt <+: args.map Arg.kind

variable {O : Type} {put : O → UInt8 → O} {out : O} {fmt : Text} {args : List Arg} {c : UInt8} {bound n : Int}

theorem foldl_snoc (l acc : Text) : l.foldl snoc acc = acc ++ l := by
  induction l generalizing acc with
  | nil => simp
  | cons c l ih => simp [ih, snoc]

/-- The loop stops at the bound, with one more decrement. -/
theorem pad_eq : pad put c bound n out =
    (int32 (min n bound - 1), (List.replicate (n - bound).toNat c).foldl put out) := by
  unfold pad
  induction steps : (n - bound).toNat generalizing n out with
  | zero =>
    rw [padLoop, Int.min_eq_left (by lia)]
    rfl
  | succ fuel ih =>
    have more : bound < n := by lia
    rw [padLoop, if_pos more, ih (by lia), List.replicate_succ, List.foldl_cons,
      Int.min_eq_right (by lia), Int.min_eq_right (by lia)]

theorem int32_range (x : Int) : -2 ^ 31 ≤ int32 x ∧ int32 x < 2 ^ 31 := by
  unfold int32
  have low := Int.le_bmod (x := x) (m := 2 ^ 32) (by decide)
  have high := Int.bmod_lt (x := x) (m := 2 ^ 32) (by decide)
  lia

theorem int32_of_range {x : Int} (low : -2 ^ 31 ≤ x) (high : x < 2 ^ 31) : int32 x = x :=
  Int.bmod_eq_of_le (by lia) (by lia)

theorem prePad_eq : prePad put c n out =
    (min (int32 (n - 1)) 0, (List.replicate (int32 (n - 1)).toNat c).foldl put out) := by
  unfold prePad
  induction steps : (int32 (n - 1)).toNat generalizing n out with
  | zero =>
    rw [preLoop, Int.min_eq_left (by lia)]
    rfl
  | succ fuel ih =>
    have more : 0 < int32 (n - 1) := by lia
    have small := int32_range (n - 1)
    have next : int32 (int32 (n - 1) - 1) = int32 (n - 1) - 1 := int32_of_range (by lia) (by lia)
    rw [preLoop, if_pos more, ih (by rw [next]; lia), next, List.replicate_succ, List.foldl_cons,
      Int.min_eq_right (by lia), Int.min_eq_right (by lia)]

/-- How many characters of padding come before the sign, behind it, and at the end. -/
structure Padding where
  before : Nat
  middle : Nat
  after : Nat

def padding (size : Int) (zeropad left signed : Bool) : Padding :=
  let plain := !zeropad && !left
  let start := if signed && decide (0 < size) then int32 (size - 1) else size
  let behind := if plain then int32 (min start 0 - 1) else size
  let behind := if signed then int32 (behind - 1) else behind
  let last := if left then behind else int32 (min behind 0 - 1)
  ⟨if plain then start.toNat else 0, if left then 0 else behind.toNat, last.toNat⟩

/-- All that print_number puts out. -/
def numberText (num : BitVec 32) (base : Nat) (s precision : Int) (type : Flags) : Text :=
  let zeropad := type.zeropad && !type.left
  let sign := (getSign num type).1
  let tmp := tmpDigits (getSign num type).2 base type.large
  let most := if precision < tmp.length then (tmp.length : Int) else precision
  let p := padding (int32 (s - most)) zeropad type.left (sign != 0)
  List.replicate p.before ' '.toUInt8 ++ (if sign ≠ 0 then [sign] else []) ++
    List.replicate p.middle (if zeropad then '0'.toUInt8 else ' '.toUInt8) ++
    List.replicate (most - tmp.length).toNat '0'.toUInt8 ++ (if precision ≠ 0 then tmp.reverse else []) ++
    List.replicate p.after ' '.toUInt8

theorem printNumber_emits (num : BitVec 32) (base : Nat) (s precision : Int) (type : Flags) :
    printNumber put num base s precision type out = (numberText num base s precision type).foldl put out := by
  unfold printNumber numberText padding
  simp only [pad_eq, List.foldl_append]
  by_cases none : (getSign num type).1 = 0
  · cases type.left <;> cases type.zeropad <;> by_cases empty : precision = 0 <;> simp [none, empty]
  · cases type.left <;> cases type.zeropad <;> by_cases empty : precision = 0 <;> simp [none, empty]

theorem printNumber_text (num : BitVec 32) (base : Nat) (s precision : Int) (type : Flags) :
    printNumber snoc num base s precision type [] = numberText num base s precision type := by
  rw [printNumber_emits, foldl_snoc, List.nil_append]

theorem printChar_emits (v : BitVec 32) (fieldWidth : Int) (flags : Flags) :
    printChar put v fieldWidth flags out = (printChar snoc v fieldWidth flags []).foldl put out := by
  unfold printChar
  simp only [prePad_eq, foldl_snoc, snoc]
  cases flags.left <;> simp

theorem printString_emits (s : Option Text) (fieldWidth precision : Int) (flags : Flags) :
    printString put s fieldWidth precision flags out =
      (printString snoc s fieldWidth precision flags []).foldl put out := by
  unfold printString
  simp only [pad_eq, foldl_snoc]
  cases flags.left <;> simp

theorem switch_emits (c qualifier : UInt8) (flags : Flags) (fieldWidth precision : Int) (args : List Arg) :
    switch put c qualifier flags fieldWidth precision args out =
      (switch snoc c qualifier flags fieldWidth precision args []).map (fun r => (r.1, r.2.foldl put out)) := by
  unfold switch
  split
  · rcases args with _ | ⟨_ | _ | _, args⟩
    case cons.int v => exact congrArg (fun o => some (args, o)) (printChar_emits v fieldWidth flags)
    all_goals rfl
  · split
    · rcases args with _ | ⟨_ | _ | _, args⟩
      case cons.str s => exact congrArg (fun o => some (args, o)) (printString_emits s fieldWidth precision flags)
      all_goals rfl
    · split
      · rcases args with _ | ⟨_ | _ | _, args⟩
        case cons.ptr v =>
          by_cases default : fieldWidth = -1
          · simp [default, printNumber_emits, foldl_snoc]
          · simp [default, printNumber_emits, foldl_snoc]
        all_goals rfl
      · split
        · simp [snoc]
        · cases radix c flags with
          | none => simp [snoc]
          | some r =>
            rcases args with _ | ⟨_ | _ | _, args⟩
            case cons.int v => simp [printNumber_emits, foldl_snoc]
            all_goals rfl

theorem convert_emits (fmt : Text) (args : List Arg) :
    convert put fmt args out = (convert snoc fmt args []).map (fun r => (r.1, r.2.1, r.2.2.foldl put out)) := by
  simp only [convert]
  rcases (directive fmt).takeWidth args with _ | w
  · rfl
  · simp only [Option.bind_some]
    rcases (directive fmt).takePrecision w.2.2 with _ | p
    · rfl
    · simp only [Option.bind_some]
      rcases (directive fmt).fmt with _ | ⟨c, rest⟩
      · rfl
      · simp only [@switch_emits _ put, Option.map_map, Function.comp_def]

/-- What is put out does not depend on where it goes. -/
theorem formatLoop_emits (fuel : Nat) (fmt : Text) (args : List Arg) :
    ∃ T : Option Text, ∀ {O : Type} (put : O → UInt8 → O) (out : O),
      formatLoop put fuel fmt args out = T.map (fun T => T.foldl put out) := by
  induction fuel generalizing fmt args with
  | zero =>
    cases fmt with
    | nil => exact ⟨some [], fun _ _ => rfl⟩
    | cons c fmt => exact ⟨none, fun _ _ => rfl⟩
  | succ fuel ih =>
    cases fmt with
    | nil => exact ⟨some [], fun _ _ => rfl⟩
    | cons c fmt =>
      by_cases plain : c ≠ '%'.toUInt8
      · obtain ⟨T, rest⟩ := ih fmt args
        refine ⟨T.map (c :: ·), fun put out => ?_⟩
        rw [formatLoop, if_pos plain, rest, Option.map_map]
        rfl
      · cases converted : convert snoc fmt args [] with
        | none =>
          refine ⟨none, fun put out => ?_⟩
          rw [formatLoop, if_neg plain, convert_emits, converted]
          rfl
        | some r =>
          obtain ⟨T, rest⟩ := ih r.1 r.2.1
          refine ⟨T.map (r.2.2 ++ ·), fun put out => ?_⟩
          rw [formatLoop, if_neg plain, convert_emits, converted, Option.map_some, Option.bind_some, rest,
            Option.map_map]
          simp [Function.comp_def]

theorem formatLoop_text (put : O → UInt8 → O) (out : O) (fmt : Text) (args : List Arg) :
    formatLoop put fmt.length fmt args out = (text fmt args).map (fun T => T.foldl put out) := by
  obtain ⟨T, emits⟩ := formatLoop_emits fmt.length fmt args
  have own : text fmt args = T := by
    rw [text, emits]
    simp [foldl_snoc]
  rw [emits, own]

/-! The format pointer only goes on, and never past the NUL. -/

theorem getFlags_suffix (flags : Flags) (fmt : Text) : (getFlags flags fmt).2 <:+ fmt := by
  induction fmt generalizing flags with
  | nil => exact List.suffix_refl _
  | cons c fmt ih =>
    unfold getFlags
    repeat' split
    all_goals first | exact (ih _).trans (List.suffix_cons c fmt) | exact List.suffix_refl _

theorem skipAtoi_suffix (i : Int) (fmt : Text) : (skipAtoi i fmt).2 <:+ fmt := by
  induction fmt generalizing i with
  | nil => exact List.suffix_refl _
  | cons c fmt ih =>
    unfold skipAtoi
    split
    · exact (ih _).trans (List.suffix_cons c fmt)
    · exact List.suffix_refl _

theorem getAmount_suffix (fmt : Text) : (getAmount fmt).2 <:+ fmt := by
  cases fmt with
  | nil => exact List.suffix_refl _
  | cons c fmt =>
    simp only [getAmount]
    repeat' split
    · exact skipAtoi_suffix 0 _
    · exact List.suffix_cons c fmt
    · exact List.suffix_refl _

theorem getPrecision_suffix (fmt : Text) : (getPrecision fmt).2 <:+ fmt := by
  cases fmt with
  | nil => exact List.suffix_refl _
  | cons c fmt =>
    have rest := (getAmount_suffix fmt).trans (List.suffix_cons c fmt)
    simp only [getPrecision]
    split
    · split
      · rename_i alone
        rw [alone] at rest
        exact rest
      · exact rest
    · exact List.suffix_refl _

theorem getQualifier_suffix (fmt : Text) : (getQualifier fmt).2 <:+ fmt := by
  cases fmt with
  | nil => exact List.suffix_refl _
  | cons c fmt =>
    simp only [getQualifier]
    split
    · exact List.suffix_cons c fmt
    · exact List.suffix_refl _

theorem directive_suffix (fmt : Text) : (directive fmt).fmt <:+ fmt :=
  (((getQualifier_suffix _).trans (getPrecision_suffix _)).trans (getAmount_suffix _)).trans (getFlags_suffix {} fmt)

/-! Matching arguments are there when the format takes them. -/

variable {more : List Kind}

theorem kind_cons {k : Kind} (more : List Kind) (matching : k :: more <+: args.map Arg.kind) :
    ∃ a rest, args = a :: rest ∧ a.kind = k ∧ more <+: rest.map Arg.kind := by
  cases args with
  | nil => simp at matching
  | cons a rest =>
    obtain ⟨same, later⟩ := List.cons_prefix_cons.mp matching
    exact ⟨a, rest, rfl, same.symm, later⟩

theorem kind_int (more : List Kind) (matching : .int :: more <+: args.map Arg.kind) :
    ∃ v rest, args = .int v :: rest ∧ more <+: rest.map Arg.kind := by
  obtain ⟨a, rest, rfl, kind, later⟩ := kind_cons more matching
  cases a with
  | int v => exact ⟨v, rest, rfl, later⟩
  | str _ => cases kind
  | ptr _ => cases kind

theorem takeWidth_goes (d : Directive)
    (matching : (if d.fieldWidth = .star then [.int] else []) ++ more <+: args.map Arg.kind) :
    ∃ w, d.takeWidth args = some w ∧ more <+: w.2.2.map Arg.kind := by
  unfold Directive.takeWidth
  cases width : d.fieldWidth with
  | none => exact ⟨_, rfl, by simpa [width] using matching⟩
  | number n => exact ⟨_, rfl, by simpa [width] using matching⟩
  | star =>
    obtain ⟨v, rest, rfl, later⟩ := kind_int more (by simpa [width] using matching)
    by_cases negative : v.toInt < 0
    · exact ⟨_, if_pos negative, later⟩
    · exact ⟨_, if_neg negative, later⟩

theorem takePrecision_goes (d : Directive)
    (matching : (if d.precision = .star then [.int] else []) ++ more <+: args.map Arg.kind) :
    ∃ p, d.takePrecision args = some p ∧ more <+: p.2.map Arg.kind := by
  unfold Directive.takePrecision
  cases precision : d.precision with
  | none => exact ⟨_, rfl, by simpa [precision] using matching⟩
  | number n => exact ⟨_, rfl, by simpa [precision] using matching⟩
  | star =>
    obtain ⟨v, rest, rfl, later⟩ := kind_int more (by simpa [precision] using matching)
    exact ⟨_, rfl, later⟩

theorem radix_kinds (c : UInt8) (flags : Flags) : (radix c flags).isSome = (radix c {}).isSome := by
  unfold radix
  repeat' split
  all_goals rfl

theorem switch_goes (put : O → UInt8 → O) (out : O) (qualifier : UInt8) (flags : Flags) (fieldWidth precision : Int)
    (matching : (if c = 's'.toUInt8 then [.str] else if c = 'p'.toUInt8 then [.ptr]
      else if c = 'c'.toUInt8 ∨ (radix c {}).isSome then [.int] else []) ++ more <+: args.map Arg.kind) :
    ∃ r, switch put c qualifier flags fieldWidth precision args out = some r ∧ more <+: r.1.map Arg.kind := by
  unfold switch
  by_cases char : c = 'c'.toUInt8
  · subst char
    obtain ⟨v, rest, rfl, later⟩ := kind_int more matching
    exact ⟨_, rfl, later⟩
  rw [if_neg char]
  by_cases string : c = 's'.toUInt8
  · subst string
    obtain ⟨a, rest, rfl, kind, later⟩ := kind_cons more matching
    cases a <;> cases kind
    exact ⟨_, rfl, later⟩
  rw [if_neg string] at matching ⊢
  by_cases pointer : c = 'p'.toUInt8
  · subst pointer
    obtain ⟨a, rest, rfl, kind, later⟩ := kind_cons more matching
    cases a <;> cases kind
    by_cases default : fieldWidth = -1
    · exact ⟨_, if_pos default, later⟩
    · exact ⟨_, if_neg default, later⟩
  rw [if_neg pointer] at matching ⊢
  by_cases percent : c = '%'.toUInt8
  · subst percent
    exact ⟨_, rfl, matching⟩
  rw [if_neg percent]
  rw [← radix_kinds c flags] at matching
  cases number : radix c flags with
  | none => exact ⟨_, rfl, by simpa [number, char] using matching⟩
  | some r =>
    obtain ⟨v, rest, rfl, later⟩ := kind_int more (by simpa [number] using matching)
    exact ⟨_, rfl, later⟩

theorem convert_goes (matching : (directive fmt).kinds ++ more <+: args.map Arg.kind) :
    ∃ args' out', convert put fmt args out = some ((directive fmt).fmt.tail, args', out') ∧
      more <+: args'.map Arg.kind := by
  simp only [convert]
  unfold Directive.kinds at matching
  rw [List.append_assoc, List.append_assoc] at matching
  obtain ⟨w, width, matching⟩ := takeWidth_goes _ matching
  obtain ⟨p, precision, matching⟩ := takePrecision_goes _ matching
  rw [width, Option.bind_some, precision, Option.bind_some]
  cases rest : (directive fmt).fmt with
  | nil => exact ⟨_, _, rfl, by simpa [rest] using matching⟩
  | cons c fmt =>
    rw [rest] at matching
    obtain ⟨r, done, later⟩ := switch_goes put out (directive _).qualifier w.2.1 w.1 p.1 matching
    exact ⟨_, _, congrArg (Option.map _) done, later⟩

theorem formatLoop_goes {fuel : Nat} (enough : fmt.length ≤ fuel) (matching : takes fuel fmt <+: args.map Arg.kind) :
    ∃ out', formatLoop put fuel fmt args out = some out' := by
  induction fuel generalizing fmt args out with
  | zero =>
    rw [List.length_eq_zero_iff.mp (Nat.le_zero.mp enough)]
    exact ⟨out, rfl⟩
  | succ fuel ih =>
    cases fmt with
    | nil => exact ⟨out, rfl⟩
    | cons c fmt =>
      have short : fmt.length ≤ fuel := Nat.le_of_succ_le_succ enough
      by_cases plain : c ≠ '%'.toUInt8
      · rw [takes, if_pos plain] at matching
        rw [formatLoop, if_pos plain]
        exact ih short matching
      · rw [takes, if_neg plain] at matching
        rw [formatLoop, if_neg plain]
        obtain ⟨args', out', converted, later⟩ := convert_goes matching
        rw [converted]
        refine ih (Nat.le_trans ?_ short) later
        rw [List.length_tail]
        have suffix := (directive_suffix fmt).length_le
        lia

theorem text_matches (matching : Matches fmt args) : ∃ T, text fmt args = some T :=
  formatLoop_goes (Nat.le_refl _) matching

/-! The characters go to the buffer as long as there is room. -/

variable {T : Text}

theorem put_all (o : Sink) (small : o.str + T.length < 2 ^ 32) :
    (T.foldl Sink.put o).str = o.str + T.length ∧ (T.foldl Sink.put o).stop = o.stop ∧
      (∀ i, i < T.length → o.str + i < o.stop → T[i]? = some ((T.foldl Sink.put o).mem (o.str + i))) ∧
      ∀ a, a < o.str ∨ o.stop ≤ a ∨ o.str + T.length ≤ a → (T.foldl Sink.put o).mem a = o.mem a := by
  induction T generalizing o with
  | nil => exact ⟨rfl, rfl, fun i less => absurd less (Nat.not_lt_zero i), fun _ _ => rfl⟩
  | cons c T ih =>
    rw [List.length_cons] at small
    have next : (o.put c).str = o.str + 1 := Nat.mod_eq_of_lt (by lia)
    obtain ⟨str, stop, inside, outside⟩ := ih (o.put c) (by lia)
    rw [next] at str inside outside
    change _ = o.stop at stop
    change ∀ i, i < T.length → o.str + 1 + i < o.stop → _ at inside
    change ∀ a, a < o.str + 1 ∨ o.stop ≤ a ∨ _ → _ at outside
    rw [List.foldl_cons, List.length_cons]
    refine ⟨by lia, stop, ?_, ?_⟩
    · intro i less room
      cases i with
      | zero =>
        rw [outside _ (Or.inl (by lia)), List.getElem?_cons_zero]
        have stored : (o.put c).mem = Function.update o.mem o.str c := if_pos (by simpa using room)
        rw [stored, Nat.add_zero, Function.update_self]
      | succ i =>
        rw [List.getElem?_cons_succ, inside i (by lia) (by lia)]
        congr 2
        lia
    · intro a away
      have here : o.mem a = (o.put c).mem a := by
        unfold Sink.put
        split
        · exact (Function.update_of_ne (by lia) ..).symm
        · rfl
      rw [here]
      by_cases later : a < o.str + 1 ∨ o.stop ≤ a ∨ o.str + 1 + T.length ≤ a
      · exact outside a later
      · lia

/-- What `size` bytes at `buf` hold of a text, and that nothing else has been written. -/
structure Truncated (T : Text) (mem mem' : Nat → UInt8) (buf size : Nat) : Prop where
  text : 0 < size → ∀ i, i < min T.length (size - 1) → T[i]? = some (mem' (buf + i))
  nul : 0 < size → mem' (buf + min T.length (size - 1)) = 0
  outside : ∀ a, a < buf ∨ buf + size ≤ a ∨ buf + T.length < a → mem' a = mem a

theorem vsnprintf_text (known : text fmt args = some T) (mem : Nat → UInt8) (buf size : Nat)
    (bounded : size < 2 ^ 32) (room : buf + T.length + 1 < 2 ^ 32) : ∃ mem',
      rtVsnprintf mem buf size fmt args = some (mem', int32 T.length) ∧ Truncated T mem mem' buf size := by
  -- where `buf + size` wraps, the end is the last address, and the text does not reach it
  let stop := if (buf + size) % 2 ^ 32 < buf then 2 ^ 32 - 1 else (buf + size) % 2 ^ 32
  let size' := if (buf + size) % 2 ^ 32 < buf then 2 ^ 32 - 1 - buf else size
  have stops : stop = buf + size' ∧ size' ≤ size ∧ (size' = size ∨ T.length < size') := by
    simp only [stop, size']
    split <;> lia
  have written : rtVsnprintf mem buf size fmt args =
      some ((T.foldl Sink.put ⟨mem, buf, stop⟩).terminate size',
        int32 ((T.foldl Sink.put ⟨mem, buf, stop⟩).str - buf)) := by
    simp only [rtVsnprintf, formatLoop_text, known]
    by_cases wraps : (buf + size) % 2 ^ 32 < buf
    · simp only [stop, size', if_pos wraps, Option.map_some]
    · simp only [stop, size', if_neg wraps, Option.map_some]
  obtain ⟨str, atStop, inside, outside⟩ := put_all (T := T) ⟨mem, buf, stop⟩ (by
    simpa using Nat.lt_of_succ_lt room)
  simp only at str atStop inside outside
  rw [written]
  generalize T.foldl Sink.put ⟨mem, buf, stop⟩ = o at *
  have length : (o.str : Int) - buf = T.length := by lia
  rw [length]
  refine ⟨o.terminate size', rfl, ?_⟩
  by_cases empty : size' = 0
  · have none : size = 0 := by lia
    have kept : o.terminate size' = o.mem := if_neg (by lia)
    rw [kept]
    exact ⟨fun some => absurd none (by lia), fun some => absurd none (by lia), fun a _ => outside a (by lia)⟩
  · have ended : o.terminate size' = Function.update o.mem (buf + min T.length (size' - 1)) 0 := by
      rw [Sink.terminate, if_pos (by lia), str, atStop]
      split
      · rw [Nat.min_eq_left (by lia)]
      · rw [Nat.min_eq_right (by lia)]
        congr 1
        lia
    have same : min T.length (size' - 1) = min T.length (size - 1) := by lia
    rw [ended, same]
    refine ⟨fun _ i less => ?_, fun _ => Function.update_self .., fun a away => ?_⟩
    · rw [Function.update_of_ne (by lia)]
      exact inside i (by lia) (by lia)
    · rw [Function.update_of_ne (by lia)]
      exact outside a (by lia)

/-- Whatever the size, the buffer gets the same text, cut off. -/
theorem vsnprintf_truncates (matching : Matches fmt args) : ∃ T, text fmt args = some T ∧
    ∀ mem buf size, size < 2 ^ 32 → buf + T.length + 1 < 2 ^ 32 → ∃ mem' n,
      rtVsnprintf mem buf size fmt args = some (mem', n) ∧ n = int32 T.length ∧
        (T.length < 2 ^ 31 → n = T.length) ∧ Truncated T mem mem' buf size := by
  obtain ⟨T, known⟩ := text_matches matching
  refine ⟨T, known, fun mem buf size bounded room => ?_⟩
  obtain ⟨mem', done, truncated⟩ := vsnprintf_text known mem buf size bounded room
  exact ⟨mem', _, done, rfl, fun short => int32_of_range (by lia) (by lia), truncated⟩

def ascii (s : String) : Text := s.toList.map Char.toUInt8

/-- Four bytes for the text "7   |hi%". -/
theorem vsnprintf_truncates_four : ∃ mem' n,
    rtVsnprintf (fun _ => 0xFF) 100 4 (ascii "%-4d|%s%%") [.int 7, .str (some (ascii "hi"))] = some (mem', n) ∧
      n = 8 ∧ Truncated (ascii "7   |hi%") (fun _ => 0xFF) mem' 100 4 := by
  have matching : Matches (ascii "%-4d|%s%%") [.int 7, .str (some (ascii "hi"))] := by
    unfold Matches
    decide
  obtain ⟨T, known, law⟩ := vsnprintf_truncates matching
  have value : text (ascii "%-4d|%s%%") [.int 7, .str (some (ascii "hi"))] = some (ascii "7   |hi%") := by decide
  cases known.symm.trans value
  obtain ⟨mem', n, done, _, length, truncated⟩ := law (fun _ => 0xFF) 100 4 (by decide) (by decide)
  exact ⟨mem', n, done, length (by decide), truncated⟩

theorem printChar_length (v : BitVec 32) {fieldWidth : Int} (low : 0 < fieldWidth) (high : fieldWidth < 2 ^ 31) :
    (printChar snoc v fieldWidth {} []).length = fieldWidth.toNat := by
  have first : int32 (fieldWidth - 1) = fieldWidth - 1 := int32_of_range (by lia) (by lia)
  have second : int32 (min (fieldWidth - 1) 0 - 1) = -1 := by
    rw [Int.min_eq_right (by lia)]
    decide
  simp only [printChar, Bool.not_false, if_true, prePad_eq, first, second, foldl_snoc, snoc]
  simp
  lia

theorem text_char {v : BitVec 32} (parsed : directive fmt = ⟨{}, .number n, .none, 0, ascii "cx"⟩)
    (long : 1 < fmt.length) :
    text ('%'.toUInt8 :: fmt) [.int v] = some (snoc (printChar snoc v n {} []) 'x'.toUInt8) := by
  obtain ⟨fuel, isLong⟩ : ∃ fuel, fmt.length = fuel + 1 := ⟨fmt.length - 1, by lia⟩
  have converted : convert snoc fmt [.int v] [] = some (ascii "x", [], printChar snoc v n {} []) := by
    simp only [convert, parsed]
    rfl
  rw [text, List.length_cons, isLong, formatLoop, if_neg (by decide), converted, Option.bind_some]
  rw [show ascii "x" = ['x'.toUInt8] from rfl, formatLoop, if_pos (by decide)]
  cases fuel <;> rfl

/-- The longest field width and one more character: a length of 2^31, which comes back negative. -/
theorem vsnprintf_length_negative : Matches (ascii "%2147483647cx") [.int 97] ∧
    ∃ T, text (ascii "%2147483647cx") [.int 97] = some T ∧ T.length = 2 ^ 31 ∧
      ∃ mem', rtVsnprintf (fun _ => 0) 0x20000000 0 (ascii "%2147483647cx") [.int 97] = some (mem', -2 ^ 31) := by
  have parsed : directive (ascii "2147483647cx") = ⟨{}, .number 2147483647, .none, 0, ascii "cx"⟩ := by
    decide +kernel
  have known := text_char (v := 97) parsed (by decide)
  have length := printChar_length 97 (show (0 : Int) < 2147483647 by decide) (by decide)
  generalize printChar snoc 97 2147483647 {} [] = shown at known length
  have whole : (snoc shown 'x'.toUInt8).length = 2 ^ 31 := by
    rw [snoc, List.length_append, length]
    rfl
  have matching : Matches (ascii "%2147483647cx") [.int 97] := by
    unfold Matches
    decide +kernel
  refine ⟨matching, _, known, whole, ?_⟩
  obtain ⟨mem', done, _⟩ := vsnprintf_text known (fun _ => 0) 0x20000000 0 (by decide) (by rw [whole]; decide)
  refine ⟨mem', done.trans ?_⟩
  rw [whole]
  rfl

end RtThread.Printf

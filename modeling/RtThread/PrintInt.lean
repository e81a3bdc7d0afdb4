import Mathlib.Data.Nat.Digits.Lemmas
import RtThread.Printf

/-! The integer conversions of rt_vsnprintf: one directive with its flags, field width and precision,
and an argument of 32 bits. -/
namespace RtThread.PrintInt
open Printf

inductive Conv where
  | d | u | x | X | o
  deriving DecidableEq

def Conv.char : Conv → UInt8
  | .d => 'd'.toUInt8
  | .u => 'u'.toUInt8
  | .x => 'x'.toUInt8
  | .X => 'X'.toUInt8
  | .o => 'o'.toUInt8

def Conv.base : Conv → Nat
  | .d | .u => 10
  | .x | .X => 16
  | .o => 8

inductive Flag where
  | minus | zero | plus | space
  deriving DecidableEq

def Flag.char : Flag → UInt8
  | .minus => '-'.toUInt8
  | .zero => '0'.toUInt8
  | .plus => '+'.toUInt8
  | .space => ' '.toUInt8

def decimal (d : Fin 10) : UInt8 := digit false d

def append (n : Int) (d : Fin 10) : Int := n * 10 + d.val

def value (digits : List (Fin 10)) : Int := digits.foldl append 0

/-- A number in the format does not begin with the flag '0'. -/
inductive Width where
  | none
  | number (first : Fin 10) (rest : List (Fin 10)) (lead : first ≠ 0)
  | star (w : BitVec 32)

inductive Precision where
  | none
  | number (digits : List (Fin 10))
  | star (p : BitVec 32)

structure Directive where
  flags : List Flag
  width : Width
  precision : Precision
  conv : Conv

def Width.text : Width → Text
  | .none => []
  | .number first rest _ => (first :: rest).map decimal
  | .star _ => ['*'.toUInt8]

def Precision.text : Precision → Text
  | .none => []
  | .number digits => '.'.toUInt8 :: digits.map decimal
  | .star _ => ['.'.toUInt8, '*'.toUInt8]

def Width.args : Width → List Arg
  | .star w => [.int w]
  | _ => []

def Precision.args : Precision → List Arg
  | .star p => [.int p]
  | _ => []

def Directive.text (d : Directive) : Text :=
  d.flags.map Flag.char ++ d.width.text ++ d.precision.text ++ [d.conv.char]

def Directive.fmt (d : Directive) : Text := '%'.toUInt8 :: d.text

def Directive.args (d : Directive) (v : BitVec 32) : List Arg := d.width.args ++ d.precision.args ++ [.int v]

/-! What is to be printed. -/

/-- A field width that is not given counts as -1, and a negative one as the flag '-'. -/
def Width.value : Width → Int
  | .none => -1
  | .number first rest _ => PrintInt.value (first :: rest)
  | .star w => w.toInt.natAbs

def Precision.value : Precision → Option Int
  | .none => Option.none
  | .number digits => some (PrintInt.value digits)
  | .star p => some p.toInt

def Directive.sign (d : Directive) (v : BitVec 32) : Text :=
  if d.conv = .d then
    if v.toInt < 0 then ['-'.toUInt8]
    else if .plus ∈ d.flags then ['+'.toUInt8]
    else if .space ∈ d.flags then [' '.toUInt8]
    else []
  else []

def Directive.magnitude (d : Directive) (v : BitVec 32) : Nat := if d.conv = .d then v.toInt.natAbs else v.toNat

def numeral (large : Bool) (base n : Nat) : Text :=
  if n = 0 then ['0'.toUInt8] else (Nat.digits base n).reverse.map (digit large)

/-- The digits, with leading zeros up to the precision. -/
def Directive.body (d : Directive) (v : BitVec 32) : Text :=
  let n := numeral (d.conv = .X) d.conv.base (d.magnitude v)
  match d.precision.value with
  | none => n
  | some p => if p = 0 ∧ d.magnitude v = 0 then [] else List.replicate (p - n.length).toNat '0'.toUInt8 ++ n

def Directive.unpadded (d : Directive) (v : BitVec 32) : Text := d.sign v ++ d.body v

/-- The text with padding on the left, of zeros behind the sign, or on the right. -/
def Padded (sign body T : Text) : Prop :=
  ∃ n, T = List.replicate n ' '.toUInt8 ++ sign ++ body ∨ T = sign ++ List.replicate n '0'.toUInt8 ++ body ∨
    T = sign ++ body ++ List.replicate n ' '.toUInt8

def Prints (d : Directive) (v : BitVec 32) (T : Text) : Prop :=
  Padded (d.sign v) (d.body v) T ∧ (T.length : Int) = max d.width.value (d.unpadded v).length

/-! When it is. -/

def Directive.left (d : Directive) : Bool :=
  decide (.minus ∈ d.flags) || match d.width with | .star w => decide (w.toInt < 0) | _ => false

def Directive.zeropad (d : Directive) : Bool := decide (.zero ∈ d.flags) && !d.left

/-- `size` stays an `int` up to its last check, where `x` is the width less the digits and `s` the length
of the sign. A loop takes one more off it than it prints: none has run before that check with the flag
'-', one with '0', and two without. -/
def Fits (x s : Int) (zeropad left : Bool) : Prop :=
  -2 ^ 31 ≤ x - s - (if left then 0 else if zeropad then 1 else 2) ∧
    x - (if left ∨ zeropad then s else 0) < 2 ^ 31

/-- `divide` knows the bases 10 and 16, and a precision of 0 takes away every digit but counts one. -/
structure Sound (d : Directive) (v : BitVec 32) : Prop where
  octal : d.conv = .o → v.toNat < 8
  precision : ∀ p, d.precision.value = some p →
    0 < p ∧ p < 2 ^ 31 ∨ p = 0 ∧ d.magnitude v = 0 ∧ d.width.value ≤ (d.sign v).length
  fits : Fits (d.width.value - (d.body v).length) (d.sign v).length d.zeropad d.left

/-! The directive is read as it was written. -/

def setFlag (flags : Flags) : Flag → Flags
  | .minus => { flags with left := true }
  | .zero => { flags with zeropad := true }
  | .plus => { flags with plus := true }
  | .space => { flags with space := true }

variable {d : Directive} {v : BitVec 32} {T fmt : Text} {c : UInt8}

theorem getFlags_all (flags : Flags) (fs : List Flag) (stop : ∀ flags, getFlags flags fmt = (flags, fmt)) :
    getFlags flags (fs.map Flag.char ++ fmt) = (fs.foldl setFlag flags, fmt) := by
  induction fs generalizing flags with
  | nil => exact stop flags
  | cons f fs ih =>
    rw [List.foldl_cons, ← ih]
    cases f <;> rfl

theorem setFlag_all (flags : Flags) (fs : List Flag) : fs.foldl setFlag flags =
    { flags with
      left := flags.left || decide (.minus ∈ fs)
      zeropad := flags.zeropad || decide (.zero ∈ fs)
      plus := flags.plus || decide (.plus ∈ fs)
      space := flags.space || decide (.space ∈ fs) } := by
  induction fs generalizing flags with
  | nil => simp
  | cons f fs ih =>
    rw [List.foldl_cons, ih]
    cases f <;> simp [setFlag]

theorem decimal_digit : ∀ d, isDigit (decimal d) = true ∧ (decimal d).toNat = 48 + d.val := by decide

theorem append_wrap (i : Int) (d : Fin 10) : int32 (append (int32 i) d) = int32 (append i d) := by
  unfold int32 append
  rw [Int.add_bmod, Int.bmod_mul_bmod, ← Int.add_bmod]

/-- Wrapping at every digit is wrapping once. -/
theorem skipAtoi_digits (i : Int) (digits : List (Fin 10)) (stop : ∀ i, skipAtoi i fmt = (i, fmt)) :
    skipAtoi (int32 i) (digits.map decimal ++ fmt) = (int32 (digits.foldl append i), fmt) := by
  induction digits generalizing i with
  | nil => exact stop _
  | cons d digits ih =>
    obtain ⟨isDigit, toNat⟩ := decimal_digit d
    have next : int32 i * 10 + ((48 + d.val : Nat) : Int) - 48 = append (int32 i) d := by
      unfold append
      lia
    rw [List.map_cons, List.cons_append, skipAtoi, if_pos isDigit, toNat, next, append_wrap]
    exact ih _

theorem getAmount_number (d : Fin 10) (digits : List (Fin 10)) (stop : ∀ i, skipAtoi i fmt = (i, fmt)) :
    getAmount ((d :: digits).map decimal ++ fmt) = (.number (int32 (value (d :: digits))), fmt) := by
  have read := skipAtoi_digits 0 (d :: digits) stop
  rw [List.map_cons, List.cons_append] at read ⊢
  rw [getAmount, if_pos (decimal_digit d).1]
  exact congrArg (fun r : Int × Text => (Amount.number r.1, r.2)) read

/-! What may follow: the next part does not begin like a flag or a number. -/

theorem conv_stops (conv : Conv) : (∀ i, skipAtoi i [conv.char] = (i, [conv.char])) ∧
    (∀ flags, getFlags flags [conv.char] = (flags, [conv.char])) ∧ getAmount [conv.char] = (.none, [conv.char]) ∧
    getPrecision [conv.char] = (.none, [conv.char]) ∧ getQualifier [conv.char] = (0, [conv.char]) := by
  cases conv <;> exact ⟨fun _ => rfl, fun _ => rfl, rfl, rfl, rfl⟩

theorem precision_stops (precision : Precision) (conv : Conv) :
    (∀ i, skipAtoi i (precision.text ++ [conv.char]) = (i, precision.text ++ [conv.char])) ∧
    (∀ flags, getFlags flags (precision.text ++ [conv.char]) = (flags, precision.text ++ [conv.char])) ∧
    getAmount (precision.text ++ [conv.char]) = (.none, precision.text ++ [conv.char]) := by
  cases precision with
  | none => exact ⟨(conv_stops conv).1, (conv_stops conv).2.1, (conv_stops conv).2.2.1⟩
  | number digits => exact ⟨fun _ => rfl, fun _ => rfl, rfl⟩
  | star p => exact ⟨fun _ => rfl, fun _ => rfl, rfl⟩

theorem decimal_stops : ∀ d : Fin 10, d ≠ 0 → decimal d ≠ '-'.toUInt8 ∧ decimal d ≠ '+'.toUInt8 ∧
    decimal d ≠ ' '.toUInt8 ∧ decimal d ≠ '#'.toUInt8 ∧ decimal d ≠ '0'.toUInt8 := by decide

theorem width_stops (width : Width) (precision : Precision) (conv : Conv) (flags : Flags) :
    getFlags flags (width.text ++ (precision.text ++ [conv.char])) =
      (flags, width.text ++ (precision.text ++ [conv.char])) := by
  cases width with
  | none => exact (precision_stops precision conv).2.1 flags
  | number first rest lead =>
    obtain ⟨minus, plus, space, hash, zero⟩ := decimal_stops first lead
    rw [Width.text, List.map_cons, List.cons_append, getFlags, if_neg minus, if_neg plus, if_neg space, if_neg hash,
      if_neg zero]
  | star w => rfl

/-- `field_width` and `precision`, as the directive gives them. -/
def Width.amount : Width → Amount
  | .none => .none
  | .number first rest _ => .number (int32 (PrintInt.value (first :: rest)))
  | .star _ => .star

def Precision.amount : Precision → Amount
  | .none => .none
  | .number [] => .number (-1)
  | .number digits => .number (int32 (PrintInt.value digits))
  | .star _ => .star

theorem getAmount_width (width : Width) (precision : Precision) (conv : Conv) :
    getAmount (width.text ++ (precision.text ++ [conv.char])) = (width.amount, precision.text ++ [conv.char]) := by
  cases width with
  | none => exact (precision_stops precision conv).2.2
  | number first rest lead => exact getAmount_number first rest (precision_stops precision conv).1
  | star w => rfl

theorem getPrecision_text (precision : Precision) (conv : Conv) :
    getPrecision (precision.text ++ [conv.char]) = (precision.amount, [conv.char]) := by
  cases precision with
  | none => exact (conv_stops conv).2.2.2.1
  | number digits =>
    cases digits with
    | nil => cases conv <;> rfl
    | cons d digits =>
      have read := getAmount_number d digits (conv_stops conv).1
      simp only [Precision.text, List.cons_append, getPrecision, if_true, read, Precision.amount]
  | star p => rfl

theorem directive_text : directive d.text =
    ⟨d.flags.foldl setFlag {}, d.width.amount, d.precision.amount, 0, [d.conv.char]⟩ := by
  have flags := getFlags_all {} d.flags (fun flags => width_stops d.width d.precision d.conv flags)
  have whole : d.text = d.flags.map Flag.char ++ (d.width.text ++ (d.precision.text ++ [d.conv.char])) := by
    simp only [Directive.text, List.append_assoc]
  rw [whole, directive]
  simp only [flags, getAmount_width, getPrecision_text, (conv_stops d.conv).2.2.2.2]

/-! The call of print_number. -/

def Conv.flags (conv : Conv) (flags : Flags) : Flags :=
  match conv with
  | .d => { flags with sign := true }
  | .X => { flags with large := true }
  | _ => flags

def Directive.type (d : Directive) : Flags := d.conv.flags {
  zeropad := decide (.zero ∈ d.flags)
  plus := decide (.plus ∈ d.flags)
  space := decide (.space ∈ d.flags)
  left := d.left }

def Precision.limit (p : Precision) : Int :=
  match p.value with
  | Option.none => -1
  | some p => max (int32 p) 0

theorem int32_toInt (w : BitVec 32) : int32 w.toInt = w.toInt :=
  int32_of_range (by have := BitVec.le_toInt w; lia) (by have := BitVec.toInt_lt (x := w); lia)

theorem takeWidth_width (flags : Flags) (more : List Arg) {precision : Amount} {qualifier : UInt8}
    (isLeft : flags.left = decide (.minus ∈ d.flags)) :
    Printf.Directive.takeWidth ⟨flags, d.width.amount, precision, qualifier, fmt⟩ (d.width.args ++ more) =
      some (int32 d.width.value, { flags with left := d.left }, more) := by
  unfold Directive.left
  cases d.width with
  | none =>
    rw [Bool.or_false, ← isLeft]
    rfl
  | number first rest lead =>
    rw [Bool.or_false, ← isLeft]
    rfl
  | star w =>
    simp only [Printf.Directive.takeWidth, Width.amount, Width.args, List.cons_append, List.nil_append, Width.value]
    by_cases negative : w.toInt < 0
    · have abs : (w.toInt.natAbs : Int) = -w.toInt := by lia
      simp [negative, abs]
    · have abs : (w.toInt.natAbs : Int) = w.toInt := by lia
      rw [if_neg negative, abs, int32_toInt, decide_eq_false negative, Bool.or_false, ← isLeft]

theorem takePrecision_precision (flags : Flags) (more : List Arg) {width : Amount} {qualifier : UInt8} :
    Printf.Directive.takePrecision ⟨flags, width, d.precision.amount, qualifier, fmt⟩ (d.precision.args ++ more) =
      some (d.precision.limit, more) := by
  cases d.precision with
  | none => rfl
  | number digits => cases digits <;> rfl
  | star p =>
    simp only [Printf.Directive.takePrecision, Precision.amount, Precision.args, List.cons_append, List.nil_append,
      Precision.limit, Precision.value, int32_toInt]

theorem switch_conv (conv : Conv) (flags : Flags) (fieldWidth precision : Int) :
    switch snoc conv.char 0 flags fieldWidth precision [.int v] [] =
      some ([], numberText v conv.base fieldWidth precision (conv.flags flags)) := by
  rw [← printNumber_text]
  cases conv <;> rfl

theorem text_fmt : text d.fmt (d.args v) =
    some (numberText v d.conv.base (int32 d.width.value) d.precision.limit d.type) := by
  have flags := setFlag_all {} d.flags
  have converted : convert snoc d.text (d.args v) [] =
      some ([], [], numberText v d.conv.base (int32 d.width.value) d.precision.limit d.type) := by
    simp only [convert, directive_text, Directive.args, List.append_assoc]
    rw [takeWidth_width _ _ (by rw [flags]; simp), Option.bind_some, takePrecision_precision, Option.bind_some]
    simp only [switch_conv, Option.map_some, flags]
    rfl
  rw [text, Directive.fmt, List.length_cons, formatLoop, if_neg (by decide), converted, Option.bind_some]
  cases d.text.length <;> rfl

/-! The counter of the padding. -/

theorem int32_dec {y : Int} (low : -2 ^ 31 ≤ y) (high : y < 2 ^ 31) :
    int32 (y - 1) = if y = -2 ^ 31 then 2 ^ 31 - 1 else y - 1 := by
  split
  · rename_i least
    rw [least]
    decide
  · exact int32_of_range (by lia) (by lia)

theorem int32_shift (x : Int) : ∃ k : Int, x = int32 x + 2 ^ 32 * k := by
  refine ⟨Int.bdiv x (2 ^ 32), ?_⟩
  have whole := Int.bmod_add_bdiv x (2 ^ 32)
  unfold int32
  lia

/-- All the padding in one place. -/
def onePlace (n : Nat) (zeropad left : Bool) : Padding :=
  if left then ⟨0, 0, n⟩ else if zeropad then ⟨0, n, 0⟩ else ⟨n, 0, 0⟩

def total (p : Padding) : Nat := p.before + p.middle + p.after

theorem total_onePlace (n : Nat) (zeropad left : Bool) : total (onePlace n zeropad left) = n := by
  cases left <;> cases zeropad <;> simp [total, onePlace]

/-- The padding comes out right exactly when `size` fits. -/
theorem padding_cases {x s : Int} {zeropad left signed : Bool} (isSign : s = if signed then 1 else 0)
    (least : -2 ^ 31 ≤ x) (apart : (zeropad && left) = false) :
    total (padding (int32 x) zeropad left signed) < 2 ^ 31 ∧
    (Fits x s zeropad left → padding (int32 x) zeropad left signed = onePlace (x - s).toNat zeropad left) ∧
    ((total (padding (int32 x) zeropad left signed) : Int) = max (x - s) 0 → Fits x s zeropad left) := by
  obtain ⟨k, shift⟩ := int32_shift x
  obtain ⟨low, high⟩ := int32_range x
  unfold Fits
  generalize int32 x = y at *
  have dec := fun z low high => @int32_dec z low high
  cases left <;> cases zeropad <;> cases signed <;> cases apart <;>
    simp only [padding, onePlace, total, Bool.not_false, Bool.not_true, Bool.and_self, Bool.and_false,
      Bool.false_and, if_true, if_false, Bool.true_and, Bool.false_eq_true, decide_eq_true_eq, Padding.mk.injEq,
      or_false, or_true, true_and, Nat.zero_add] at *
  case false.false.false.refl =>
    have first := dec (min y 0) (by lia) (by lia)
    generalize int32 (min y 0 - 1) = b at *
    have second := dec (min b 0) (by lia) (by lia)
    omega
  case false.false.true.refl =>
    have start : (if 0 < y then int32 (y - 1) else y) = if 0 < y then y - 1 else y := by
      rw [dec y low high]
      lia
    obtain ⟨a, isStart⟩ : ∃ a, a = if 0 < y then y - 1 else y := ⟨_, rfl⟩
    rw [start, ← isStart]
    have first := dec (min a 0) (by lia) (by lia)
    generalize int32 (min a 0 - 1) = b at *
    have second := dec b (by lia) (by lia)
    generalize int32 (b - 1) = c at *
    have third := dec (min c 0) (by lia) (by lia)
    generalize int32 (min c 0 - 1) = e at *
    clear dec start
    by_cases positive : 0 < y
    · rw [if_pos positive] at isStart
      have counts : b = -1 ∧ c = -2 ∧ e = -3 := by lia
      clear first second third
      lia
    · rw [if_neg positive] at isStart
      subst isStart
      rw [Int.min_eq_left (by lia)] at first
      by_cases edge : a = -2 ^ 31
      · rw [if_pos edge] at first
        have counts : c = 2 ^ 31 - 2 ∧ e = -1 := by lia
        clear second third
        lia
      · rw [if_neg edge] at first
        by_cases near : b = -2 ^ 31
        · rw [if_pos near] at second
          have counts : e = -1 := by lia
          clear third
          lia
        · rw [if_neg near] at second
          rw [Int.min_eq_left (by lia)] at third
          split at third
          · lia
          · lia
  case false.true.false.refl =>
    have first := dec (min y 0) (by lia) (by lia)
    lia
  case false.true.true.refl =>
    have first := dec y low high
    generalize int32 (y - 1) = b at *
    have second := dec (min b 0) (by lia) (by lia)
    lia
  case true.false.false.refl => lia
  case true.false.true.refl =>
    have first := dec y low high
    lia

/-! The digits. -/

def divideBase (base : Nat) : Nat := if base = 10 then 10 else 16

theorem digitLoop_digits (large : Bool) (base : Nat) {cells n : Nat} (room : n < 10 ^ cells) :
    digitLoop large base cells n = (Nat.digits (divideBase base) n).map (digit large) := by
  have two : 10 ≤ divideBase base := by
    unfold divideBase
    split <;> lia
  induction cells generalizing n with
  | zero =>
    obtain rfl : n = 0 := by simpa using room
    rw [Nat.digits_zero]
    rfl
  | succ cells ih =>
    rw [digitLoop]
    split
    · rename_i zero
      rw [zero, Nat.digits_zero]
      rfl
    · rename_i positive
      have parts : divide n base = (n % divideBase base, n / divideBase base) := by
        unfold divide divideBase
        split <;> rfl
      have smaller : n / divideBase base < 10 ^ cells := by
        refine Nat.lt_of_le_of_lt (Nat.div_le_div_left two (by lia)) ?_
        rw [Nat.pow_succ] at room
        lia
      rw [parts, Nat.digits_eq_cons_digits_div (by lia) positive, List.map_cons, ih smaller]

theorem tmpDigits_numeral (num : BitVec 32) (base : Nat) (large : Bool) :
    (tmpDigits num base large).reverse = numeral large (divideBase base) num.toNat := by
  unfold tmpDigits numeral
  by_cases zero : num = 0
  · subst zero
    rfl
  · have positive : num.toNat ≠ 0 := fun same => zero (BitVec.eq_of_toNat_eq same)
    rw [if_neg zero, if_neg positive, digitLoop_digits _ _ (Nat.lt_trans num.isLt (by decide)), List.map_reverse]

theorem getSign_sign (d : Directive) (v : BitVec 32) :
    (if (getSign v d.type).1 ≠ 0 then [(getSign v d.type).1] else []) = d.sign v ∧
      (getSign v d.type).2.toNat = d.magnitude v := by
  obtain ⟨flags, width, precision, conv⟩ := d
  have abs : 0 ≤ v.toInt → v.toNat = v.toInt.natAbs := by
    intro positive
    rw [BitVec.toInt_eq_toNat_cond] at positive ⊢
    split at positive <;> omega
  cases conv
  case d =>
    have signed : (Directive.mk flags width precision .d).type.sign = true := rfl
    unfold getSign Directive.sign Directive.magnitude
    rw [if_pos signed, if_pos rfl, if_pos rfl]
    by_cases negative : v.toInt < 0
    · rw [if_pos negative, if_pos negative]
      refine ⟨rfl, ?_⟩
      rw [BitVec.toNat_neg]
      rw [BitVec.toInt_eq_toNat_cond] at negative ⊢
      split at negative <;> lia
    · rw [if_neg negative, if_neg negative]
      by_cases plus : Flag.plus ∈ flags
      · have isPlus : (Directive.mk flags width precision .d).type.plus = true := decide_eq_true plus
        rw [if_pos isPlus, if_pos plus]
        exact ⟨rfl, abs (by lia)⟩
      · have notPlus : ¬(Directive.mk flags width precision .d).type.plus = true := by
          simp [Directive.type, Conv.flags, plus]
        rw [if_neg notPlus, if_neg plus]
        by_cases space : Flag.space ∈ flags
        · have isSpace : (Directive.mk flags width precision .d).type.space = true := decide_eq_true space
          rw [if_pos isSpace, if_pos space]
          exact ⟨rfl, abs (by lia)⟩
        · have notSpace : ¬(Directive.mk flags width precision .d).type.space = true := by
            simp [Directive.type, Conv.flags, space]
          rw [if_neg notSpace, if_neg space]
          exact ⟨rfl, abs (by lia)⟩
  all_goals exact ⟨rfl, rfl⟩

/-- The digits as print_number gets them: of base 16 where the base is 8. -/
def Directive.digits (d : Directive) (v : BitVec 32) : Text :=
  numeral (d.conv = .X) (divideBase d.conv.base) (d.magnitude v)

def Directive.most (d : Directive) (v : BitVec 32) : Int := max (d.digits v).length d.precision.limit

/-- What stands between the sign and the padding on the right, but for the zeros of the padding. -/
def Directive.shown (d : Directive) (v : BitVec 32) : Text :=
  List.replicate (d.most v - (d.digits v).length).toNat '0'.toUInt8 ++
    if d.precision.limit ≠ 0 then d.digits v else []

def Directive.pads (d : Directive) (v : BitVec 32) : Padding :=
  padding (int32 (d.width.value - d.most v)) d.zeropad d.left (decide (d.sign v ≠ []))

theorem numberText_parts : numberText v d.conv.base (int32 d.width.value) d.precision.limit d.type =
    List.replicate (d.pads v).before ' '.toUInt8 ++ d.sign v ++
      List.replicate (d.pads v).middle (if d.zeropad then '0'.toUInt8 else ' '.toUInt8) ++ d.shown v ++
      List.replicate (d.pads v).after ' '.toUInt8 := by
  obtain ⟨sign, magnitude⟩ := getSign_sign d v
  have large : d.type.large = decide (d.conv = .X) := by
    rw [Directive.type]
    cases d.conv <;> rfl
  have left : d.type.left = d.left := by
    rw [Directive.type]
    cases d.conv <;> rfl
  have zeropad : (d.type.zeropad && !d.left) = d.zeropad := by
    rw [Directive.zeropad, Directive.type]
    cases d.conv <;> rfl
  have digits : (tmpDigits (getSign v d.type).2 d.conv.base d.type.large).reverse = d.digits v := by
    rw [tmpDigits_numeral, large, magnitude, Directive.digits]
  have length : (tmpDigits (getSign v d.type).2 d.conv.base d.type.large).length = (d.digits v).length := by
    rw [← digits, List.length_reverse]
  have most : (if d.precision.limit < (d.digits v).length then ((d.digits v).length : Int) else d.precision.limit) =
      d.most v := by
    unfold Directive.most
    lia
  have signed : ((getSign v d.type).1 != 0) = decide (d.sign v ≠ []) := by
    rw [← sign]
    by_cases none : (getSign v d.type).1 = 0 <;> simp [none]
  have size : int32 (int32 d.width.value - d.most v) = int32 (d.width.value - d.most v) := Int.bmod_sub_bmod
  simp only [numberText, length, most, digits, sign, zeropad, left, signed, size]
  simp only [Directive.pads, Directive.shown, List.append_assoc]

/-! Sizes. -/

theorem sign_length (d : Directive) (v : BitVec 32) :
    ((d.sign v).length : Int) = if decide (d.sign v ≠ []) then 1 else 0 := by
  have short : (d.sign v).length ≤ 1 := by
    unfold Directive.sign
    repeat' split
    all_goals decide
  cases sign : d.sign v with
  | nil => rfl
  | cons c rest =>
    rw [sign, List.length_cons] at short
    simp only [List.length_cons, ne_eq, reduceCtorEq, not_false_eq_true, decide_true, if_true]
    lia

theorem digitLoop_length (large : Bool) (base cells n : Nat) : (digitLoop large base cells n).length ≤ cells := by
  induction cells generalizing n with
  | zero => exact Nat.le_refl 0
  | succ cells ih =>
    rw [digitLoop]
    split
    · exact Nat.zero_le _
    · exact Nat.succ_le_succ (ih _)

theorem digits_length (d : Directive) (v : BitVec 32) : 1 ≤ (d.digits v).length ∧ (d.digits v).length ≤ 16 := by
  have same := tmpDigits_numeral (getSign v d.type).2 d.conv.base (decide (d.conv = .X))
  rw [(getSign_sign d v).2] at same
  rw [Directive.digits, ← same, List.length_reverse]
  unfold tmpDigits
  split
  · decide
  · rename_i positive
    refine ⟨?_, digitLoop_length ..⟩
    have nonzero : (getSign v d.type).2.toNat ≠ 0 := fun zero => positive (BitVec.eq_of_toNat_eq zero)
    rw [digitLoop, if_neg nonzero]
    exact Nat.succ_le_succ (Nat.zero_le _)

theorem value_nonneg (digits : List (Fin 10)) : 0 ≤ value digits := by
  have up : ∀ (digits : List (Fin 10)) (n : Int), 0 ≤ n → 0 ≤ digits.foldl append n := by
    intro digits
    induction digits with
    | nil => exact fun n positive => positive
    | cons d digits ih => exact fun n positive => ih _ (by unfold append; lia)
  exact up digits 0 (Int.le_refl 0)

theorem width_least (width : Width) : -1 ≤ width.value := by
  cases width with
  | none => exact Int.le_refl _
  | number first rest lead =>
    have positive := value_nonneg (first :: rest)
    change -1 ≤ PrintInt.value (first :: rest)
    lia
  | star w =>
    change -1 ≤ (w.toInt.natAbs : Int)
    lia

theorem precision_least {precision : Precision} {p : Int} (given : precision.value = some p) : -2 ^ 31 ≤ p := by
  cases precision with
  | none => cases given
  | number digits =>
    cases given
    have positive := value_nonneg digits
    lia
  | star w =>
    cases given
    have low := BitVec.le_toInt w
    lia

theorem limit_range (precision : Precision) : -1 ≤ precision.limit ∧ precision.limit < 2 ^ 31 := by
  unfold Precision.limit
  split
  · decide
  · rename_i p _
    have range := int32_range p
    lia

theorem body_length (based : d.digits v = numeral (d.conv = .X) d.conv.base (d.magnitude v)) :
    ((d.body v).length : Int) = match d.precision.value with
      | none => (d.digits v).length
      | some p => if p = 0 ∧ d.magnitude v = 0 then 0 else max (d.digits v).length p := by
  unfold Directive.body
  rw [← based]
  cases d.precision.value with
  | none => rfl
  | some p =>
    by_cases empty : p = 0 ∧ d.magnitude v = 0
    · simp only [if_pos empty]
      rfl
    · simp only [if_neg empty, List.length_append, List.length_replicate]
      lia

theorem shown_length (d : Directive) (v : BitVec 32) :
    ((d.shown v).length : Int) = if d.precision.limit = 0 then 0 else d.most v := by
  have tall := digits_length d v
  have most : d.most v = max ((d.digits v).length : Int) d.precision.limit := rfl
  unfold Directive.shown
  by_cases none : d.precision.limit = 0
  · rw [if_pos none, if_neg (not_not.mpr none), List.append_nil, List.length_replicate, most, none]
    lia
  · rw [if_neg none, if_pos none, List.length_append, List.length_replicate]
    lia

theorem text_length (known : T = numberText v d.conv.base (int32 d.width.value) d.precision.limit d.type) :
    (T.length : Int) = total (d.pads v) + (d.sign v).length + (d.shown v).length := by
  rw [known, numberText_parts]
  simp only [List.length_append, List.length_replicate, total]
  lia

/-! The text is right where the directive is sound. -/

theorem digits_based (octal : d.conv = .o → v.toNat < 8) :
    d.digits v = numeral (d.conv = .X) d.conv.base (d.magnitude v) := by
  unfold Directive.digits
  cases conv : d.conv with
  | d => rfl
  | u => rfl
  | x => rfl
  | X => rfl
  | o =>
    have small : d.magnitude v < 8 := by
      have unsigned : d.magnitude v = v.toNat := by simp [Directive.magnitude, conv]
      rw [unsigned]
      exact octal conv
    unfold numeral
    split
    · rfl
    · rename_i positive
      have hex := Nat.digits_of_lt 16 _ positive (by lia)
      have oct := Nat.digits_of_lt 8 _ positive small
      change List.map _ (Nat.digits 16 (d.magnitude v)).reverse = List.map _ (Nat.digits 8 (d.magnitude v)).reverse
      rw [hex, oct]

theorem apart_left (d : Directive) : (d.zeropad && d.left) = false := by
  unfold Directive.zeropad
  cases d.left <;> simp

theorem pads_cases (d : Directive) (v : BitVec 32) :
    total (d.pads v) < 2 ^ 31 ∧
    (Fits (d.width.value - d.most v) (d.sign v).length d.zeropad d.left →
      d.pads v = onePlace (d.width.value - d.most v - (d.sign v).length).toNat d.zeropad d.left) ∧
    ((total (d.pads v) : Int) = max (d.width.value - d.most v - (d.sign v).length) 0 →
      Fits (d.width.value - d.most v) (d.sign v).length d.zeropad d.left) := by
  have wide := width_least d.width
  have limit := limit_range d.precision
  have tall := digits_length d v
  refine padding_cases (sign_length d v) ?_ (apart_left d)
  unfold Directive.most
  lia

theorem sound_shown (sound : Sound d v) : d.shown v = d.body v ∧
    Fits (d.width.value - d.most v) (d.sign v).length d.zeropad d.left ∧
    max (d.width.value - d.most v - (d.sign v).length) 0 =
      max d.width.value (d.unpadded v).length - (d.unpadded v).length := by
  have based := digits_based sound.octal
  have length := body_length based
  have tall := digits_length d v
  have wide := width_least d.width
  have signs := sign_length d v
  have fits := sound.fits
  have whole : ((d.unpadded v).length : Int) = (d.sign v).length + (d.body v).length := by
    simp [Directive.unpadded]
  unfold Directive.most Directive.shown Directive.body Directive.most
  rw [← based]
  cases given : d.precision.value with
  | none =>
    have limit : d.precision.limit = -1 := by simp only [Precision.limit, given]
    rw [given] at length
    simp only at length
    have most : max ((d.digits v).length : Int) d.precision.limit = (d.body v).length := by lia
    rw [most]
    refine ⟨?_, fits, by lia⟩
    rw [length, limit, Int.sub_self]
    rfl
  | some p =>
    have limit : d.precision.limit = max (int32 p) 0 := by simp only [Precision.limit, given]
    rw [given] at length
    simp only at length
    rcases sound.precision p given with ⟨positive, small⟩ | ⟨zero, nothing, narrow⟩
    · have same : d.precision.limit = p := by
        rw [limit, int32_of_range (by lia) small]
        lia
      rw [if_neg (by lia)] at length
      have most : max ((d.digits v).length : Int) d.precision.limit = (d.body v).length := by lia
      rw [most]
      refine ⟨?_, fits, by lia⟩
      have zeros : ((d.body v).length - (d.digits v).length : Int).toNat = (p - (d.digits v).length).toNat := by lia
      simp only [zeros, same, if_neg (show ¬(p = 0 ∧ d.magnitude v = 0) by lia)]
      rw [if_pos (by lia)]
    · have same : d.precision.limit = 0 := by
        rw [limit, zero]
        rfl
      have single : (d.digits v).length = 1 := by
        rw [based, nothing]
        rfl
      rw [if_pos ⟨zero, nothing⟩] at length
      simp only [same, single, if_pos (And.intro zero nothing)]
      unfold Fits
      split at signs
      · refine ⟨rfl, ?_, by lia⟩
        rw [signs] at narrow ⊢
        split <;> split <;> lia
      · refine ⟨rfl, ?_, by lia⟩
        rw [signs] at narrow ⊢
        split <;> split <;> lia

theorem sound_prints (sound : Sound d v)
    (known : T = numberText v d.conv.base (int32 d.width.value) d.precision.limit d.type) : Prints d v T := by
  obtain ⟨shown, fits, missing⟩ := sound_shown sound
  have place := (pads_cases d v).2.1 fits
  have length := text_length known
  have whole : (d.unpadded v).length = (d.sign v).length + (d.body v).length := by simp [Directive.unpadded]
  constructor
  · refine ⟨(d.width.value - d.most v - (d.sign v).length).toNat, ?_⟩
    rw [known, numberText_parts, place, shown]
    have apart := apart_left d
    cases left : d.left with
    | true =>
      refine Or.inr (Or.inr ?_)
      simp [onePlace]
    | false =>
      cases zeropad : d.zeropad with
      | true =>
        refine Or.inr (Or.inl ?_)
        simp [onePlace]
      | false =>
        refine Or.inl ?_
        simp [onePlace]
  · have count : (total (d.pads v) : Int) = max (d.width.value - d.most v - (d.sign v).length) 0 := by
      rw [place, total_onePlace]
      lia
    rw [length, shown, count]
    lia

/-! Where it is not, the length or the digits are wrong. -/

def strip (T : Text) : Text := (T.filter (· ≠ ' '.toUInt8)).dropWhile (· = '0'.toUInt8)

theorem digit_proper : ∀ large, ∀ k < 16,
    digit large k ≠ ' '.toUInt8 ∧ (digit large k = '0'.toUInt8 → k = 0) := by decide

theorem digit_injective : ∀ large, ∀ k < 16, ∀ l < 16, digit large k = digit large l → k = l := by decide

theorem strip_spaces (n : Nat) (T : Text) : strip (List.replicate n ' '.toUInt8 ++ T) = strip T ∧
    strip (T ++ List.replicate n ' '.toUInt8) = strip T := by
  have gone : (List.replicate n ' '.toUInt8).filter (· ≠ ' '.toUInt8) = [] := by simp
  simp only [strip, List.filter_append, gone, List.append_nil, List.nil_append, and_self]

theorem strip_zeros (n : Nat) (T : Text) : strip (List.replicate n '0'.toUInt8 ++ T) = strip T := by
  have kept : (List.replicate n '0'.toUInt8).filter (· ≠ ' '.toUInt8) = List.replicate n '0'.toUInt8 := by
    refine List.filter_eq_self.mpr ?_
    intro c inside
    rw [List.eq_of_mem_replicate inside]
    decide
  simp only [strip, List.filter_append, kept]
  refine List.dropWhile_append_of_pos ?_
  intro c inside
  exact decide_eq_true (List.eq_of_mem_replicate inside)

variable {large : Bool} {base m : Nat}

theorem strip_numeral (two : 2 ≤ base) (small : base ≤ 16) (positive : m ≠ 0) :
    strip (numeral large base m) = numeral large base m := by
  have some : Nat.digits base m ≠ [] := Nat.digits_ne_nil_iff_ne_zero.mpr positive
  have digits : ∀ k ∈ Nat.digits base m, k < 16 :=
    fun k inside => Nat.lt_of_lt_of_le (Nat.digits_lt_base two inside) small
  have first : (Nat.digits base m).getLast some ≠ 0 := Nat.getLast_digit_ne_zero base positive
  unfold numeral
  rw [if_neg positive, strip, List.filter_eq_self.mpr]
  · have front := List.dropLast_append_getLast some
    rw [← front, List.reverse_append, List.reverse_singleton, List.singleton_append, List.map_cons,
      List.dropWhile_cons_of_neg]
    simp only [decide_eq_true_eq]
    exact fun zero => first ((digit_proper large _ (digits _ (List.getLast_mem some))).2 zero)
  · intro c inside
    obtain ⟨k, mem, rfl⟩ := List.mem_map.mp inside
    exact decide_eq_true (digit_proper large k (digits k (List.mem_reverse.mp mem))).1

theorem map_digit {l l' : List Nat} (small : ∀ k ∈ l, k < 16) (small' : ∀ k ∈ l', k < 16)
    (same : l.map (digit large) = l'.map (digit large)) : l = l' := by
  induction l generalizing l' with
  | nil => exact (List.map_eq_nil_iff.mp same.symm).symm
  | cons k l ih =>
    cases l' with
    | nil => cases same
    | cons k' l' =>
      obtain ⟨head, tail⟩ := List.cons.inj same
      rw [digit_injective large k (small k List.mem_cons_self) k' (small' k' List.mem_cons_self) head,
        ih (fun j inside => small j (List.mem_cons_of_mem k inside))
          (fun j inside => small' j (List.mem_cons_of_mem k' inside)) tail]

theorem numerals_differ (same : numeral large 16 m = numeral large 8 m) : m < 8 := by
  by_cases zero : m = 0
  · lia
  · unfold numeral at same
    rw [if_neg zero, if_neg zero] at same
    have hex : ∀ k ∈ Nat.digits 16 m, k < 16 := fun k inside => Nat.digits_lt_base (by decide) inside
    have oct : ∀ k ∈ Nat.digits 8 m, k < 16 :=
      fun k inside => Nat.lt_trans (Nat.digits_lt_base (by decide) inside) (by decide)
    have digits : Nat.digits 16 m = Nat.digits 8 m := List.reverse_injective (map_digit
      (fun k inside => hex k (List.mem_reverse.mp inside)) (fun k inside => oct k (List.mem_reverse.mp inside)) same)
    have upper := Nat.ofDigits_digits 16 m
    have lower := Nat.ofDigits_digits 8 m
    rw [digits] at upper
    rw [Nat.digits_eq_cons_digits_div (by decide) zero, Nat.ofDigits_cons] at upper lower
    have more := Nat.ofDigits_monotone (Nat.digits 8 (m / 8)) (show 8 ≤ 16 by decide)
    rw [Nat.ofDigits_digits 8 (m / 8)] at more
    lia

theorem octal_text (octal : d.conv = .o) (positive : v.toNat ≠ 0)
    (known : T = numberText v d.conv.base (int32 d.width.value) d.precision.limit d.type) :
    strip T = if d.precision.limit ≠ 0 then d.digits v else [] := by
  have sign : d.sign v = [] := by simp [Directive.sign, octal]
  have magnitude : d.magnitude v = v.toNat := by simp [Directive.magnitude, octal]
  have digits : strip (d.digits v) = d.digits v := by
    unfold Directive.digits
    rw [magnitude, octal]
    exact strip_numeral (by decide) (by decide) positive
  rw [known, numberText_parts, sign, List.append_nil, (strip_spaces _ _).2, List.append_assoc, (strip_spaces _ _).1]
  have middle : strip (List.replicate (d.pads v).middle (if d.zeropad then '0'.toUInt8 else ' '.toUInt8) ++ d.shown v) =
      strip (d.shown v) := by
    split
    · exact strip_zeros _ _
    · exact (strip_spaces _ _).1
  rw [middle, Directive.shown, strip_zeros]
  split
  · exact digits
  · rfl

theorem octal_wanted (octal : d.conv = .o) (positive : v.toNat ≠ 0) (padded : Padded (d.sign v) (d.body v) T) :
    strip T = numeral false 8 v.toNat := by
  have sign : d.sign v = [] := by simp [Directive.sign, octal]
  have magnitude : d.magnitude v = v.toNat := by simp [Directive.magnitude, octal]
  have body : strip (d.body v) = numeral false 8 v.toNat := by
    unfold Directive.body
    rw [magnitude, octal]
    have plain : strip (numeral false 8 v.toNat) = numeral false 8 v.toNat :=
      strip_numeral (by decide) (by decide) positive
    cases d.precision.value with
    | none => exact plain
    | some p =>
      dsimp only
      rw [if_neg (fun both => positive both.2)]
      exact (strip_zeros _ _).trans plain
  obtain ⟨n, left | zeros | right⟩ := padded
  · rw [left, sign, List.append_nil, (strip_spaces _ _).1, body]
  · rw [zeros, sign, List.nil_append, strip_zeros, body]
  · rw [right, sign, List.nil_append, (strip_spaces _ _).2, body]

theorem octal_small (octal : d.conv = .o) (padded : Padded (d.sign v) (d.body v) T)
    (known : T = numberText v d.conv.base (int32 d.width.value) d.precision.limit d.type) : v.toNat < 8 := by
  by_cases positive : v.toNat = 0
  · lia
  · have wanted := octal_wanted octal positive padded
    rw [octal_text octal positive known] at wanted
    have hex : d.digits v = numeral false 16 v.toNat := by
      simp [Directive.digits, Directive.magnitude, octal, Conv.base, divideBase]
    split at wanted
    · exact numerals_differ (hex.symm.trans wanted)
    · unfold numeral at wanted
      rw [if_neg positive] at wanted
      have none := List.reverse_eq_nil_iff.mp (List.map_eq_nil_iff.mp wanted.symm)
      exact absurd none (Nat.digits_ne_nil_iff_ne_zero.mpr positive)

/-- Where the precision is 0 the digit it counts is missing, and the text too short. -/
theorem empty_sound {s x w body i : Int} (left zeropad : Bool) (signs : s = 0 ∨ s = 1) (wide : -1 ≤ w)
    (tall : 1 ≤ i ∧ i ≤ 16) (counted : x = w - i) {pads : Int} (some : 0 ≤ body) (few : pads < 2 ^ 31)
    (placed : Fits x s zeropad left → pads = max (x - s) 0) (length : pads + s = max w (s + body)) :
    body = 0 ∧ w ≤ s := by
  by_cases fits : Fits x s zeropad left
  · have count := placed fits
    lia
  · unfold Fits at fits
    split at fits <;> split at fits <;> lia

theorem pads_counted {pads s shown most w body : Int} (length : pads + s + shown = max w (s + body))
    (printed : shown = most) (same : most = body) : pads = max (w - most - s) 0 := by
  subst printed same
  lia

theorem prints_sound (known : T = numberText v d.conv.base (int32 d.width.value) d.precision.limit d.type)
    (prints : Prints d v T) : Sound d v := by
  obtain ⟨padded, length⟩ := prints
  have octal : d.conv = .o → v.toNat < 8 := fun is => octal_small is padded known
  have based := digits_based octal
  have body := body_length based
  have shown := shown_length d v
  have tall := digits_length d v
  have wide := width_least d.width
  have signs := sign_length d v
  obtain ⟨few, placed, back⟩ := pads_cases d v
  have whole : ((d.unpadded v).length : Int) = (d.sign v).length + (d.body v).length := by
    simp [Directive.unpadded]
  rw [text_length known, whole] at length
  have most : d.most v = max ((d.digits v).length : Int) d.precision.limit := rfl
  have filled : d.most v = (d.body v).length → d.precision.limit ≠ 0 →
      Fits (d.width.value - (d.body v).length) (d.sign v).length d.zeropad d.left := by
    intro same printed
    rw [if_neg printed] at shown
    rw [← same]
    exact back (pads_counted length shown same)
  cases given : d.precision.value with
  | none =>
    have limit : d.precision.limit = -1 := by simp only [Precision.limit, given]
    rw [given] at body
    simp only at body
    refine ⟨octal, ?_, filled (by lia) (by lia)⟩
    intro p given'
    rw [given] at given'
    cases given'
  | some p =>
    have limit : d.precision.limit = max (int32 p) 0 := by simp only [Precision.limit, given]
    rw [given] at body
    simp only at body
    have least := precision_least given
    obtain ⟨k, shift⟩ := int32_shift p
    have range := int32_range p
    by_cases positive : 0 < int32 p
    · rw [if_neg (by lia)] at shown
      have small : p < 2 ^ 31 := by
        by_contra long
        clear filled back placed wide signs based whole
        rw [if_neg (by lia)] at body
        lia
      rw [if_neg (by lia)] at body
      refine ⟨octal, ?_, filled (by lia) (by lia)⟩
      intro q given'
      cases given.symm.trans given'
      exact Or.inl ⟨by lia, small⟩
    · have none : d.precision.limit = 0 := by lia
      rw [if_pos none] at shown
      have single : ((d.sign v).length : Int) = 0 ∨ ((d.sign v).length : Int) = 1 := by
        split at signs
        · exact Or.inr signs
        · exact Or.inl signs
      have count : Fits (d.width.value - d.most v) (d.sign v).length d.zeropad d.left →
          (total (d.pads v) : Int) = max (d.width.value - d.most v - (d.sign v).length) 0 := by
        intro fits
        rw [placed fits, total_onePlace]
        lia
      have digits_most : d.most v = (d.digits v).length := by
        rw [most, none]
        exact max_eq_left (Int.natCast_nonneg _)
      obtain ⟨empty, narrow⟩ := empty_sound (i := (d.digits v).length) d.left d.zeropad single wide (by lia)
        (by rw [digits_most]) (show 0 ≤ ((d.body v).length : Int) by lia) (by lia) count (by lia)
      have nothing : p = 0 ∧ d.magnitude v = 0 := by
        by_contra digits
        rw [if_neg digits] at body
        lia
      refine ⟨octal, ?_, ?_⟩
      · intro q given'
        cases given.symm.trans given'
        exact Or.inr ⟨nothing.1, nothing.2, narrow⟩
      · unfold Fits
        rw [empty]
        split <;> split <;> lia

/-- What rt_vsnprintf makes of an integer conversion is the sign and the digits of the argument, in the
field width, exactly where the directive is sound. -/
theorem int_conversion_prints_iff (d : Directive) (v : BitVec 32) : ∃ T,
    (∀ mem buf size, size < 2 ^ 32 → buf + T.length + 1 < 2 ^ 32 → ∃ mem',
      rtVsnprintf mem buf size d.fmt (d.args v) = some (mem', int32 T.length) ∧ Truncated T mem mem' buf size) ∧
    (Prints d v T ↔ Sound d v) :=
  ⟨_, fun mem buf size bounded room => vsnprintf_text text_fmt mem buf size bounded room, prints_sound rfl,
    fun sound => sound_prints sound rfl⟩

/-- "%o" of 8, "%.0d" of 5, and "%.*d" of 0 with the longest precision. -/
theorem int_conversion_wrong :
    (text (ascii "%o") [.int 8] = some (ascii "8") ∧ ¬Prints ⟨[], .none, .none, .o⟩ 8 (ascii "8")) ∧
    (text (ascii "%.0d") [.int 5] = some [] ∧ ¬Prints ⟨[], .none, .number [0], .d⟩ 5 []) ∧
    ∃ T, text (ascii "%.*d") [.int 2147483647, .int 0] = some T ∧
      ¬Prints ⟨[], .none, .star 2147483647, .d⟩ 0 T := by
  refine ⟨⟨by decide, fun prints => ?_⟩, ⟨by decide, fun prints => ?_⟩, _,
    text_fmt (d := ⟨[], .none, .star 2147483647, .d⟩) (v := 0), fun prints => ?_⟩
  · have sound := prints_sound (by decide) prints
    exact absurd (sound.octal rfl) (by decide)
  · have sound := prints_sound (by decide) prints
    rcases sound.precision 0 rfl with ⟨positive, _⟩ | ⟨_, nothing, _⟩
    · lia
    · exact absurd nothing (by decide)
  · have sound := prints_sound rfl prints
    have body := body_length (digits_based sound.octal)
    have fits := sound.fits.1
    rw [body] at fits
    revert fits
    decide

end RtThread.PrintInt

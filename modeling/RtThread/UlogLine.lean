import Mathlib.Data.Int.ConditionallyCompleteOrder
import Mathlib.Order.Interval.Finset.Defs
import Mathlib.Data.Int.Interval
import Mathlib.Data.List.TakeWhile
import RtThread.PrintInt
import RtThread.Stored

/-! The line buffer of ulog: ulog_formater, with rt_vsnprintf, and the lines of ulog_hexdump. The strings
are the bytes before the NUL, and are not in the buffer. -/
namespace RtThread.UlogLine
open Printf Stored

/-- log_buf, of ULOG_LINE_BUF_SIZE + 1 bytes, in the part of the address space where memory is. -/
structure LineBuf where
  addr : Nat
  size : Nat
  least : 80 ≤ size
  most : size < 2 ^ 30
  low : 0 < addr
  room : addr + size < 0xE0000000

def LineBuf.Outside (b : LineBuf) (a : Nat) : Prop := a < b.addr ∨ b.addr + b.size < a

inductive TimeInfo where
  | none
  | tick
  | timestamp (softRtc : Bool)
  deriving DecidableEq

/-- ULOG_USING_COLOR, ULOG_OUTPUT_TIME, ULOG_OUTPUT_LEVEL, ULOG_OUTPUT_TAG, ULOG_OUTPUT_THREAD_NAME. -/
structure Options where
  color : Bool
  time : TimeInfo
  level : Bool
  tag : Bool
  threadName : Bool

structure Tm where
  mon : BitVec 32
  mday : BitVec 32
  hour : BitVec 32
  min : BitVec 32
  sec : BitVec 32

/-- What ulog_formater reads of the system: the tick, the time, whether it is in an interrupt, and the name
of the thread. -/
structure Context where
  tick : BitVec 32
  tm : Tm
  nested : Bool
  name : Text

/-- The buffer's memory and log_len. -/
structure Log where
  mem : Nat → UInt8
  len : Nat

def lvlDbg : Nat := 7
def rtNameMax : Nat := 8
def csiStart : Text := [27, 91]
def csiEnd : Text := [27, 91, 48, 109]
def newlineSign : Text := [13, 10]

/-- The colours F_MAGENTA, F_RED, F_YELLOW and F_GREEN. -/
def colorOutputInfo : Nat → Option Text
  | 0 => some (ascii "35m")
  | 3 => some (ascii "31m")
  | 4 => some (ascii "33m")
  | 6 => some (ascii "32m")
  | _ => none

def levelOutputInfo : Nat → Option Text
  | 0 => some (ascii "A/")
  | 3 => some (ascii "E/")
  | 4 => some (ascii "W/")
  | 6 => some (ascii "I/")
  | 7 => some (ascii "D/")
  | _ => none

/-- The memory, and how many characters there was space for. -/
def ulogStrcpy (size : Nat) : Nat → (Nat → UInt8) → Nat → Text → (Nat → UInt8) × Nat
  | _, mem, _, [] => (mem, 0)
  | curLen, mem, dst, c :: src =>
    if curLen < size then
      let r := ulogStrcpy size (curLen + 1) (Function.update mem dst c) (dst + 1) src
      (r.1, r.2 + 1)
    else (mem, 0)

/-- The do-while loop: a digit more than there are places is never needed. -/
def ultoaDigits (s : Nat) : Nat → (Nat → UInt8) → Nat → Nat → (Nat → UInt8) × Nat
  | 0, mem, len, _ => (mem, len)
  | places + 1, mem, len, n =>
    let mem := Function.update mem (s + len) (UInt8.ofNat (n % 10 + 48))
    if n / 10 ≠ 0 then ultoaDigits s places mem (len + 1) (n / 10) else (mem, len + 1)

/-- `for (i = 0, j = len - 1; i < j; ++i, --j)`. -/
def ultoaReverse (s : Nat) : Nat → (Nat → UInt8) → Nat → Nat → Nat → UInt8
  | 0, mem, _, _ => mem
  | fuel + 1, mem, i, j =>
    if i < j then
      ultoaReverse s fuel (Function.update (Function.update mem (s + i) (mem (s + j))) (s + j) (mem (s + i)))
        (i + 1) (j - 1)
    else mem

def ulogUltoa (mem : Nat → UInt8) (s : Nat) (n : BitVec 32) : (Nat → UInt8) × Nat :=
  let r := ultoaDigits s 10 mem 0 n.toNat
  (ultoaReverse s r.2 (Function.update r.1 (s + r.2) 0) 0 (r.2 - 1), r.2)

/-- Up to `limit`, which is behind the NUL. -/
def rtStrlen (mem : Nat → UInt8) : Nat → Nat → Nat
  | 0, _ => 0
  | limit + 1, p => if mem p = 0 then 0 else rtStrlen mem limit (p + 1) + 1

def rtStrncpy : (Nat → UInt8) → Nat → Text → Nat → Nat → UInt8
  | mem, _, _, 0 => mem
  | mem, dst, [], n + 1 => store mem dst (List.replicate (n + 1) 0)
  | mem, dst, c :: src, n + 1 => rtStrncpy (Function.update mem dst c) (dst + 1) src n

def rtMemset (mem : Nat → UInt8) (p : Nat) (c : UInt8) (n : Nat) : Nat → UInt8 := store mem p (List.replicate n c)

section Formater
variable (b : LineBuf)

def Log.append (l : Log) (src : Text) : Log :=
  let r := ulogStrcpy b.size l.len l.mem (b.addr + l.len) src
  ⟨r.1, l.len + r.2⟩

/-- `ULOG_LINE_BUF_SIZE - log_len`. -/
def Log.left (l : Log) : Nat := (b.size + 2 ^ 32 - l.len) % 2 ^ 32

def addColor (o : Options) (level : Nat) (l : Log) : Log :=
  match o.color, colorOutputInfo level with
  | true, some info => (l.append b csiStart).append b info
  | _, _ => l

def dateFormat (softRtc : Bool) : Text :=
  ascii (if softRtc then "%02d-%02d %02d:%02d:%02d.%03d" else "%02d-%02d %02d:%02d:%02d")

def dateArgs (softRtc : Bool) (c : Context) : List Arg :=
  [.int (c.tm.mon + 1), .int c.tm.mday, .int c.tm.hour, .int c.tm.min, .int c.tm.sec] ++
    if softRtc then [.int (c.tick % 1000)] else []

def addTime (o : Options) (c : Context) (l : Log) : Option Log :=
  let start := b.addr + l.len
  match o.time with
  | .none => some l
  | .tick =>
    let r := ulogUltoa (Function.update l.mem start 91) (start + 1) c.tick
    let mem := Function.update (Function.update r.1 (start + 1 + r.2) 93) (start + 1 + r.2 + 1) 0
    some ⟨mem, l.len + rtStrlen mem b.size start⟩
  | .timestamp softRtc =>
    (rtVsnprintf l.mem start (l.left b) (dateFormat softRtc) (dateArgs softRtc c)).map (fun r =>
      ⟨r.1, l.len + rtStrlen r.1 b.size start⟩)

/-- The assertion of ulog_strcpy ends it where a level has no letter. -/
def addLevel (o : Options) (level : Nat) (l : Log) : Option Log :=
  if o.level then
    let l := if o.time ≠ .none then l.append b (ascii " ") else l
    (levelOutputInfo level).map (l.append b)
  else some l

def addTag (o : Options) (tag : Text) (l : Log) : Log :=
  if o.tag then
    let l := if o.level = false ∧ o.time ≠ .none then l.append b (ascii " ") else l
    l.append b tag
  else l

def addThread (o : Options) (c : Context) (l : Log) : Log :=
  if o.threadName then
    let l := if o.time ≠ .none ∨ o.level ∨ o.tag then l.append b (ascii " ") else l
    if c.nested then l.append b (ascii "ISR")
    else
      let nameLen := min c.name.length rtNameMax
      ⟨rtStrncpy l.mem (b.addr + l.len) c.name nameLen, l.len + nameLen⟩
  else l

def Log.calculate (l : Log) (fmtResult : Int) : Nat :=
  if ((l.len : Int) + fmtResult) % 2 ^ 32 ≤ b.size ∧ -1 < fmtResult then l.len + fmtResult.toNat else b.size

def addText (fmt : Text) (args : List Arg) (l : Log) : Option Log :=
  (rtVsnprintf l.mem (b.addr + l.len) (l.left b) fmt args).map (fun r => ⟨r.1, l.calculate b r.2⟩)

/-- From the overflow check on. -/
def finish (o : Options) (level : Nat) (newline : Bool) (l : Log) : Log :=
  let reserved := (if o.color then csiEnd.length else 0) + newlineSign.length
  let l := if b.size < l.len + reserved then ⟨l.mem, b.size - reserved⟩ else l
  let l := if newline then l.append b newlineSign else l
  if o.color ∧ (colorOutputInfo level).isSome then l.append b csiEnd else l

/-- `none` where an assertion fails. -/
def ulogFormater (o : Options) (c : Context) (mem : Nat → UInt8) (level : Nat) (tag : Text) (newline : Bool)
    (fmt : Text) (args : List Arg) : Option Log :=
  if lvlDbg < level then none
  else
    (addTime b o c (addColor b o level ⟨mem, 0⟩)).bind fun l =>
    (addLevel b o level l).bind fun l =>
    (addText b fmt args ((addThread b o c (addTag b o tag l)).append b (ascii ": "))).map
    (finish b o level newline)

end Formater

section Copies
variable {size curLen n dst : Nat} {mem : Nat → UInt8} {src : Text}

theorem ulogStrcpy_eq : ulogStrcpy size curLen mem dst src =
    (store mem dst (src.take (size - curLen)), min src.length (size - curLen)) := by
  induction src generalizing curLen mem dst with
  | nil => simp [ulogStrcpy]
  | cons c src ih =>
    simp only [ulogStrcpy]
    split
    · rename_i space
      obtain ⟨rest, more⟩ : ∃ rest, size - curLen = rest + 1 := ⟨size - (curLen + 1), by lia⟩
      rw [ih, store_cons, more, show size - (curLen + 1) = rest by lia, List.take_succ_cons, List.length_cons,
        Nat.succ_min_succ]
    · rename_i full
      rw [show size - curLen = 0 by lia, List.take_zero, store_nil, Nat.min_zero]

theorem rtStrncpy_eq (enough : n ≤ src.length) : rtStrncpy mem dst src n = store mem dst (src.take n) := by
  induction src generalizing n mem dst with
  | nil =>
    rw [Nat.le_zero.mp enough]
    simp [rtStrncpy]
  | cons c src ih =>
    cases n with
    | zero => simp [rtStrncpy]
    | succ n => rw [rtStrncpy, ih (Nat.le_of_succ_le_succ enough), store_cons, List.take_succ_cons]

end Copies

section Filling
variable {b : LineBuf} {l : Log} {mem : Nat → UInt8} {T src : Text} {a : Nat}

theorem append_eq (b : LineBuf) (l : Log) (src : Text) : l.append b src =
    ⟨store l.mem (b.addr + l.len) (src.take (b.size - l.len)), l.len + min src.length (b.size - l.len)⟩ := by
  rw [Log.append, ulogStrcpy_eq]

/-- The buffer holds as much of a text as it has space for, and nothing is written beside it. -/
structure Filled (b : LineBuf) (mem : Nat → UInt8) (T : Text) (l : Log) : Prop where
  len : l.len = min b.size T.length
  outside : ∀ a, b.Outside a → l.mem a = mem a

theorem Filled.append (filled : Filled b mem T l) (src : Text) : Filled b mem (T ++ src) (l.append b src) := by
  have len := filled.len
  rw [append_eq]
  constructor
  · simp only [List.length_append]
    lia
  · intro a away
    refine (store_outside ?_).trans (filled.outside a away)
    rw [List.length_take]
    rcases away with below | above
    · exact .inl (by lia)
    · exact .inr (by lia)

theorem filled_start : Filled b mem [] ⟨mem, 0⟩ := ⟨by simp, fun _ _ => rfl⟩

end Filling

section Numbers
open PrintInt
variable {s len n places i j fuel : Nat} {mem : Nat → UInt8}

theorem decimal_digit : ∀ d < 10, UInt8.ofNat (d + 48) = digit false d := by decide

theorem numeral_small (small : n < 10) : numeral false 10 n = [digit false n] := by
  rw [numeral]
  split
  · rename_i zero
    rw [zero]
    rfl
  · rename_i positive
    rw [Nat.digits_of_lt 10 n positive small]
    rfl

theorem numeral_large (large : 10 ≤ n) : numeral false 10 n = numeral false 10 (n / 10) ++ [digit false (n % 10)] := by
  rw [numeral, if_neg (by lia), numeral, if_neg (by lia), Nat.digits_def' (by decide) (by lia)]
  simp

theorem ultoaDigits_eq (room : n < 10 ^ (places + 1)) : ultoaDigits s (places + 1) mem len n =
    (store mem (s + len) (numeral false 10 n).reverse, len + (numeral false 10 n).length) := by
  induction places generalizing mem len n with
  | zero =>
    rw [ultoaDigits, if_neg (by lia), numeral_small (by lia), Nat.mod_eq_of_lt (by lia),
      decimal_digit n (by lia)]
    simp [← store_cons]
  | succ places ih =>
    rw [ultoaDigits]
    split
    · rename_i more
      have large : 10 ≤ n := by lia
      have fewer : n / 10 < 10 ^ (places + 1) := by
        rw [Nat.pow_succ] at room
        lia
      rw [ih fewer, numeral_large large, decimal_digit _ (Nat.mod_lt _ (by decide)), List.reverse_append,
        List.reverse_singleton, List.singleton_append, ← store_cons, List.length_append, List.length_singleton,
        Nat.add_assoc s, Nat.add_assoc, Nat.add_comm 1]
    · rename_i last
      rw [numeral_small (by lia), Nat.mod_eq_of_lt (by lia), decimal_digit n (by lia)]
      simp [← store_cons]

theorem swap_pair {front inner back : Text} {x z : UInt8} (last : j = (front ++ x :: inner).length) :
    let m := store mem s (front ++ x :: inner ++ z :: back)
    Function.update (Function.update m (s + front.length) (m (s + j))) (s + j) (m (s + front.length)) =
      store mem s (front ++ z :: inner ++ x :: back) := by
  intro m
  have first : m (s + front.length) = x := store_holds _ _ (by simp)
  have second : m (s + j) = z := store_holds _ _ (by rw [last, List.getElem?_append_right (Nat.le_refl _)]; simp)
  have inside : front.length < (front ++ x :: inner ++ z :: back).length := by simp
  have inside' : j < ((front ++ x :: inner ++ z :: back).set front.length z).length := by
    rw [List.length_set, last]
    simp
  rw [first, second, store_set inside, store_set inside']
  congr 1
  have length : j = (front ++ z :: inner).length := by rw [last]; simp
  rw [List.append_assoc, List.set_append_right _ _ (Nat.le_refl _), Nat.sub_self, List.cons_append, List.set_cons_zero,
    ← List.cons_append, ← List.append_assoc, length, List.set_append_right _ _ (Nat.le_refl _), Nat.sub_self,
    List.set_cons_zero]

theorem ultoaReverse_eq {front middle back : Text} (enough : middle.length ≤ 2 * fuel)
    (last : j + 1 = front.length + middle.length) :
    ultoaReverse s fuel (store mem s (front ++ middle ++ back)) front.length j =
      store mem s (front ++ middle.reverse ++ back) := by
  induction fuel generalizing front middle back j with
  | zero =>
    rw [List.length_eq_zero_iff.mp (Nat.le_zero.mp enough)]
    rfl
  | succ fuel ih =>
    rw [ultoaReverse]
    split
    · rename_i pair
      obtain ⟨x, inner, z, rfl⟩ : ∃ x inner z, middle = x :: (inner ++ [z]) := by
        cases middle with
        | nil => simp at last; lia
        | cons x rest =>
          have more : rest ≠ [] := by
            rintro rfl
            simp at last
            lia
          exact ⟨x, rest.dropLast, rest.getLast more, by rw [List.dropLast_append_getLast]⟩
      have place : j = (front ++ x :: inner).length := by
        simp at last ⊢
        lia
      have whole : front ++ x :: (inner ++ [z]) ++ back = (front ++ x :: inner) ++ z :: back := by simp
      have next : front.length + 1 = (front ++ [z]).length := by simp
      have rest : front ++ z :: inner ++ x :: back = (front ++ [z]) ++ inner ++ x :: back := by simp
      rw [whole, swap_pair place, next, rest, ih]
      · simp
      · simp at enough
        lia
      · simp at place ⊢
        lia
    · rename_i done
      have short : middle.length ≤ 1 := by lia
      have same : middle.reverse = middle := by
        match middle, short with
        | [], _ => rfl
        | [x], _ => rfl
      rw [same]

theorem ulogUltoa_eq (mem : Nat → UInt8) (s : Nat) (n : BitVec 32) : ulogUltoa mem s n =
    (store mem s (numeral false 10 n.toNat ++ [0]), (numeral false 10 n.toNat).length) := by
  have room : n.toNat < 10 ^ (9 + 1) := Nat.lt_trans n.isLt (by decide)
  have positive : 0 < (numeral false 10 n.toNat).length := by
    by_cases small : n.toNat < 10
    · rw [numeral_small small]
      exact Nat.zero_lt_one
    · rw [numeral_large (by lia)]
      simp
  simp only [ulogUltoa]
  rw [show (10 : Nat) = 9 + 1 from rfl, ultoaDigits_eq room]
  simp only [Nat.zero_add, Nat.add_zero]
  generalize numeral false 10 n.toNat = digits at *
  have ended : Function.update (store mem s digits.reverse) (s + digits.length) 0 =
      store mem s ([] ++ digits.reverse ++ [0]) := by
    rw [List.nil_append, ← store_snoc, List.length_reverse]
  rw [ended, show (0 : Nat) = ([] : Text).length from rfl,
    ultoaReverse_eq (by rw [List.length_reverse]; lia) (by rw [List.length_reverse]; simp; lia)]
  simp

theorem numeral_nonzero {c : UInt8} (member : c ∈ numeral false 10 n) : c ≠ 0 := by
  have proper : ∀ d < 10, digit false d ≠ 0 := by decide
  rw [numeral] at member
  split at member
  · rw [List.mem_singleton.mp member]
    decide
  · obtain ⟨d, inside, rfl⟩ := List.mem_map.mp member
    exact proper d (Nat.digits_lt_base (by decide) (List.mem_reverse.mp inside))

theorem numeral_length (small : n < 2 ^ 32) : (numeral false 10 n).length ≤ 10 := by
  rw [numeral]
  split
  · decide
  · rw [List.length_map, List.length_reverse]
    exact (Nat.digits_length_le_iff (by decide) n).mpr (Nat.lt_trans small (by decide))

theorem padding_short : ∀ size ∈ Finset.Icc (-16 : Int) 8, ∀ zeropad signed,
    (padding size zeropad false signed).before + (padding size zeropad false signed).middle +
      (padding size zeropad false signed).after ≤ 8 := by decide +kernel

theorem numberText_short {num : BitVec 32} {base : Nat} {w : Int} {type : Flags} (left : type.left = false)
    (low : 0 ≤ w) (high : w ≤ 8) : (numberText num base w (-1) type).length ≤ 25 := by
  have digits : (tmpDigits (getSign num type).2 base type.large).length ≤ 16 := by
    rw [tmpDigits]
    split
    · decide
    · exact digitLoop_length ..
  unfold numberText
  generalize tmpDigits (getSign num type).2 base type.large = tmp at digits
  have none : (-1 : Int) < tmp.length := by lia
  have wide : int32 (w - tmp.length) = w - tmp.length := int32_of_range (by lia) (by lia)
  have short := padding_short (w - tmp.length) (Finset.mem_Icc.mpr (by lia)) type.zeropad
    ((getSign num type).1 != 0)
  simp only [none, if_true, wide, left, Bool.not_false, Bool.and_true, List.length_append, List.length_replicate,
    sub_self, Int.toNat_zero, reduceCtorEq, ne_eq, not_false_eq_true, List.length_reverse]
  have sign : (if ¬(getSign num type).1 = 0 then [(getSign num type).1] else []).length ≤ 1 := by
    split <;> simp
  have shown : (if ¬(-1 : Int) = 0 then tmp.reverse else []).length = tmp.length := by simp
  lia

theorem printNumber_snoc (num : BitVec 32) (base : Nat) (w precision : Int) (type : Flags) (out : Text) :
    printNumber snoc num base w precision type out = out ++ numberText num base w precision type := by
  rw [printNumber_emits, foldl_snoc]

def dated : Flags := { zeropad := true, sign := true }

def dateToSec (tm : Tm) : Text :=
  let field (out : Text) (v : BitVec 32) := printNumber snoc v 10 2 (-1) dated out
  let day := field (snoc (field [] (tm.mon + 1)) 45) tm.mday
  field (snoc (field (snoc (field (snoc day 32) tm.hour) 58) tm.min) 58) tm.sec

theorem date_text (softRtc : Bool) (c : Context) : ∃ T,
    text (dateFormat softRtc) (dateArgs softRtc c) = some T ∧ T.length ≤ 155 := by
  have field (v : BitVec 32) : (numberText v 10 2 (-1) dated).length ≤ 25 :=
    numberText_short rfl (by decide) (by decide)
  have millis (v : BitVec 32) : (numberText v 10 3 (-1) dated).length ≤ 25 :=
    numberText_short rfl (by decide) (by decide)
  have day : (dateToSec c.tm).length ≤ 129 := by
    have mon := field (c.tm.mon + 1)
    have mday := field c.tm.mday
    have hour := field c.tm.hour
    have min_ := field c.tm.min
    have sec := field c.tm.sec
    simp only [dateToSec, printNumber_snoc, snoc, List.length_append, List.length_singleton, List.length_nil]
    lia
  cases softRtc with
  | false => exact ⟨dateToSec c.tm, rfl, by lia⟩
  | true =>
    refine ⟨printNumber snoc (c.tick % 1000) 10 3 (-1) dated (snoc (dateToSec c.tm) 46), rfl, ?_⟩
    have last := millis (c.tick % 1000)
    simp only [printNumber_snoc, snoc, List.length_append, List.length_singleton]
    lia

end Numbers

section Head
open PrintInt
variable {b : LineBuf} {o : Options} {c : Context} {l : Log} {mem mem' : Nat → UInt8} {T : Text} {level limit p : Nat}

def cString (T : Text) : Text := T.takeWhile (· ≠ 0)

theorem rtStrlen_holds (holds : Holds mem p (T ++ [0])) (room : T.length < limit) :
    rtStrlen mem limit p = (cString T).length := by
  induction T generalizing p limit with
  | nil =>
    obtain ⟨rest, rfl⟩ := Nat.exists_eq_add_of_lt room
    have ended : mem p = 0 := holds 0 0 rfl
    rw [rtStrlen, if_pos ended]
    rfl
  | cons x T ih =>
    obtain ⟨rest, rfl⟩ := Nat.exists_eq_succ_of_ne_zero (Nat.ne_zero_of_lt room)
    have first : mem p = x := holds 0 x rfl
    have behind : Holds mem (p + 1) (T ++ [0]) := by
      intro i y here
      rw [Nat.add_assoc, Nat.add_comm 1]
      exact holds (i + 1) y here
    rw [rtStrlen, first, ih behind (by simpa using room), cString, cString, List.takeWhile_cons]
    by_cases nul : x = 0
    · simp [nul]
    · simp [nul]

theorem truncated_holds {size : Nat} (shown : Truncated T mem mem' p size) (space : 0 < size) :
    Holds mem' p (T.take (size - 1) ++ [0]) := by
  intro i x here
  by_cases inside : i < (T.take (size - 1)).length
  · rw [List.getElem?_append_left inside] at here
    rw [List.length_take] at inside
    have same := shown.text space i (by lia)
    rw [List.getElem?_take_of_lt (by lia), same] at here
    exact Option.some.inj here
  · rw [List.getElem?_append_right (by lia)] at here
    have last : i = min T.length (size - 1) := by
      have bound := (List.getElem?_eq_some_iff.mp here).1
      rw [List.length_take, List.length_singleton] at *
      lia
    rw [last, List.length_take, Nat.min_comm (size - 1), Nat.sub_self] at here
    rw [last, shown.nul space]
    exact Option.some.inj here

def colorText (o : Options) (level : Nat) : Text :=
  match o.color, colorOutputInfo level with
  | true, some info => csiStart ++ info
  | _, _ => []

theorem colorText_length (o : Options) (level : Nat) : (colorText o level).length ≤ 5 := by
  rw [colorText]
  split
  · rename_i info _ found
    simp only [colorOutputInfo] at found
    split at found <;> cases found <;> decide
  · decide

def timeText (b : LineBuf) (o : Options) (c : Context) (level : Nat) : Text :=
  match o.time with
  | .none => []
  | .tick => 91 :: numeral false 10 c.tick.toNat ++ [93]
  | .timestamp softRtc =>
    let room := b.size - (colorText o level).length - 1
    cString (((text (dateFormat softRtc) (dateArgs softRtc c)).getD []).take room)

theorem color_filled : Filled b mem (colorText o level) (addColor b o level ⟨mem, 0⟩) := by
  rw [colorText, addColor]
  split
  · exact (filled_start.append csiStart).append _
  · exact filled_start

theorem cString_whole (nonzero : ∀ x ∈ T, x ≠ 0) : cString T = T :=
  List.takeWhile_eq_self_iff.mpr fun x member => by simpa using nonzero x member

theorem Filled.exact (filled : Filled b mem T l) (short : T.length ≤ b.size) : l.len = T.length := by
  rw [filled.len, Nat.min_eq_right short]

theorem tick_filled (filled : Filled b mem T l) (short : T.length ≤ 5) (ticks : o.time = .tick) :
    ∃ l', addTime b o c l = some l' ∧ Filled b mem (T ++ (91 :: numeral false 10 c.tick.toNat ++ [93])) l' := by
  have least := b.least
  have len := filled.exact (by lia)
  have digits := numeral_length c.tick.isLt
  have nonzero : ∀ x ∈ 91 :: numeral false 10 c.tick.toNat ++ [93], x ≠ 0 := by
    simp only [List.cons_append, List.mem_cons, List.mem_append, List.not_mem_nil, or_false]
    rintro x (rfl | member | rfl)
    · decide
    · exact numeral_nonzero member
    · decide
  simp only [addTime, ticks, ulogUltoa_eq]
  generalize numeral false 10 c.tick.toNat = text at *
  have stored : Function.update (Function.update (store (Function.update l.mem (b.addr + l.len) 91)
      (b.addr + l.len + 1) (text ++ [0])) (b.addr + l.len + 1 + text.length) 93)
      (b.addr + l.len + 1 + text.length + 1) 0 = store l.mem (b.addr + l.len) ((91 :: text ++ [93]) ++ [0]) := by
    have bracket : b.addr + l.len + 1 + text.length = b.addr + l.len + (91 :: text).length := by
      rw [List.length_cons]
      lia
    have nul : b.addr + l.len + (91 :: text).length + 1 = b.addr + l.len + (91 :: text ++ [93]).length := by
      simp [Nat.add_assoc]
    have replaced : (91 :: (text ++ [0])).set (91 :: text).length 93 = 91 :: text ++ [93] := by
      rw [← List.cons_append, List.set_append_right _ _ (Nat.le_refl _), Nat.sub_self]
      rfl
    rw [store_cons, bracket, store_set (by simp), nul, replaced, store_snoc]
  have holds : Holds (store l.mem (b.addr + l.len) ((91 :: text ++ [93]) ++ [0])) (b.addr + l.len)
      ((91 :: text ++ [93]) ++ [0]) := store_holds
  have room : ((91 :: text) ++ [93]).length < b.size := by simp; lia
  have length := rtStrlen_holds holds room
  rw [cString_whole nonzero] at length
  rw [stored, length]
  refine ⟨_, rfl, ?_, ?_⟩
  · simp only [List.length_append, List.length_cons, List.length_nil]
    lia
  · intro a away
    refine (store_outside ?_).trans (filled.outside a away)
    simp only [List.length_append, List.length_cons, List.length_nil]
    rcases away with below | above
    · exact .inl (by lia)
    · exact .inr (by lia)

theorem date_filled {softRtc : Bool} (filled : Filled b mem T l) (short : T.length ≤ 5)
    (dates : o.time = .timestamp softRtc) : ∃ l', addTime b o c l = some l' ∧
      Filled b mem (T ++ cString (((text (dateFormat softRtc) (dateArgs softRtc c)).getD []).take
        (b.size - T.length - 1))) l' := by
  have least := b.least
  have room := b.room
  have len := filled.exact (by omega)
  obtain ⟨date, known, length⟩ := date_text softRtc c
  have left : l.left b = b.size - T.length := by
    rw [Log.left]
    omega
  obtain ⟨after, done, shown⟩ := vsnprintf_text known l.mem (b.addr + l.len) (l.left b) (by omega) (by omega)
  have holds := truncated_holds shown (by omega)
  have strlen : rtStrlen after b.size (b.addr + l.len) = (cString (date.take (l.left b - 1))).length :=
    rtStrlen_holds holds (by rw [List.length_take]; omega)
  simp only [addTime, dates, done, known, Option.map_some, Option.getD_some, ← left]
  refine ⟨_, rfl, ?_, ?_⟩
  · simp only [strlen, List.length_append]
    have bound : (cString (date.take (l.left b - 1))).length ≤ (date.take (l.left b - 1)).length :=
      (List.takeWhile_sublist _).length_le
    rw [List.length_take] at bound
    omega
  · intro a away
    refine (shown.outside a ?_).trans (filled.outside a away)
    rcases away with below | above
    · exact .inl (by omega)
    · exact .inr (.inl (by omega))

theorem time_filled (b : LineBuf) (o : Options) (c : Context) (level : Nat) (mem : Nat → UInt8) :
    ∃ l, addTime b o c (addColor b o level ⟨mem, 0⟩) = some l ∧
      Filled b mem (colorText o level ++ timeText b o c level) l := by
  have filled : Filled b mem (colorText o level) (addColor b o level ⟨mem, 0⟩) := color_filled
  have short := colorText_length o level
  rw [timeText]
  cases time : o.time with
  | none =>
    refine ⟨addColor b o level ⟨mem, 0⟩, by simp only [addTime, time], ?_⟩
    simpa using filled
  | tick => exact tick_filled filled short time
  | timestamp softRtc => exact date_filled filled short time

def levelText (o : Options) (level : Nat) : Text :=
  if o.level then (if o.time ≠ .none then ascii " " else []) ++ (levelOutputInfo level).getD [] else []

def tagText (o : Options) (tag : Text) : Text :=
  if o.tag then (if o.level = false ∧ o.time ≠ .none then ascii " " else []) ++ tag else []

def spaceText (o : Options) : Text :=
  if o.threadName ∧ (o.time ≠ .none ∨ o.level ∨ o.tag) then ascii " " else []

def head (b : LineBuf) (o : Options) (c : Context) (level : Nat) (tag : Text) : Text :=
  colorText o level ++ timeText b o c level ++ levelText o level ++ tagText o tag ++ spaceText o

def nameText (o : Options) (c : Context) : Text :=
  if o.threadName then if c.nested then ascii "ISR" else c.name.take rtNameMax else []

/-- The name of a thread, which is copied without a look at the space, has some. -/
def NameFits (b : LineBuf) (o : Options) (c : Context) (level : Nat) (tag : Text) : Prop :=
  o.threadName = true → c.nested = false → c.name = [] ∨
    (head b o c level tag ++ nameText o c).length ≤ b.size

theorem level_filled (filled : Filled b mem T l) (asserted : o.level = true → (levelOutputInfo level).isSome) :
    ∃ l', addLevel b o level l = some l' ∧ Filled b mem (T ++ levelText o level) l' := by
  rw [addLevel, levelText]
  split
  · rename_i shown
    obtain ⟨info, found⟩ := Option.isSome_iff_exists.mp (asserted shown)
    simp only [found, Option.map_some, Option.getD_some]
    refine ⟨_, rfl, ?_⟩
    rw [← List.append_assoc]
    refine Filled.append ?_ info
    split
    · exact filled.append _
    · simpa using filled
  · exact ⟨l, rfl, by simpa using filled⟩

theorem tag_filled (filled : Filled b mem T l) (tag : Text) : Filled b mem (T ++ tagText o tag) (addTag b o tag l) := by
  rw [addTag, tagText]
  split
  · rw [← List.append_assoc]
    refine Filled.append ?_ tag
    split
    · exact filled.append _
    · simpa using filled
  · simpa using filled

theorem space_filled (filled : Filled b mem T l) (named : o.threadName = true) : Filled b mem (T ++ spaceText o)
    (if o.time ≠ .none ∨ o.level ∨ o.tag then l.append b (ascii " ") else l) := by
  simp only [spaceText, named, true_and]
  split
  · exact filled.append _
  · simpa using filled

theorem thread_eq (named : o.threadName = true) (thread : c.nested = false) :
    let l' := if o.time ≠ .none ∨ o.level ∨ o.tag then l.append b (ascii " ") else l
    addThread b o c l = ⟨store l'.mem (b.addr + l'.len) (nameText o c), l'.len + (nameText o c).length⟩ := by
  intro l'
  have text : nameText o c = c.name.take rtNameMax := by
    rw [nameText, if_pos named, if_neg (by simp [thread])]
  have copied (m : Nat → UInt8) (p : Nat) :
      rtStrncpy m p c.name (min c.name.length rtNameMax) = store m p (c.name.take rtNameMax) := by
    rw [rtStrncpy_eq (Nat.min_le_left ..), Nat.min_comm, ← List.take_eq_take_min]
  rw [addThread, if_pos named, if_neg (by simp [thread])]
  simp only [copied, text, List.length_take, Nat.min_comm rtNameMax]
  rfl

theorem thread_filled (filled : Filled b mem T l) (fits : o.threadName = true → c.nested = false →
    c.name = [] ∨ (T ++ spaceText o ++ nameText o c).length ≤ b.size) :
    Filled b mem (T ++ spaceText o ++ nameText o c) (addThread b o c l) := by
  by_cases named : o.threadName = true
  · have spaced := space_filled filled named
    cases interrupt : c.nested with
    | true =>
      rw [addThread, if_pos named, if_pos interrupt, nameText, if_pos named, if_pos interrupt]
      exact spaced.append _
    | false =>
      rw [thread_eq named interrupt]
      have space := fits named interrupt
      generalize (if o.time ≠ .none ∨ o.level ∨ o.tag then l.append b (ascii " ") else l) = l at *
      have len := spaced.len
      have none : c.name = [] → nameText o c = [] := by
        intro empty
        simp [nameText, empty, named, interrupt]
      rcases space with empty | space
      · rw [none empty, store_nil, List.append_nil, List.length_nil, Nat.add_zero]
        exact spaced
      · rw [List.length_append] at space
        refine ⟨?_, ?_⟩
        · rw [List.length_append]
          simp only
          lia
        · intro a away
          refine (store_outside ?_).trans (spaced.outside a away)
          rcases away with below | above
          · exact .inl (by lia)
          · exact .inr (by lia)
  · have silent : spaceText o = [] ∧ nameText o c = [] := by simp [spaceText, nameText, named]
    rw [addThread, if_neg named, silent.1, silent.2, List.append_nil, List.append_nil]
    exact filled

end Head

/-! What rt_vsnprintf writes, also where its cursor passes the end of the address space. -/
section Cursor
variable {k k' : Sink} {c : UInt8} {T fmt : Text} {args : List Arg} {a buf size : Nat} {mem : Nat → UInt8}

theorem puts_stop (k : Sink) (T : Text) : (T.foldl Sink.put k).stop = k.stop := by
  induction T generalizing k with
  | nil => rfl
  | cons c T ih => exact ih (k.put c)

theorem puts_wrap (k : Sink) (T : Text) (low : k.str < 2 ^ 32) :
    (T.foldl Sink.put k).str = (k.str + T.length) % 2 ^ 32 := by
  induction T generalizing k with
  | nil => exact (Nat.mod_eq_of_lt low).symm
  | cons c T ih =>
    have next : (k.put c).str = (k.str + 1) % 2 ^ 32 := rfl
    rw [List.foldl_cons, ih (k.put c) (by lia), next, List.length_cons]
    lia

theorem put_inside (k : Sink) (T : Text) (room : k.str + T.length ≤ 2 ^ 32) (away : a < k.str ∨ k.stop ≤ a) :
    (T.foldl Sink.put k).mem a = k.mem a := by
  induction T generalizing k with
  | nil => rfl
  | cons c T ih =>
    rw [List.length_cons] at room
    have kept : (k.put c).mem a = k.mem a := by
      rw [Sink.put]
      split
      · exact Function.update_of_ne (by lia) ..
      · rfl
    rw [List.foldl_cons]
    cases T with
    | nil => exact kept
    | cons d T =>
      rw [List.length_cons] at room
      have next : (k.put c).str = k.str + 1 := Nat.mod_eq_of_lt (by lia)
      refine (ih (k.put c) ?_ ?_).trans kept
      · rw [next, List.length_cons]
        lia
      · rw [next]
        exact away.imp_left fun below => by lia

/-- Two runs that differ in the memory only, and not at `a`. -/
structure Alike (a : Nat) (k k' : Sink) : Prop where
  str : k.str = k'.str
  stop : k.stop = k'.stop
  same : k.mem a = k'.mem a

theorem update_alike {m m' : Nat → UInt8} (p : Nat) (same : m a = m' a) :
    Function.update m p c a = Function.update m' p c a := by
  by_cases here : a = p
  · rw [here, Function.update_self, Function.update_self]
  · rw [Function.update_of_ne here, Function.update_of_ne here, same]

theorem Alike.put (alike : Alike a k k') : Alike a (k.put c) (k'.put c) := by
  refine ⟨by rw [Sink.put, Sink.put, alike.str], alike.stop, ?_⟩
  rw [Sink.put, Sink.put, alike.str, alike.stop]
  split
  · exact update_alike _ alike.same
  · exact alike.same

theorem Alike.puts (alike : Alike a k k') (T : Text) : Alike a (T.foldl Sink.put k) (T.foldl Sink.put k') := by
  induction T generalizing k k' with
  | nil => exact alike
  | cons c T ih => exact ih alike.put

theorem Alike.terminate (alike : Alike a k k') (size : Nat) : k.terminate size a = k'.terminate size a := by
  rw [Sink.terminate, Sink.terminate, alike.str, alike.stop]
  split
  · split
    · exact update_alike _ alike.same
    · exact update_alike _ alike.same
  · exact alike.same

/-- The character, or the NUL, that comes to the cursor is what is found there afterwards. -/
theorem settles_here (str : k.str = k'.str) (stop : k.stop = k'.stop) (room : k.str < k.stop)
    (some_ : T ≠ [] ∨ 0 < size) :
    (T.foldl Sink.put k).terminate size k.str = (T.foldl Sink.put k').terminate size k.str := by
  cases T with
  | nil =>
    have positive : 0 < size := some_.resolve_left (by simp)
    rw [List.foldl_nil, List.foldl_nil, Sink.terminate, Sink.terminate, if_pos positive, if_pos positive, ← str, ← stop,
      if_pos room, if_pos room, Function.update_self, Function.update_self]
  | cons c T =>
    have first : Alike k.str (k.put c) (k'.put c) := by
      refine ⟨by rw [Sink.put, Sink.put, str], stop, ?_⟩
      rw [Sink.put, Sink.put, ← str, ← stop, if_pos room, if_pos room]
      simp only [Function.update_self]
    exact (first.puts T).terminate size

theorem puts_str (str : k.str = k'.str) (T : Text) : (T.foldl Sink.put k).str = (T.foldl Sink.put k').str := by
  induction T generalizing k k' with
  | nil => exact str
  | cons c T ih => exact ih (by rw [Sink.put, Sink.put, str])

theorem settles_behind {T' : Text} (str : k.str = k'.str) (stop : k.stop = k'.stop)
    (there : (T.foldl Sink.put k).str = a) (room : a < k.stop) (some_ : T' ≠ [] ∨ 0 < size) :
    ((T ++ T').foldl Sink.put k).terminate size a = ((T ++ T').foldl Sink.put k').terminate size a := by
  rw [List.foldl_append, List.foldl_append, ← there]
  refine settles_here (puts_str str T) (by rw [puts_stop, puts_stop, stop]) ?_ some_
  rw [there, puts_stop]
  exact room

theorem vsnprintf_run (known : text fmt args = some T) (buf size : Nat) : ∃ stop size' n,
    (∀ mem, rtVsnprintf mem buf size fmt args = some ((T.foldl Sink.put ⟨mem, buf, stop⟩).terminate size', n)) ∧
      n < 2 ^ 31 ∧ (buf + size < 2 ^ 32 → stop = buf + size ∧ size' = size) ∧
      ((buf + size) % 2 ^ 32 < buf → stop = 2 ^ 32 - 1 ∧ size' = 2 ^ 32 - 1 - buf) := by
  let window := if (buf + size) % 2 ^ 32 < buf then (2 ^ 32 - 1, 2 ^ 32 - 1 - buf) else ((buf + size) % 2 ^ 32, size)
  refine ⟨window.1, window.2, int32 ((T.foldl Sink.put ⟨fun _ => 0, buf, window.1⟩).str - buf), ?_,
    (int32_range _).2, ?_, ?_⟩
  · intro mem
    have str : (Sink.mk mem buf window.1).str = (Sink.mk (fun _ => 0) buf window.1).str := rfl
    rw [← puts_str str T]
    simp only [rtVsnprintf, formatLoop_text, known, Option.map_some, window]
  · intro plain
    have same : window = (buf + size, size) := by
      rw [← Nat.mod_eq_of_lt plain]
      exact if_neg (by lia)
    exact ⟨congrArg Prod.fst same, congrArg Prod.snd same⟩
  · intro wraps
    have same : window = (2 ^ 32 - 1, 2 ^ 32 - 1 - buf) := if_pos wraps
    exact ⟨congrArg Prod.fst same, congrArg Prod.snd same⟩

/-- The text, with its NUL where there is a size, ends before the end of the address space. -/
def TextFits (buf size : Nat) (T : Text) : Prop := buf + T.length < 2 ^ 32 ∨ size = 0 ∧ buf + T.length = 2 ^ 32

theorem vsnprintf_inside (known : text fmt args = some T) (plain : buf + size < 2 ^ 32)
    (fits : TextFits buf size T) : ∃ n < (2 : Int) ^ 31, ∀ mem, ∃ mem',
      rtVsnprintf mem buf size fmt args = some (mem', n) ∧ ∀ a, a < buf ∨ buf + size ≤ a → mem' a = mem a := by
  obtain ⟨stop, size', n, done, bound, ordinary, _⟩ := vsnprintf_run known buf size
  obtain ⟨rfl, rfl⟩ := ordinary plain
  refine ⟨n, bound, fun mem => ⟨_, done mem, fun a away => ?_⟩⟩
  have room : buf + T.length ≤ 2 ^ 32 := by
    rcases fits with fits | fits <;> lia
  have kept := put_inside ⟨mem, buf, buf + size'⟩ T room away
  refine Eq.trans ?_ kept
  rw [Sink.terminate]
  split
  · rename_i positive
    have short : buf + T.length < 2 ^ 32 := by
      rcases fits with fits | fits <;> lia
    have str : (T.foldl Sink.put ⟨mem, buf, buf + size'⟩).str = buf + T.length :=
      (put_all ⟨mem, buf, buf + size'⟩ short).1
    have stop : (T.foldl Sink.put ⟨mem, buf, buf + size'⟩).stop = buf + size' := puts_stop _ T
    rw [str, stop]
    split
    · exact Function.update_of_ne (by lia) ..
    · exact Function.update_of_ne (by lia) ..
  · rfl

theorem vsnprintf_zero (known : text fmt args = some T) (plain : buf + size < 2 ^ 32) (low : 0 < buf)
    (long : ¬ TextFits buf size T) : ∃ n < (2 : Int) ^ 31, ∀ mem mem', ∃ out out',
      rtVsnprintf mem buf size fmt args = some (out, n) ∧ rtVsnprintf mem' buf size fmt args = some (out', n) ∧
        out 0 = out' 0 := by
  obtain ⟨stop, size', n, done, bound, ordinary, _⟩ := vsnprintf_run known buf size
  obtain ⟨rfl, rfl⟩ := ordinary plain
  refine ⟨n, bound, fun mem mem' => ⟨_, _, done mem, done mem', ?_⟩⟩
  simp only [TextFits, not_or, not_and] at long
  have enough : 2 ^ 32 - buf ≤ T.length := by lia
  have length : (T.take (2 ^ 32 - buf)).length = 2 ^ 32 - buf := by
    rw [List.length_take]
    lia
  have there : ((T.take (2 ^ 32 - buf)).foldl Sink.put ⟨mem, buf, buf + size'⟩).str = 0 := by
    rw [puts_wrap _ _ (show buf < 2 ^ 32 by lia), length]
    simp only
    lia
  have more : T.drop (2 ^ 32 - buf) ≠ [] ∨ 0 < size' := by
    by_cases zero : size' = 0
    · left
      intro empty
      have short := List.drop_eq_nil_iff.mp empty
      have longer := long.2 zero
      lia
    · exact .inr (by lia)
  rw [← List.take_append_drop (2 ^ 32 - buf) T]
  exact settles_behind rfl rfl there (Nat.lt_of_lt_of_le low (Nat.le_add_right ..)) more

theorem vsnprintf_first (known : text fmt args = some T) (wraps : (buf + size) % 2 ^ 32 < buf)
    (low : buf < 2 ^ 32 - 1) : ∃ n < (2 : Int) ^ 31, ∀ mem mem', ∃ out out',
      rtVsnprintf mem buf size fmt args = some (out, n) ∧ rtVsnprintf mem' buf size fmt args = some (out', n) ∧
        out buf = out' buf := by
  obtain ⟨stop, size', n, done, bound, _, wrapped⟩ := vsnprintf_run known buf size
  obtain ⟨rfl, rfl⟩ := wrapped wraps
  refine ⟨n, bound, fun mem mem' => ⟨_, _, done mem, done mem', ?_⟩⟩
  exact settles_here rfl rfl low (.inr (Nat.sub_pos_of_lt low))

end Cursor

section Formats
variable {b : LineBuf} {o : Options} {c : Context} {l : Log} {mem : Nat → UInt8} {T tag fmt src : Text}
  {args : List Arg} {level : Nat} {newline : Bool}

theorem append_whole (room : l.len + src.length ≤ b.size) :
    l.append b src = ⟨store l.mem (b.addr + l.len) src, l.len + src.length⟩ := by
  rw [append_eq, List.take_of_length_le (by lia), Nat.min_eq_left (by lia)]

theorem append_full (full : b.size ≤ l.len) : l.append b src = l := by
  rw [append_eq, show b.size - l.len = 0 by lia, List.take_zero, store_nil, Nat.min_zero]
  rfl

def Ends (b : LineBuf) (l : Log) (T : Text) : Prop := ∃ n, l.len = n + T.length ∧ Holds l.mem (b.addr + n) T

def trailer (o : Options) (level : Nat) : Text :=
  newlineSign ++ if o.color ∧ (colorOutputInfo level).isSome then csiEnd else []

theorem store_kept {n : Nat} (room : n + src.length ≤ b.size) {a : Nat} (away : b.Outside a) :
    store mem (b.addr + n) src a = mem a := by
  refine store_outside ?_
  rcases away with below | above
  · exact .inl (by lia)
  · exact .inr (by lia)

theorem finish_kept (bound : l.len ≤ b.size) :
    (∀ a, b.Outside a → (finish b o level newline l).mem a = l.mem a) ∧ (finish b o level newline l).len ≤ b.size ∧
      (newline = true → Ends b (finish b o level newline l) (trailer o level)) := by
  have least := b.least
  let reserved := (if o.color then csiEnd.length else 0) + newlineSign.length
  let cut : Log := if b.size < l.len + reserved then ⟨l.mem, b.size - reserved⟩ else l
  have few : reserved ≤ 6 := by
    simp only [reserved]
    split <;> decide
  have space : cut.mem = l.mem ∧ cut.len + reserved ≤ b.size := by
    simp only [cut]
    split
    · exact ⟨rfl, by simp only; lia⟩
    · exact ⟨rfl, by lia⟩
  have same : finish b o level newline l =
      (let l := if newline then cut.append b newlineSign else cut
      if o.color ∧ (colorOutputInfo level).isSome then l.append b csiEnd else l) := rfl
  obtain ⟨mem, room⟩ := space
  rw [same, ← mem]
  generalize cut = l at room
  have sign : newlineSign.length = 2 := rfl
  have end_ : csiEnd.length = 4 := rfl
  have one : l.append b newlineSign = ⟨store l.mem (b.addr + l.len) newlineSign, l.len + 2⟩ :=
    append_whole (by lia)
  rw [trailer]
  by_cases colored : o.color = true ∧ (colorOutputInfo level).isSome = true
  · have more : reserved = 6 := by simp [reserved, colored.1, sign, end_]
    simp only [if_pos colored]
    cases newline with
    | false =>
      rw [if_neg Bool.false_ne_true, append_whole (by lia)]
      exact ⟨fun a away => store_kept (by lia) away, by simp only; lia, nofun⟩
    | true =>
      have both : (l.append b newlineSign).append b csiEnd =
          ⟨store l.mem (b.addr + l.len) (newlineSign ++ csiEnd), l.len + 6⟩ := by
        rw [one, append_whole (by simp only; lia), ← store_append]
        simp only [sign, end_, Nat.add_assoc]
      rw [if_pos rfl, both]
      have length : (newlineSign ++ csiEnd).length = 6 := rfl
      exact ⟨fun a away => store_kept (by lia) away, by simp only; lia, fun _ => ⟨l.len, rfl, store_holds⟩⟩
  · have two : 2 ≤ reserved := by simp only [reserved, sign]; lia
    simp only [if_neg colored, List.append_nil]
    cases newline with
    | false =>
      rw [if_neg Bool.false_ne_true]
      exact ⟨fun _ _ => rfl, by lia, nofun⟩
    | true =>
      rw [if_pos rfl, one]
      exact ⟨fun a away => store_kept (by lia) away, by simp only; lia, fun _ => ⟨l.len, rfl, store_holds⟩⟩

theorem calculate_bound {n : Int} (near : l.len ≤ b.size + rtNameMax) (bound : n < 2 ^ 31) :
    l.calculate b n ≤ b.size := by
  have most := b.most
  have name : rtNameMax = 8 := rfl
  rw [Log.calculate]
  split <;> lia

/-- RT_ASSERT(level <= LOG_LVL_DBG), and RT_ASSERT(src) in ulog_strcpy. -/
def Asserted (o : Options) (level : Nat) : Prop :=
  level ≤ lvlDbg ∧ (o.level = true → (levelOutputInfo level).isSome)

def preamble (b : LineBuf) (o : Options) (c : Context) (level : Nat) (tag : Text) : Text :=
  head b o c level tag ++ nameText o c ++ ascii ": "

/-- ulog_formater up to the log's text. -/
theorem preamble_start (b : LineBuf) (o : Options) (c : Context) (tag : Text) (newline : Bool) (fmt : Text)
    (args : List Arg) (mem : Nat → UInt8) (asserted : Asserted o level) : ∃ l,
      ulogFormater b o c mem level tag newline fmt args =
          (addText b fmt args ((addThread b o c l).append b (ascii ": "))).map (finish b o level newline) ∧
        Filled b mem (colorText o level ++ timeText b o c level ++ levelText o level ++ tagText o tag) l := by
  obtain ⟨l, timed, filled⟩ := time_filled b o c level mem
  obtain ⟨l', leveled, filled'⟩ := level_filled filled asserted.2
  refine ⟨addTag b o tag l', ?_, tag_filled filled' tag⟩
  rw [ulogFormater, if_neg (Nat.not_lt.mpr asserted.1), timed, Option.bind_some, leveled, Option.bind_some]

/-- In the buffer, with its trailer, whatever the memory holds. -/
def Formats (b : LineBuf) (o : Options) (c : Context) (level : Nat) (tag : Text) (newline : Bool) (fmt : Text)
    (args : List Arg) : Prop :=
  ∀ mem, ∃ l, ulogFormater b o c mem level tag newline fmt args = some l ∧ (∀ a, b.Outside a → l.mem a = mem a) ∧
    l.len ≤ b.size ∧ (newline = true → Ends b l (trailer o level))

def FormatFits (b : LineBuf) (o : Options) (c : Context) (level : Nat) (tag : Text) (fmt : Text) (args : List Arg) :
    Prop :=
  NameFits b o c level tag ∧ ∀ T, text fmt args = some T →
    let start := min b.size (preamble b o c level tag).length
    TextFits (b.addr + start) (b.size - start) T

theorem formats_fitting (matching : Matches fmt args) (asserted : Asserted o level)
    (fits : FormatFits b o c level tag fmt args) : Formats b o c level tag newline fmt args := by
  intro mem
  obtain ⟨l, done, filled⟩ := preamble_start b o c tag newline fmt args mem asserted
  have most := b.most
  have room := b.room
  have filled : Filled b mem (preamble b o c level tag) ((addThread b o c l).append b (ascii ": ")) :=
    (thread_filled filled fits.1).append _
  rw [done]
  generalize (addThread b o c l).append b (ascii ": ") = l at *
  obtain ⟨T, known⟩ := text_matches matching
  have len := filled.len
  have left : l.left b = b.size - l.len := by
    rw [Log.left]
    lia
  have text := fits.2 T known
  simp only [← len] at text
  obtain ⟨n, bound, prints⟩ := vsnprintf_inside known (by lia) text
  obtain ⟨mem', printed, inside⟩ := prints l.mem
  have short := calculate_bound (b := b) (l := l) (by lia) bound
  rw [addText, left, printed, Option.map_some, Option.map_some]
  obtain ⟨outside, kept, ends⟩ := finish_kept (b := b) (o := o) (l := ⟨mem', l.calculate b n⟩) short
  refine ⟨_, rfl, fun a away => ?_, kept, ends⟩
  rw [outside a away]
  refine Eq.trans (inside a ?_) (filled.outside a away)
  rcases away with below | above
  · exact .inl (by lia)
  · exact .inr (by lia)

/-- A place beside the buffer that rt_vsnprintf leaves the same from any two memories is written. -/
theorem formats_apart (p start : Nat) (asserted : Asserted o level) (away : b.Outside p)
    (starts : ∀ mem l, Filled b mem (colorText o level ++ timeText b o c level ++ levelText o level ++ tagText o tag) l →
      ((addThread b o c l).append b (ascii ": ")).len = start) (near : start ≤ b.size + rtNameMax)
    (settles : ∃ n < (2 : Int) ^ 31, ∀ mem mem', ∃ out out',
      rtVsnprintf mem (b.addr + start) ((b.size + 2 ^ 32 - start) % 2 ^ 32) fmt args = some (out, n) ∧
        rtVsnprintf mem' (b.addr + start) ((b.size + 2 ^ 32 - start) % 2 ^ 32) fmt args = some (out', n) ∧
        out p = out' p) : ¬ Formats b o c level tag newline fmt args := by
  intro formats
  obtain ⟨n, bound, prints⟩ := settles
  obtain ⟨l₀, done₀, filled₀⟩ := preamble_start b o c tag newline fmt args (fun _ => 0) asserted
  obtain ⟨l₁, done₁, filled₁⟩ := preamble_start b o c tag newline fmt args (fun _ => 1) asserted
  have start₀ := starts _ _ filled₀
  have start₁ := starts _ _ filled₁
  generalize (addThread b o c l₀).append b (ascii ": ") = m₀ at *
  generalize (addThread b o c l₁).append b (ascii ": ") = m₁ at *
  obtain ⟨out₀, out₁, print₀, print₁, same⟩ := prints m₀.mem m₁.mem
  have value (mem : Nat → UInt8) {m : Log} {out : Nat → UInt8} (at_ : m.len = start)
      (done : ulogFormater b o c mem level tag newline fmt args = (addText b fmt args m).map (finish b o level newline))
      (print : rtVsnprintf m.mem (b.addr + start) ((b.size + 2 ^ 32 - start) % 2 ^ 32) fmt args = some (out, n)) :
      out p = mem p := by
    obtain ⟨l, result, inside, _⟩ := formats mem
    rw [addText, Log.left, at_, print, Option.map_some, Option.map_some] at done
    have kept : (finish b o level newline ⟨out, m.calculate b n⟩).mem p = out p :=
      (finish_kept (calculate_bound (by lia) bound)).1 p away
    refine kept.symm.trans ?_
    rw [← inside p away, Option.some.inj (result.symm.trans done)]
  have zero := value _ start₀ done₀ print₀
  have one := value _ start₁ done₁ print₁
  rw [zero, one] at same
  contradiction

theorem name_apart (matching : Matches fmt args) (asserted : Asserted o level) (long : ¬ NameFits b o c level tag) :
    ¬ Formats b o c level tag newline fmt args := by
  simp only [NameFits, not_forall, not_or] at long
  obtain ⟨named, thread, name, long⟩ := long
  have most := b.most
  have room := b.room
  obtain ⟨T, known⟩ := text_matches matching
  have text : nameText o c = c.name.take rtNameMax := by
    rw [nameText, if_pos named, if_neg (by simp [thread])]
  have few : (nameText o c).length ≤ 8 := by
    rw [text, List.length_take]
    exact Nat.min_le_left ..
  have some_ : 0 < (nameText o c).length := by
    rw [text, List.length_take]
    exact Nat.lt_min.mpr ⟨by decide, List.length_pos_iff.mpr name⟩
  rw [List.length_append, Nat.not_le] at long
  have name_max : rtNameMax = 8 := rfl
  refine formats_apart (b.addr + (min b.size (head b o c level tag).length + (nameText o c).length))
    (min b.size (head b o c level tag).length + (nameText o c).length) asserted (.inr (by lia)) ?_ (by lia) ?_
  · intro mem l filled
    have spaced := (space_filled filled named).len
    rw [thread_eq named thread, append_full]
    · exact congrArg (· + _) spaced
    · simp only [spaced]
      change b.size ≤ min b.size (head b o c level tag).length + _
      lia
  · exact vsnprintf_first known (by lia) (by lia)

theorem text_apart (asserted : Asserted o level) (named : NameFits b o c level tag) (known : text fmt args = some T)
    (long : let start := min b.size (preamble b o c level tag).length
      ¬ TextFits (b.addr + start) (b.size - start) T) : ¬ Formats b o c level tag newline fmt args := by
  intro formats
  have most := b.most
  have room := b.room
  have low := b.low
  refine formats_apart 0 (min b.size (preamble b o c level tag).length) asserted (.inl low) ?_ (by lia) ?_ formats
  · intro mem l filled
    exact ((thread_filled filled named).append _).len
  · rw [show (b.size + 2 ^ 32 - min b.size (preamble b o c level tag).length) % 2 ^ 32 =
      b.size - min b.size (preamble b o c level tag).length by lia]
    exact vsnprintf_zero known (by lia) (by lia) long

theorem formats_iff (matching : Matches fmt args) (asserted : Asserted o level) :
    Formats b o c level tag newline fmt args ↔ FormatFits b o c level tag fmt args := by
  constructor
  · intro formats
    have named : NameFits b o c level tag := by
      by_contra long
      exact name_apart matching asserted long formats
    refine ⟨named, fun T known => ?_⟩
    by_contra long
    exact text_apart asserted named known long formats
  · exact formats_fitting matching asserted

end Formats

end RtThread.UlogLine

import Mathlib.Algebra.Order.Ring.Int
import Mathlib.Data.List.Basic

/-! A two-wire bus seen from outside: the levels a master drives, the clock pulses and the START and
STOP conditions a listener makes of them, and the bytes the pulses spell. -/
namespace TwoWire

/-- One act of the master; `sample v` reads the data line and finds `v`. -/
inductive Drive where
  | sda (v : Bool)
  | scl (v : Bool)
  | sample (v : Bool)

inductive Mark where
  | start
  | stop
  | bit (v : Bool)

/-- `pulse`: the bit of the clock pulse under way. A phase in which the data line has changed, and
the phase before the first falling edge, is no pulse. -/
structure Lines where
  scl : Bool
  sda : Bool
  pulse : Option Bool

def Lines.idle : Lines := ⟨true, true, none⟩

def Lines.low (sda : Bool) : Lines := ⟨false, sda, none⟩

def Lines.next (l : Lines) : Drive → Lines
  | .sda v => if v = l.sda then l else ⟨l.scl, v, none⟩
  | .scl true => if l.scl then l else ⟨true, l.sda, some l.sda⟩
  | .scl false => ⟨false, l.sda, none⟩
  | .sample v => { l with pulse := l.pulse.map (fun _ => v) }

def Lines.shows (l : Lines) : Drive → List Mark
  | .sda v => if v = l.sda ∨ l.scl = false then [] else if v then [.stop] else [.start]
  | .scl false => l.pulse.toList.map .bit
  | _ => []

def settle (l : Lines) : List Drive → Lines
  | [] => l
  | d :: rest => settle (l.next d) rest

def marks (l : Lines) : List Drive → List Mark
  | [] => []
  | d :: rest => l.shows d ++ marks (l.next d) rest

@[simp] theorem sda_next_sda (l : Lines) (v : Bool) : (l.next (.sda v)).sda = v := by
  by_cases same : v = l.sda <;> simp [Lines.next, same]

@[simp] theorem sda_next_scl (l : Lines) (v : Bool) : (l.next (.scl v)).sda = l.sda := by
  cases v
  · rfl
  · by_cases high : l.scl = true <;> simp [Lines.next, high]

@[simp] theorem sda_next_sample (l : Lines) (v : Bool) : (l.next (.sample v)).sda = l.sda := rfl

theorem settle_append (l : Lines) (ds es : List Drive) :
    settle l (ds ++ es) = settle (settle l ds) es := by
  induction ds generalizing l with
  | nil => rfl
  | cons d rest ih => exact ih (l.next d)

theorem marks_append (l : Lines) (ds es : List Drive) :
    marks l (ds ++ es) = marks l ds ++ marks (settle l ds) es := by
  induction ds generalizing l with
  | nil => rfl
  | cons d rest ih => simp only [List.cons_append, marks, settle, ih, List.append_assoc]

theorem settle_pulse (l : Lines) (ds : List Drive) (rest : l.scl = false → l.pulse = none) :
    (settle l ds).scl = false → (settle l ds).pulse = none := by
  induction ds generalizing l with
  | nil => exact rest
  | cons d ds ih =>
    refine ih (l.next d) ?_
    cases d with
    | sda v =>
      by_cases same : v = l.sda
      · simpa [Lines.next, same] using rest
      · simp [Lines.next, same]
    | scl v =>
      cases v with
      | false => simp [Lines.next]
      | true =>
        by_cases high : l.scl
        · simp [Lines.next, high]
        · simp [Lines.next, high]
    | sample v =>
      intro low
      simp [Lines.next, rest low]

/-- Nine pulses: a byte, most significant bit first, and the answer to it, low for ACK. -/
inductive Sym where
  | start
  | stop
  | byte (b : BitVec 8) (ack : Bool)
  deriving DecidableEq

def bitsBelow (b : BitVec 8) : Nat → List Bool
  | 0 => []
  | n + 1 => b.getLsbD n :: bitsBelow b n

def Sym.marks : Sym → List Mark
  | .start => [.start]
  | .stop => [.stop]
  | .byte b ack => (bitsBelow b 8).map .bit ++ [.bit (!ack)]

def spell (syms : List Sym) : List Mark := syms.flatMap Sym.marks

def shiftIn (b : BitVec 8) (v : Bool) : BitVec 8 := if v then b <<< 1 ||| 1 else b <<< 1

def byteOf (bits : List Bool) : BitVec 8 := bits.foldl shiftIn 0

/-- Reads the marks back, `held` being the bits since the last whole byte. A condition inside a byte,
or a byte that is not finished, makes the sequence illegal. -/
def parse (held : List Bool) : List Mark → Option (List Sym)
  | [] => if held = [] then some [] else none
  | .bit v :: rest =>
    if held.length = 8 then (parse [] rest).map (Sym.byte (byteOf held) (!v) :: ·)
    else parse (held ++ [v]) rest
  | .start :: rest => if held = [] then (parse [] rest).map (Sym.start :: ·) else none
  | .stop :: rest => if held = [] then (parse [] rest).map (Sym.stop :: ·) else none

theorem byteOf_bits (b : BitVec 8) : byteOf (bitsBelow b 8) = b := by
  revert b
  decide +kernel

theorem bits_byteOf (bits : List Bool) (whole : bits.length = 8) : bitsBelow (byteOf bits) 8 = bits := by
  match bits, whole with
  | [a, b, c, d, e, f, g, h], _ =>
    revert a b c d e f g h
    decide +kernel

@[simp] theorem bitsBelow_length (b : BitVec 8) (n : Nat) : (bitsBelow b n).length = n := by
  induction n with
  | zero => rfl
  | succ n ih => simp [bitsBelow, ih]

theorem parse_bits (held bits : List Bool) (room : held.length + bits.length ≤ 8) (rest : List Mark) :
    parse held (bits.map .bit ++ rest) = parse (held ++ bits) rest := by
  induction bits generalizing held with
  | nil => simp
  | cons v bits ih =>
    simp only [List.length_cons] at room
    have more : held.length ≠ 8 := by omega
    simp only [List.map_cons, List.cons_append, parse, more, if_false]
    rw [ih _ (by simp only [List.length_append, List.length_cons, List.length_nil]; omega)]
    simp

theorem parse_spell (syms : List Sym) : parse [] (spell syms) = some syms := by
  induction syms with
  | nil => rfl
  | cons sym rest ih =>
    cases sym with
    | start => simpa [spell, Sym.marks, parse] using ih
    | stop => simpa [spell, Sym.marks, parse] using ih
    | byte b ack =>
      have bits := parse_bits [] (bitsBelow b 8) (by simp) (.bit (!ack) :: spell rest)
      simp only [spell, List.flatMap_cons, Sym.marks, List.append_assoc, List.cons_append,
        List.nil_append] at bits ⊢
      rw [bits]
      simp only [parse, bitsBelow_length, if_true, byteOf_bits, Bool.not_not]
      rw [show parse [] (List.flatMap Sym.marks rest) = some rest from ih]
      rfl

end TwoWire

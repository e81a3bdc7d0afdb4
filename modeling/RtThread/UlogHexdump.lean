import RtThread.UlogLine

/-! The lines of ulog_hexdump, and what holds of the line buffer in all of ulog. -/
namespace RtThread.UlogHexdump
open Printf Stored UlogLine

def isPrint (ch : UInt8) : Bool := (ch.toNat + 2 ^ 32 - 32) % 2 ^ 32 < 127 - 32

/-- dump_string, of eight bytes, after rt_snprintf. -/
def dumpString (fmt : Text) (ch : UInt8) : Text :=
  cString (((text fmt [.int (ch.toBitVec.setWidth 32)]).getD []).take 7)

section Line
variable (b : LineBuf)

/-- What a call of ulog_hexdump dumps. -/
structure Dump where
  tag : Text
  width : Nat
  size : Nat
  buf : Nat → UInt8

def Dump.has (d : Dump) (i j : Nat) : Bool := (i + j) % 2 ^ 32 < d.size

def Dump.at (d : Dump) (i j : Nat) : UInt8 := d.buf ((i + j) % 2 ^ 32)

def packageHeader (d : Dump) (i : Nat) (mem : Nat → UInt8) : Log :=
  if i = 0 then ((Log.append b ⟨mem, 0⟩ (ascii "D/HEX ")).append b d.tag).append b (ascii ": ")
  else ⟨rtMemset mem b.addr 32 (6 + d.tag.length + 2), 6 + d.tag.length + 2⟩

def headerArgs (d : Dump) (i : Nat) : List Arg :=
  [.int (BitVec.ofNat 32 i), .int (BitVec.ofNat 32 (i + d.width) - 1)]

def dumpHex (d : Dump) (i : Nat) (l : Log) (j : Nat) : Log :=
  let l := l.append b (if d.has i j then dumpString (ascii "%02X ") (d.at i j) else ascii "   ")
  if (j + 1) % 8 = 0 then l.append b (ascii " ") else l

def dumpChar (d : Dump) (i : Nat) (l : Log) (j : Nat) : Log :=
  if d.has i j then
    l.append b (dumpString (ascii "%c") (if isPrint (d.at i j) then d.at i j else 46))
  else l

/-- From the overflow check on. -/
def closeLine (l : Log) : Log :=
  let l := if b.size < l.len + newlineSign.length then ⟨l.mem, b.size - newlineSign.length⟩ else l
  let l := l.append b newlineSign
  ⟨Function.update l.mem (b.addr + l.len) 0, l.len⟩

/-- From `dump hex` on. -/
def dumpLine (d : Dump) (i : Nat) (l : Log) : Log :=
  let l := (List.range d.width).foldl (dumpHex b d i) l
  closeLine b ((List.range d.width).foldl (dumpChar b d i) (l.append b (ascii "  ")))

def headerLen (l : Log) (fmtResult : Int) : Nat :=
  if -1 < fmtResult ∧ fmtResult ≤ (b.size : Int) then l.len + fmtResult.toNat else b.size

/-- A turn of the loop of ulog_hexdump. The size given to rt_snprintf is that of the whole buffer. -/
def hexLine (d : Dump) (i : Nat) (mem : Nat → UInt8) : Option Log :=
  let l := packageHeader b d i mem
  (rtVsnprintf l.mem (b.addr + l.len) b.size (ascii "%04X-%04X: ") (headerArgs d i)).map (fun r =>
    dumpLine b d i ⟨r.1, headerLen b l r.2⟩)

/-- `for (i = 0; i < size; i += width)`. -/
inductive Reached (d : Dump) : Nat → Prop where
  | first : 0 < d.size → Reached d 0
  | next {i : Nat} : Reached d i → (i + d.width) % 2 ^ 32 < d.size → Reached d ((i + d.width) % 2 ^ 32)

end Line

def headerText (d : Dump) (i : Nat) : Text := (text (ascii "%04X-%04X: ") (headerArgs d i)).getD []

/-- Every line stays in the buffer, whatever the memory holds. -/
def Dumps (b : LineBuf) (d : Dump) : Prop :=
  ∀ i, Reached d i → ∀ mem, ∃ l, hexLine b d i mem = some l ∧ (∀ a, b.Outside a → l.mem a = mem a) ∧
    l.len ≤ b.size ∧ Ends b l newlineSign

/-- "D/HEX ", the name, ": " and the offsets of each line have space. -/
def DumpFits (b : LineBuf) (d : Dump) : Prop :=
  ∀ i, Reached d i → 6 + d.tag.length + 2 + (headerText d i).length ≤ b.size

section Lines
variable {b : LineBuf} {d : Dump} {i a : Nat} {l : Log} {mem : Nat → UInt8}

theorem header_known (d : Dump) (i : Nat) :
    text (ascii "%04X-%04X: ") (headerArgs d i) = some (headerText d i) ∧
      1 ≤ (headerText d i).length ∧ (headerText d i).length ≤ 53 := by
  have field (v : BitVec 32) : (numberText v 16 4 (-1) { zeropad := true, large := true }).length ≤ 25 :=
    numberText_short rfl (by decide) (by decide)
  have known : ∀ v w : BitVec 32, text (ascii "%04X-%04X: ") [.int v, .int w] =
      some (snoc (snoc (printNumber snoc w 16 4 (-1) { zeropad := true, large := true }
        (snoc (printNumber snoc v 16 4 (-1) { zeropad := true, large := true } []) 45)) 58) 32) := fun _ _ => rfl
  have first := field (BitVec.ofNat 32 i)
  have second := field (BitVec.ofNat 32 (i + d.width) - 1)
  rw [headerText, headerArgs, known]
  refine ⟨rfl, ?_⟩
  simp only [Option.getD_some, printNumber_snoc, snoc, List.length_append, List.length_singleton, List.length_nil]
  lia

theorem append_outside (l : Log) (src : Text) (away : b.Outside a) : (l.append b src).mem a = l.mem a := by
  by_cases full : b.size ≤ l.len
  · rw [append_full full]
  · rw [append_eq]
    refine store_outside ?_
    rw [List.length_take]
    rcases away with below | above
    · exact .inl (by lia)
    · exact .inr (by lia)

theorem append_bound (src : Text) (bound : l.len ≤ b.size) : (l.append b src).len ≤ b.size := by
  rw [append_eq]
  simp only
  lia

/-- A part of a line that is made of appends. -/
structure Appends (b : LineBuf) (f : Log → Log) : Prop where
  outside : ∀ l a, b.Outside a → (f l).mem a = l.mem a
  bound : ∀ l, l.len ≤ b.size → (f l).len ≤ b.size

theorem appends_one (src : Text) : Appends b (fun l => l.append b src) :=
  ⟨fun l _ away => append_outside l src away, fun _ bound => append_bound src bound⟩

theorem Appends.then {f g : Log → Log} (first : Appends b f) (second : Appends b g) : Appends b (fun l => g (f l)) :=
  ⟨fun l a away => (second.outside (f l) a away).trans (first.outside l a away),
    fun l bound => second.bound _ (first.bound l bound)⟩

theorem appends_fold {step : Log → Nat → Log} (each : ∀ j, Appends b (fun l => step l j)) (js : List Nat) :
    Appends b (fun l => js.foldl step l) := by
  induction js with
  | nil => exact ⟨fun _ _ _ => rfl, fun _ bound => bound⟩
  | cons j js ih => exact (each j).then ih

theorem dumpHex_appends (d : Dump) (i j : Nat) : Appends b (fun l => dumpHex b d i l j) := by
  simp only [dumpHex]
  by_cases eighth : (j + 1) % 8 = 0
  · simp only [if_pos eighth]
    exact (appends_one _).then (appends_one _)
  · simp only [if_neg eighth]
    exact appends_one _

theorem dumpChar_appends (d : Dump) (i j : Nat) : Appends b (fun l => dumpChar b d i l j) := by
  simp only [dumpChar]
  cases d.has i j with
  | false => exact ⟨fun _ _ _ => rfl, fun _ bound => bound⟩
  | true => exact appends_one _

theorem closeLine_kept (l : Log) : (∀ a, b.Outside a → (closeLine b l).mem a = l.mem a) ∧
    (closeLine b l).len ≤ b.size ∧ Ends b (closeLine b l) newlineSign := by
  have least := b.least
  have sign : newlineSign.length = 2 := rfl
  have space : ∃ m : Log, m.mem = l.mem ∧ m.len + 2 ≤ b.size ∧
      closeLine b l = ⟨Function.update (m.append b newlineSign).mem (b.addr + (m.append b newlineSign).len) 0,
        (m.append b newlineSign).len⟩ := by
    refine ⟨if b.size < l.len + newlineSign.length then ⟨l.mem, b.size - newlineSign.length⟩ else l, ?_, ?_, rfl⟩
    · split <;> rfl
    · split
      · simp only
        lia
      · lia
  obtain ⟨m, mem, room, closed⟩ := space
  rw [closed, append_whole (by lia), ← mem]
  simp only [sign]
  refine ⟨fun a away => ?_, room, m.len, rfl, ?_⟩
  · rw [Function.update_of_ne]
    · exact store_kept (by lia) away
    · rintro rfl
      rcases away with below | above <;> lia
  · intro i x here
    have short := (List.getElem?_eq_some_iff.mp here).1
    exact (Function.update_of_ne (by lia) ..).trans (store_holds i x here)

theorem dumpLine_kept (d : Dump) (i : Nat) (l : Log) :
    (∀ a, b.Outside a → (dumpLine b d i l).mem a = l.mem a) ∧ (dumpLine b d i l).len ≤ b.size ∧
      Ends b (dumpLine b d i l) newlineSign := by
  have hex := appends_fold (dumpHex_appends (b := b) d i) (List.range d.width)
  have chars := appends_fold (dumpChar_appends (b := b) d i) (List.range d.width)
  have outside := ((hex.then (appends_one (ascii "  "))).then chars).outside l
  obtain ⟨closed, bound, ends⟩ := closeLine_kept (b := b) ((List.range d.width).foldl (dumpChar b d i)
    (((List.range d.width).foldl (dumpHex b d i) l).append b (ascii "  ")))
  exact ⟨fun a away => (closed a away).trans (outside a away), bound, ends⟩

theorem packageHeader_filled (d : Dump) (i : Nat) (mem : Nat → UInt8) (room : i = 0 ∨ 6 + d.tag.length + 2 ≤ b.size) :
    ∃ T : Text, T.length = 6 + d.tag.length + 2 ∧ Filled b mem T (packageHeader b d i mem) := by
  by_cases start : i = 0
  · rw [packageHeader, if_pos start]
    refine ⟨[] ++ ascii "D/HEX " ++ d.tag ++ ascii ": ", ?_, ?_⟩
    · simp only [List.length_append, List.length_nil]
      rfl
    · exact ((filled_start.append _).append _).append _
  · have space := room.resolve_left start
    rw [packageHeader, if_neg start]
    refine ⟨List.replicate (6 + d.tag.length + 2) 32, List.length_replicate .., ?_, ?_⟩
    · rw [List.length_replicate]
      exact (Nat.min_eq_right space).symm
    · intro a away
      rw [rtMemset, show b.addr = b.addr + 0 from rfl]
      exact store_kept (by rw [List.length_replicate]; lia) away

theorem hexLine_printed {n : Int} {mem' : Nat → UInt8}
    (printed : rtVsnprintf (packageHeader b d i mem).mem (b.addr + (packageHeader b d i mem).len) b.size
      (ascii "%04X-%04X: ") (headerArgs d i) = some (mem', n)) :
    hexLine b d i mem = some (dumpLine b d i ⟨mem', headerLen b (packageHeader b d i mem) n⟩) := by
  rw [hexLine, printed, Option.map_some]

theorem line_fitting (fits : 6 + d.tag.length + 2 + (headerText d i).length ≤ b.size) (mem : Nat → UInt8) :
    ∃ l, hexLine b d i mem = some l ∧ (∀ a, b.Outside a → l.mem a = mem a) ∧ l.len ≤ b.size ∧
      Ends b l newlineSign := by
  have most := b.most
  have room := b.room
  obtain ⟨known, some_, few⟩ := header_known d i
  obtain ⟨T, length, filled⟩ := packageHeader_filled (b := b) d i mem (.inr (by lia))
  have len := filled.exact (by lia)
  obtain ⟨mem', printed, shown⟩ := vsnprintf_text known (packageHeader b d i mem).mem
    (b.addr + (packageHeader b d i mem).len) b.size (by lia) (by lia)
  obtain ⟨outside, bound, ends⟩ := dumpLine_kept (b := b) d i
    ⟨mem', headerLen b (packageHeader b d i mem) (int32 (headerText d i).length)⟩
  refine ⟨_, hexLine_printed printed, fun a away => ?_, bound, ends⟩
  rw [outside a away]
  refine (shown.outside a ?_).trans (filled.outside a away)
  rcases away with below | above
  · exact .inl (by lia)
  · exact .inr (.inr (by lia))

theorem line_apart (starts : i = 0 ∨ 6 + d.tag.length + 2 ≤ b.size)
    (long : b.size < 6 + d.tag.length + 2 + (headerText d i).length) :
    ¬ ∀ mem, ∃ l, hexLine b d i mem = some l ∧ (∀ a, b.Outside a → l.mem a = mem a) ∧ l.len ≤ b.size ∧
      Ends b l newlineSign := by
  intro inside
  obtain ⟨l, done, kept, _⟩ := inside (fun _ => 1)
  have least := b.least
  have most := b.most
  have room := b.room
  obtain ⟨known, some_, few⟩ := header_known d i
  obtain ⟨T, length, filled⟩ := packageHeader_filled (b := b) d i (fun _ => 1) starts
  have len := filled.len
  obtain ⟨mem', printed, shown⟩ := vsnprintf_text known (packageHeader b d i fun _ => 1).mem
    (b.addr + (packageHeader b d i fun _ => 1).len) b.size (by lia) (by lia)
  have nul := shown.nul (by lia)
  rw [Nat.min_eq_left (by lia)] at nul
  generalize at_ : b.addr + (packageHeader b d i fun _ => 1).len + (headerText d i).length = a at nul
  have away : b.Outside a := .inr (by lia)
  have one := kept a away
  rw [Option.some.inj (done.symm.trans (hexLine_printed printed)), (dumpLine_kept d i _).1 a away] at one
  exact absurd (nul.symm.trans one) (by decide)

theorem dumps_iff (b : LineBuf) (d : Dump) : Dumps b d ↔ DumpFits b d := by
  constructor
  · intro dumps i reached
    have start : Reached d 0 := by
      induction reached with
      | first some_ => exact .first some_
      | next _ _ ih => exact ih
    have first : 6 + d.tag.length + 2 + (headerText d 0).length ≤ b.size := by
      by_contra long
      exact line_apart (.inl rfl) (Nat.not_le.mp long) (dumps 0 start)
    by_contra long
    exact line_apart (.inr (by lia)) (Nat.not_le.mp long) (dumps i reached)
  · exact fun fits i reached mem => line_fitting (fits i reached) mem

/-- A log stays in its line buffer and has its trailer if and only if the thread's name is not copied beyond
the buffer and the text does not pass the end of memory; a dump, if and only if what stands before the bytes
of each line has space. -/
theorem line_buffer_iff (b : LineBuf) (o : Options) (c : Context) (level : Nat) (tag : Text) (newline : Bool)
    (fmt : Text) (args : List Arg) (d : Dump) (matching : Matches fmt args) (asserted : Asserted o level) :
    (Formats b o c level tag newline fmt args ↔ FormatFits b o c level tag fmt args) ∧
      (Dumps b d ↔ DumpFits b d) :=
  ⟨formats_iff matching asserted, dumps_iff b d⟩

end Lines

def lineBuf : LineBuf := ⟨0x20001000, 128, by decide, by decide, by decide, by decide⟩

def tshell : Context := ⟨1234, ⟨1, 1, 0, 0, 0⟩, false, ascii "tshell"⟩

/-- A line of the tag "main" with all the options, and a dump of 20 bytes under that name. -/
theorem line_buffer_iff_main :
    Formats lineBuf ⟨true, .tick, true, true, true⟩ tshell 6 (ascii "main") true (ascii "%s up")
        [.str (ascii "eth0")] ∧
      Dumps lineBuf ⟨ascii "main", 16, 20, fun _ => 0⟩ := by
  have matching : Matches (ascii "%s up") [.str (ascii "eth0")] := by
    unfold Matches
    decide
  obtain ⟨formats, dumps⟩ := line_buffer_iff lineBuf ⟨true, .tick, true, true, true⟩ tshell 6 (ascii "main") true
    (ascii "%s up") [.str (ascii "eth0")] ⟨ascii "main", 16, 20, fun _ => 0⟩ matching ⟨by decide, by decide⟩
  have value : text (ascii "%s up") [.str (ascii "eth0")] = some (ascii "eth0 up") := by decide
  refine ⟨formats.mpr ⟨fun _ _ => .inr (by decide +kernel), fun T known => ?_⟩, dumps.mpr fun i _ => ?_⟩
  · cases known.symm.trans value
    exact .inl (by decide +kernel)
  · have few := (header_known ⟨ascii "main", 16, 20, fun _ => 0⟩ i).2.2
    exact Nat.le_trans (Nat.add_le_add_left few _) (by decide)

def longTag : Text := List.replicate 128 97

/-- With a long tag the name of the thread is copied to the bytes behind the buffer, and so is a dump's
first line. -/
theorem not_line_buffer :
    ¬ Formats lineBuf ⟨false, .none, false, true, true⟩ tshell 6 longTag true (ascii "up") [] ∧
      ¬ Dumps lineBuf ⟨longTag, 16, 20, fun _ => 0⟩ := by
  have matching : Matches (ascii "up") [] := by
    unfold Matches
    decide
  refine ⟨name_apart matching ⟨by decide, by decide⟩ fun fits => ?_, fun dumps => ?_⟩
  · rcases fits rfl rfl with none | short
    · exact absurd none (by decide)
    · exact absurd short (by decide +kernel)
  · exact line_apart (.inl rfl) (by decide +kernel) (dumps 0 (.first (by decide)))

end RtThread.UlogHexdump

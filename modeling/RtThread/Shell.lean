import RtThread.CBuffer
import RtThread.Run

/-! The line editor of the shell: finsh_thread_entry takes the bytes of the console one by one,
edits `line`, and hands it to msh_exec at every end of line. RT_USING_DFS is not set. -/
namespace RtThread.Shell
open Transition CBuffer

abbrev Text := List UInt8

def finshCmdSize : Nat := 80
def finshHistoryLines : Nat := 5

inductive InputStat where
  | waitNormal | waitSpecKey | waitFuncKey

/-- The row of the terminal that the shell writes in, from the prompt on. -/
structure Console where
  cells : Nat → UInt8
  col : Nat

/-- The fields of struct finsh_shell that the editor uses, and the terminal. -/
structure State where
  stat : InputStat
  echoMode : Bool
  currentHistory : Nat
  historyCount : Nat
  cmdHistory : Nat → Nat → UInt8
  line : Nat → UInt8
  linePosition : Nat
  lineCurpos : Nat
  console : Console

/-- A character, of which only the backspace moves back. -/
def Console.put (con : Console) (c : UInt8) : Console :=
  if c = 0x08 then { con with col := con.col - 1 }
  else ⟨Function.update con.cells con.col c, con.col + 1⟩

/-- rt_kprintf on one row. -/
def Console.print (con : Console) (text : Text) : Console := text.foldl Console.put con

def prompt : Console := ⟨fun _ => 0x20, 0⟩

def State.print (s : State) (text : Text) : State := { s with console := s.console.print text }

/-- The positions are rt_uint16_t. -/
def u16 (i : Nat) : Nat := i % 2 ^ 16

/- What reads or writes outside of `line[0..FINSH_CMD_SIZE]` is `none`. -/

def writeLine (line : Nat → UInt8) (i : Nat) (c : UInt8) : Option (Nat → UInt8) :=
  if i ≤ finshCmdSize then some (Function.update line i c) else none

def memmoveLine (line : Nat → UInt8) (dst src n : Nat) : Option (Nat → UInt8) :=
  if dst + n ≤ finshCmdSize + 1 ∧ src + n ≤ finshCmdSize + 1 then some (copy line dst line src n) else none

/-- The index of the terminator behind `i`. -/
def strlenLine (line : Nat → UInt8) (i : Nat) : Option Nat := find 0 line i (finshCmdSize + 1 - i)

/-- The string at `&line[i]`. -/
def cstr (line : Nat → UInt8) (i : Nat) : Option Text :=
  (strlenLine line i).map (fun stop => slice line i (stop - i))

def strCommon : Text → Text → Nat
  | a :: as, b :: bs => if a = b then strCommon as bs + 1 else 0
  | _, _ => 0

/-- One turn of the loop of msh_auto_complete: `name_ptr` with `min_length`. -/
def completeStep (pre : Text) (found : Option Text × Nat) (cmdName : Text) : Option Text × Nat :=
  if pre.isPrefixOf cmdName then
    let first := if found.2 = 0 then (some cmdName, cmdName.length) else found
    let length := strCommon (first.1.getD []) cmdName
    (first.1, if length < first.2 then length else first.2)
  else found

/-- `names` are the exported commands, without their `__cmd_`. -/
def mshAutoComplete (names : List Text) (line : Nat → UInt8) : Option (Nat → UInt8) :=
  (cstr line 0).bind (fun pre =>
    if pre = [] then some line
    else
      let found := names.foldl (completeStep pre) (none, 0)
      match found.1 with
      | none => some line
      | some name =>
        if found.2 ≤ finshCmdSize + 1 then some (copy line 0 (padded 0 name) 0 found.2) else none)

def toEnd (s : State) : Option State :=
  (strlenLine s.line 0).map (fun n => { s with linePosition := n, lineCurpos := n })

/-- The prompt, and the line behind it. -/
def printLine (s : State) : Option State :=
  (cstr s.line 0).map (fun text => { s with console := prompt.print text })

/-- memcpy from the history, and shell_handle_history. -/
def recallEntry (s : State) : Option State :=
  if finshHistoryLines ≤ s.currentHistory then none
  else
    (toEnd { s with line := copy s.line 0 (s.cmdHistory s.currentHistory) 0 finshCmdSize }).bind printLine

def upKey (s : State) : Option State :=
  if 0 < s.currentHistory then recallEntry { s with currentHistory := s.currentHistory - 1 }
  else some { s with currentHistory := 0 }

def downKey (s : State) : Option State :=
  if (s.currentHistory : Int) < (s.historyCount : Int) - 1 then
    recallEntry { s with currentHistory := s.currentHistory + 1 }
  else if s.historyCount ≠ 0 then recallEntry { s with currentHistory := s.historyCount - 1 }
  else some s

def leftKey (s : State) : State :=
  if s.lineCurpos ≠ 0 then { s.print [0x08] with lineCurpos := s.lineCurpos - 1 } else s

def rightKey (s : State) : Option State :=
  if s.lineCurpos < s.linePosition then
    if s.lineCurpos ≤ finshCmdSize then
      some { s.print [s.line s.lineCurpos] with lineCurpos := u16 (s.lineCurpos + 1) }
    else none
  else some s

def tabKey (names : List Text) (s : State) : Option State :=
  let s := s.print (List.replicate s.lineCurpos 0x08)
  (mshAutoComplete names s.line).bind (fun line => (printLine { s with line := line }).bind toEnd)

def backspaceKey (s : State) : Option State :=
  if s.lineCurpos = 0 then some s
  else
    let s := { s with linePosition := u16 (s.linePosition + 2 ^ 16 - 1), lineCurpos := s.lineCurpos - 1 }
    if s.lineCurpos < s.linePosition then
      (memmoveLine s.line s.lineCurpos (s.lineCurpos + 1) (s.linePosition - s.lineCurpos)).bind (fun line =>
      (writeLine line s.linePosition 0).bind (fun line =>
      (cstr line s.lineCurpos).map (fun rest =>
        { s with line := line }.print
          ([0x08] ++ rest ++ [0x20, 0x20, 0x08] ++
            List.replicate (s.linePosition + 1 - s.lineCurpos) 0x08))))
    else
      (writeLine s.line s.linePosition 0).map (fun line => { s with line := line }.print [0x08, 0x20, 0x08])

def sameAsLine (s : State) (entry : Nat → UInt8) : Bool :=
  (List.range finshCmdSize).all (fun i => entry i == s.line i)

/-- memset and memcpy of the line to an entry. -/
def entryOf (s : State) (entry : Nat → UInt8) : Nat → UInt8 :=
  copy (copy entry 0 (fun _ => 0) 0 finshCmdSize) 0 s.line 0 s.linePosition

def shellPushHistory (s : State) : Option State :=
  let s' :=
    if s.linePosition = 0 then some s
    else if finshCmdSize < s.linePosition then none
    else if finshHistoryLines ≤ s.historyCount then
      if sameAsLine s (s.cmdHistory (finshHistoryLines - 1)) then some s
      else
        let last := finshHistoryLines - 1
        let moved := fun i => if i < last then s.cmdHistory (i + 1) else s.cmdHistory i
        some { s with
          cmdHistory := Function.update moved last (entryOf s (moved last))
          historyCount := finshHistoryLines }
    else if s.historyCount = 0 ∨ sameAsLine s (s.cmdHistory (s.historyCount - 1)) = false then
      some { s with
        currentHistory := s.historyCount
        cmdHistory := Function.update s.cmdHistory s.historyCount (entryOf s (s.cmdHistory s.historyCount))
        historyCount := s.historyCount + 1 }
    else some s
  s'.map (fun s => { s with currentHistory := s.historyCount })

/-- The text is what msh_exec gets, as a pointer and a length. -/
def enterKey (s : State) : Option (State × Text) :=
  (shellPushHistory s).bind (fun s =>
    if finshCmdSize + 1 < s.linePosition then none
    else
      some ({ s with
        line := copy s.line 0 (fun _ => 0) 0 (finshCmdSize + 1)
        linePosition := 0
        lineCurpos := 0
        console := prompt }, slice s.line 0 s.linePosition))

/-- The normal character, up to the positions. -/
def insertChar (s : State) (ch : UInt8) : Option State :=
  if s.lineCurpos < s.linePosition then
    (memmoveLine s.line (s.lineCurpos + 1) s.lineCurpos (s.linePosition - s.lineCurpos)).bind (fun line =>
    (writeLine line s.lineCurpos ch).bind (fun line =>
      let s := { s with line := line }
      (if s.echoMode then (cstr line s.lineCurpos).map s.print else some s).map (fun s' =>
        s'.print (List.replicate (s.linePosition - s.lineCurpos) 0x08))))
  else
    (writeLine s.line s.linePosition ch).map (fun line =>
      let s := { s with line := line }
      if s.echoMode then s.print [ch] else s)

def insertKey (s : State) (ch : UInt8) : Option State :=
  let s := if finshCmdSize ≤ s.linePosition then { s with linePosition := 0 } else s
  (insertChar s ch).map (fun s =>
    let s := { s with linePosition := u16 (s.linePosition + 1), lineCurpos := u16 (s.lineCurpos + 1) }
    if finshCmdSize ≤ s.linePosition then { s with linePosition := 0, lineCurpos := 0 } else s)

/-- A byte that is not part of the sequence of an arrow key. -/
def plainKey (names : List Text) (s : State) (ch : UInt8) : Option (State × Option Text) :=
  if ch = 0 ∨ ch = 0xff then some (s, none)
  else if ch = 0x09 then (tabKey names s).map (fun s => (s, none))
  else if ch = 0x7f ∨ ch = 0x08 then (backspaceKey s).map (fun s => (s, none))
  else if ch = 0x0d ∨ ch = 0x0a then (enterKey s).map (fun r => (r.1, some r.2))
  else (insertKey s ch).map (fun s => (s, none))

/-- One turn of the loop of finsh_thread_entry. -/
def finshThreadEntry (names : List Text) (s : State) (ch : UInt8) : Option (State × Option Text) :=
  if ch = 0x1b then some ({ s with stat := .waitSpecKey }, none)
  else
    match s.stat with
    | .waitNormal => plainKey names s ch
    | .waitSpecKey =>
      if ch = 0x5b then some ({ s with stat := .waitFuncKey }, none)
      else plainKey names { s with stat := .waitNormal } ch
    | .waitFuncKey =>
      let s := { s with stat := .waitNormal }
      if ch = 0x41 then (upKey s).map (fun s => (s, none))
      else if ch = 0x42 then (downKey s).map (fun s => (s, none))
      else if ch = 0x44 then some (leftKey s, none)
      else if ch = 0x43 then (rightKey s).map (fun s => (s, none))
      else plainKey names s ch

/-- Once finsh_system_init has cleared the structure and the thread has begun. -/
def started : State where
  stat := .waitNormal
  echoMode := true
  currentHistory := 0
  historyCount := 0
  cmdHistory := fun _ _ => 0
  line := fun _ => 0
  linePosition := 0
  lineCurpos := 0
  console := prompt

/-- A byte, and what was handed to msh_exec upon it. -/
structure Event where
  byte : UInt8
  handed : Option Text
  deriving DecidableEq

def step (names : List Text) (s : State) (ch : UInt8) : Option (State × List Event) :=
  (finshThreadEntry names s ch).map (fun r => (r.1, [⟨ch, r.2⟩]))

def machine (names : List Text) : Machine State UInt8 Event where
  start s := s = started
  step := step names

/- An editor of one line, with the texts themselves. -/

structure Editor where
  stat : InputStat
  text : Text
  cursor : Nat
  history : List Text
  recalled : Nat

/-- What all names that begin with the text have in common. -/
def complete (names : List Text) (text : Text) : Text :=
  if text = [] then text
  else
    match names.filter text.isPrefixOf with
    | [] => text
    | name :: rest => name.take (rest.foldl (fun n other => min n (strCommon name other)) name.length)

def Editor.toText (ed : Editor) (text : Text) : Editor := { ed with text := text, cursor := text.length }

def Editor.up (ed : Editor) : Editor :=
  if ed.recalled = 0 then ed
  else { ed with recalled := ed.recalled - 1 }.toText (ed.history.getD (ed.recalled - 1) [])

def Editor.down (ed : Editor) : Editor :=
  if ed.history = [] then ed
  else
    let i := min (ed.recalled + 1) (ed.history.length - 1)
    { ed with recalled := i }.toText (ed.history.getD i [])

def Editor.backspace (ed : Editor) : Editor :=
  if ed.cursor = 0 then ed
  else { ed with text := ed.text.eraseIdx (ed.cursor - 1), cursor := ed.cursor - 1 }

/-- The last texts, without empty and repeated ones. -/
def remember (history : List Text) (text : Text) : List Text :=
  if text = [] ∨ history.getLast? = some text then history
  else (if history.length < finshHistoryLines then history else history.tail) ++ [text]

def Editor.enter (ed : Editor) : Editor × Text :=
  let history := remember ed.history ed.text
  ({ ed with history := history, recalled := history.length }.toText [], ed.text)

/-- A text that gets too long is discarded. -/
def Editor.insert (ed : Editor) (ch : UInt8) : Editor :=
  if ed.text.length + 1 < finshCmdSize then
    { ed with text := ed.text.insertIdx ed.cursor ch, cursor := ed.cursor + 1 }
  else ed.toText []

def Editor.plain (names : List Text) (ed : Editor) (ch : UInt8) : Editor × Option Text :=
  if ch = 0 ∨ ch = 0xff then (ed, none)
  else if ch = 0x09 then (ed.toText (complete names ed.text), none)
  else if ch = 0x7f ∨ ch = 0x08 then (ed.backspace, none)
  else if ch = 0x0d ∨ ch = 0x0a then (ed.enter.1, some ed.enter.2)
  else (ed.insert ch, none)

def Editor.key (names : List Text) (ed : Editor) (ch : UInt8) : Editor × Option Text :=
  if ch = 0x1b then ({ ed with stat := .waitSpecKey }, none)
  else
    match ed.stat with
    | .waitNormal => ed.plain names ch
    | .waitSpecKey =>
      if ch = 0x5b then ({ ed with stat := .waitFuncKey }, none)
      else { ed with stat := .waitNormal }.plain names ch
    | .waitFuncKey =>
      let ed := { ed with stat := .waitNormal }
      if ch = 0x41 then (ed.up, none)
      else if ch = 0x42 then (ed.down, none)
      else if ch = 0x44 then ({ ed with cursor := ed.cursor - 1 }, none)
      else if ch = 0x43 then ({ ed with cursor := min (ed.cursor + 1) ed.text.length }, none)
      else ed.plain names ch

def blank : Editor := ⟨.waitNormal, [], 0, [], 0⟩

/-- The editor after the bytes of a trace, if it hands over the same texts. -/
def replay (names : List Text) (tr : List Event) : Option Editor :=
  tr.foldlM (fun ed e => if (ed.key names e.byte).2 = e.handed then some (ed.key names e.byte).1 else none) blank

def Inserts (s : State) (ch : UInt8) : Prop :=
  ch ∉ ([0, 0xff, 0x09, 0x7f, 0x08, 0x0d, 0x0a, 0x1b] : List UInt8) ∧
    match s.stat with
    | .waitNormal => True
    | .waitSpecKey => ch ≠ 0x5b
    | .waitFuncKey => ch ∉ ([0x41, 0x42, 0x43, 0x44] : List UInt8)

/-- No character is typed into a line that has room for no more. -/
def Guard (s : State) (ch : UInt8) : Prop :=
  Inserts s ch → s.linePosition + 1 < finshCmdSize

/-- The names of commands are C strings that fit into a line; none has a backspace in it. -/
structure Exported (names : List Text) : Prop where
  short : ∀ name ∈ names, name.length < finshCmdSize
  visible : ∀ name ∈ names, 0 ∉ name ∧ 0x08 ∉ name

variable {names : List Text} {s s' : State} {ed : Editor}

/-- A text that the terminal shows as it is, and that fits into the line. -/
structure Fits (text : Text) : Prop where
  short : text.length < finshCmdSize
  end_ : 0 ∉ text
  back : 0x08 ∉ text

/-- The entries of the history are those of the editor, padded with zeros. -/
structure Recalls (s : State) (ed : Editor) : Prop where
  count : s.historyCount = ed.history.length
  most : ed.history.length ≤ finshHistoryLines
  current : s.currentHistory = ed.recalled
  recalled : ed.recalled ≤ ed.history.length
  entry : ∀ i (inside : i < ed.history.length), s.cmdHistory i = padded 0 ed.history[i]
  unused : ∀ i, ed.history.length ≤ i → s.cmdHistory i = padded 0 []
  fits : ∀ text ∈ ed.history, Fits text

/-- The shell edits the text of `ed`, and the terminal shows it. -/
structure Sim (s : State) (ed : Editor) : Prop where
  stat : s.stat = ed.stat
  echo : s.echoMode = true
  fits : Fits ed.text
  position : s.linePosition = ed.text.length
  curpos : s.lineCurpos = ed.cursor
  cursor : ed.cursor ≤ ed.text.length
  line : s.line = padded 0 ed.text
  console : s.console = ⟨padded 0x20 ed.text, ed.cursor⟩
  history : Recalls s ed

theorem cstr_full {text : Text} {i : Nat} (end_ : 0 ∉ text) (short : text.length ≤ 80)
    (inside : i ≤ text.length) : cstr (padded 0 text) i = some (text.drop i) := by
  have found : strlenLine (padded 0 text) i = some text.length :=
    find_padded end_ inside (by simp only [finshCmdSize]; lia)
  rw [cstr, found, Option.map_some, slice_padded (by lia), List.take_of_length_le (by simp)]

theorem print_append (con : Console) (a b : Text) : con.print (a ++ b) = (con.print a).print b :=
  List.foldl_append

theorem print_back (con : Console) (n : Nat) :
    con.print (List.replicate n 0x08) = { con with col := con.col - n } := by
  induction n generalizing con with
  | zero => rfl
  | succ n ih =>
    have put : con.put 0x08 = { con with col := con.col - 1 } := if_pos rfl
    rw [List.replicate_succ, Console.print, List.foldl_cons, put]
    exact (ih _).trans (by rw [Nat.sub_sub, Nat.add_comm])

theorem print_plain (con : Console) {text : Text} (plain : 0x08 ∉ text) :
    con.print text = ⟨copy con.cells con.col (padded 0x20 text) 0 text.length, con.col + text.length⟩ := by
  induction text generalizing con with
  | nil =>
    have same : copy con.cells con.col (padded 0x20 []) 0 0 = con.cells := by
      funext k
      rw [copy, if_neg (by lia)]
    rw [List.length_nil, same]
    rfl
  | cons c rest ih =>
    have put : con.put c = ⟨Function.update con.cells con.col c, con.col + 1⟩ := by
      apply if_neg
      rintro rfl
      simp at plain
    rw [Console.print, List.foldl_cons, put]
    refine (ih _ (by simp_all)).trans ?_
    rw [Console.mk.injEq]
    constructor
    · funext k
      simp only [copy, List.length_cons]
      rcases Nat.lt_trichotomy k con.col with before | rfl | behind
      · rw [if_neg (by lia), if_neg (by lia), Function.update_of_ne (by lia)]
      · rw [if_neg (by lia), if_pos (by lia), Function.update_self]
        simp [padded]
      · split
        · rename_i inside
          rw [if_pos (by lia), show k - con.col = k - (con.col + 1) + 1 by lia]
          simp [padded]
        · rw [if_neg (by lia), Function.update_of_ne (by lia)]
    · simp only [List.length_cons]
      lia

theorem print_prompt {text : Text} (plain : 0x08 ∉ text) :
    prompt.print text = ⟨padded 0x20 text, text.length⟩ := by
  rw [print_plain _ plain, Console.mk.injEq]
  refine ⟨?_, Nat.zero_add _⟩
  change copy (padded 0x20 []) 0 _ 0 _ = _
  exact copy_whole (fun _ _ => rfl) (Nat.zero_le _) (Nat.le_refl _)

theorem cstr_padded {text : Text} {i : Nat} (fits : Fits text) (inside : i ≤ text.length) :
    cstr (padded 0 text) i = some (text.drop i) :=
  cstr_full fits.end_ (Nat.le_of_lt fits.short) inside

/- Completion. -/

theorem strCommon_self (a : Text) : strCommon a a = a.length := by
  induction a with
  | nil => rfl
  | cons x a ih => rw [strCommon, if_pos rfl, ih, List.length_cons]

theorem strCommon_prefix {pre a b : Text} (one : pre <+: a) (two : pre <+: b) :
    pre.length ≤ strCommon a b := by
  induction pre generalizing a b with
  | nil => exact Nat.zero_le _
  | cons x pre ih =>
    obtain ⟨a, rfl⟩ := one
    obtain ⟨b, rfl⟩ := two
    have rest := ih (List.prefix_append pre a) (List.prefix_append pre b)
    simp only [List.cons_append, strCommon, if_true, List.length_cons]
    lia

theorem complete_loop {pre name : Text} {m : Nat} (begins : pre <+: name) (some_text : pre ≠ [])
    (least : pre.length ≤ m) (names : List Text) :
    names.foldl (completeStep pre) (some name, m) =
      (some name, (names.filter pre.isPrefixOf).foldl (fun n other => min n (strCommon name other)) m) := by
  induction names generalizing m with
  | nil => rfl
  | cons other names ih =>
    have positive : 0 < pre.length := List.length_pos_of_ne_nil some_text
    rw [List.foldl_cons, completeStep, List.filter_cons]
    split
    · rename_i matched
      have shorter : (if strCommon name other < m then strCommon name other else m) =
          min m (strCommon name other) := by
        split <;> lia
      have enough := strCommon_prefix begins (List.isPrefixOf_iff_prefix.mp matched)
      rw [if_neg (by lia : ¬ m = 0)]
      simp only [Option.getD_some, shorter]
      exact ih (by lia)
    · exact ih least

theorem complete_found {pre : Text} (some_text : pre ≠ []) (names : List Text) :
    names.foldl (completeStep pre) (none, 0) =
      match names.filter pre.isPrefixOf with
      | [] => (none, 0)
      | name :: rest =>
        (some name, rest.foldl (fun n other => min n (strCommon name other)) name.length) := by
  induction names with
  | nil => rfl
  | cons name names ih =>
    rw [List.foldl_cons, completeStep, List.filter_cons]
    split
    · rename_i matched
      have begins := List.isPrefixOf_iff_prefix.mp matched
      simp only [if_true, Option.getD_some, strCommon_self, Nat.lt_irrefl, if_false]
      exact complete_loop begins some_text begins.length_le names
    · exact ih

theorem common_bounds {pre name : Text} {rest : List Text} (begins : pre <+: name)
    (matched : ∀ other ∈ rest, pre <+: other) {m : Nat} (least : pre.length ≤ m) :
    pre.length ≤ rest.foldl (fun n other => min n (strCommon name other)) m ∧
      rest.foldl (fun n other => min n (strCommon name other)) m ≤ m := by
  induction rest generalizing m with
  | nil => exact ⟨least, Nat.le_refl m⟩
  | cons other rest ih =>
    have enough := strCommon_prefix begins (matched other (by simp))
    have tail := ih (fun x mem => matched x (by simp [mem])) (m := min m (strCommon name other)) (by lia)
    rw [List.foldl_cons]
    exact ⟨tail.1, Nat.le_trans tail.2 (Nat.min_le_left _ _)⟩

theorem mshAutoComplete_padded {text : Text} (exported : Exported names) (fits : Fits text) :
    mshAutoComplete names (padded 0 text) = some (padded 0 (complete names text)) ∧
      Fits (complete names text) := by
  rw [mshAutoComplete, cstr_padded fits (Nat.zero_le _), Option.bind_some, List.drop_zero, complete]
  split
  · exact ⟨rfl, fits⟩
  · rename_i some_text
    rw [complete_found some_text]
    cases found : names.filter text.isPrefixOf with
    | nil => exact ⟨rfl, fits⟩
    | cons name rest =>
      have matched : ∀ other ∈ name :: rest, other ∈ names ∧ text <+: other := by
        intro other mem
        rw [← found, List.mem_filter, List.isPrefixOf_iff_prefix] at mem
        exact mem
      obtain ⟨mem, begins⟩ := matched name (by simp)
      have short : name.length < 80 := exported.short name mem
      have others : ∀ other ∈ rest, text <+: other := fun other here => (matched other (by simp [here])).2
      have bounds := common_bounds begins others begins.length_le
      obtain ⟨m, isM⟩ : ∃ m, m = rest.foldl (fun n other => min n (strCommon name other)) name.length := ⟨_, rfl⟩
      simp only [← isM] at bounds ⊢
      refine ⟨?_, ?_, ?_, ?_⟩
      · have copied : copy (padded 0 text) 0 (padded 0 name) 0 m = padded 0 (name.take m) := by
          apply copy_whole
          · intro k below
            simp [padded, below]
          · exact bounds.1
          · rw [List.length_take]
            exact Nat.min_le_left _ _
        rw [if_pos (by simp only [finshCmdSize]; lia), copied]
      · rw [List.length_take]
        simp only [finshCmdSize]
        lia
      · exact fun zero => (exported.visible name mem).1 (List.mem_of_mem_take zero)
      · exact fun back => (exported.visible name mem).2 (List.mem_of_mem_take back)

/- The keys. -/

theorem Recalls.same {ed' : Editor} (history : Recalls s ed) (count : s'.historyCount = s.historyCount)
    (current : s'.currentHistory = s.currentHistory) (entries : s'.cmdHistory = s.cmdHistory)
    (texts : ed'.history = ed.history) (recalled : ed'.recalled = ed.recalled) : Recalls s' ed' := by
  obtain ⟨a, b, c, d, e, f, g⟩ := history
  cases ed
  cases ed'
  simp only at texts recalled
  subst texts recalled
  exact ⟨count.trans a, b, current.trans c, d, entries ▸ e, entries ▸ f, g⟩

theorem Sim.shown {text : Text} (sim : Sim s ed) (fits : Fits text) (history : Recalls s' (ed.toText text))
    (same : s' = { s' with
      stat := s.stat
      echoMode := s.echoMode
      line := padded 0 text
      linePosition := text.length
      lineCurpos := text.length
      console := ⟨padded 0x20 text, text.length⟩ }) : Sim s' (ed.toText text) := by
  rw [same] at history ⊢
  exact ⟨sim.stat, sim.echo, fits, rfl, rfl, Nat.le_refl _, rfl, rfl, history⟩

theorem Sim.recallEntry {i : Nat} (sim : Sim s ed) (inside : i < ed.history.length) :
    ∃ s', recallEntry { s with currentHistory := i } = some s' ∧
      Sim s' ({ ed with recalled := i }.toText (ed.history.getD i [])) := by
  have most : ed.history.length ≤ 5 := sim.history.most
  have text : ed.history.getD i [] = ed.history[i] := by simp [inside]
  have fits : Fits ed.history[i] := sim.history.fits _ (List.getElem_mem inside)
  have short : ed.history[i].length < 80 := fits.short
  have shorter : ed.text.length < 80 := sim.fits.short
  have line : copy s.line 0 (s.cmdHistory i) 0 finshCmdSize = padded 0 ed.history[i] := by
    rw [sim.line, sim.history.entry i inside]
    exact copy_whole (fun _ _ => rfl) (Nat.le_of_lt shorter) (Nat.le_of_lt short)
  have stop : strlenLine (padded 0 ed.history[i]) 0 = some ed.history[i].length :=
    find_padded fits.end_ (Nat.zero_le _) (by simp only [finshCmdSize]; lia)
  rw [text]
  refine ⟨{ s with
    currentHistory := i
    line := padded 0 ed.history[i]
    linePosition := ed.history[i].length
    lineCurpos := ed.history[i].length
    console := ⟨padded 0x20 ed.history[i], ed.history[i].length⟩ }, ?_, ?_⟩
  · rw [Shell.recallEntry, if_neg (by simp only [finshHistoryLines]; lia)]
    simp only [line, toEnd, stop, Option.map_some, Option.bind_some, printLine,
      cstr_padded fits (Nat.zero_le _), List.drop_zero, print_prompt fits.back]
  · have history : Recalls { s with currentHistory := i } ({ ed with recalled := i }.toText ed.history[i]) := by
      obtain ⟨count, most, _, _, entry, unused, fits⟩ := sim.history
      exact ⟨count, most, rfl, Nat.le_of_lt inside, entry, unused, fits⟩
    have moved : Sim { s with currentHistory := i } { ed with recalled := i } :=
      ⟨sim.stat, sim.echo, sim.fits, sim.position, sim.curpos, sim.cursor, sim.line, sim.console,
        history.same rfl rfl rfl rfl rfl⟩
    exact moved.shown fits (history.same rfl rfl rfl rfl rfl) rfl

theorem Sim.up (sim : Sim s ed) : ∃ s', upKey s = some s' ∧ Sim s' ed.up := by
  rw [upKey, Editor.up, sim.history.current]
  split
  · rename_i positive
    rw [if_neg (by lia)]
    have recalled := sim.history.recalled
    exact sim.recallEntry (by lia)
  · rename_i zero
    have none : s.currentHistory = 0 := by
      rw [sim.history.current]
      lia
    rw [if_pos (by lia)]
    exact ⟨_, rfl, none ▸ sim⟩

theorem Sim.down (sim : Sim s ed) : ∃ s', downKey s = some s' ∧ Sim s' ed.down := by
  have recalled := sim.history.recalled
  have current := sim.history.current
  have count := sim.history.count
  rw [downKey, Editor.down]
  split
  · have some_texts : ed.history ≠ [] := List.ne_nil_of_length_pos (by lia)
    have next : min (ed.recalled + 1) (ed.history.length - 1) = s.currentHistory + 1 := by lia
    simp only [if_neg some_texts, next]
    exact sim.recallEntry (by lia)
  · split
    · have some_texts : ed.history ≠ [] := List.ne_nil_of_length_pos (by lia)
      have last : min (ed.recalled + 1) (ed.history.length - 1) = s.historyCount - 1 := by lia
      simp only [if_neg some_texts, last]
      exact sim.recallEntry (by lia)
    · rw [if_pos (List.length_eq_zero_iff.mp (by lia))]
      exact ⟨s, rfl, sim⟩

theorem Sim.left (sim : Sim s ed) : Sim (leftKey s) { ed with cursor := ed.cursor - 1 } := by
  have back : s.console.print [0x08] = ⟨padded 0x20 ed.text, ed.cursor - 1⟩ := by
    rw [sim.console]
    exact print_back _ 1
  rw [leftKey]
  split
  · exact ⟨sim.stat, sim.echo, sim.fits, sim.position, by simp [sim.curpos],
      Nat.le_trans (Nat.sub_le _ _) sim.cursor, sim.line, back, sim.history.same rfl rfl rfl rfl rfl⟩
  · rename_i first
    have zero : ed.cursor = 0 := by
      have := sim.curpos
      lia
    obtain ⟨stat, echo, fits, position, curpos, cursor, line, console, history⟩ := sim
    exact ⟨stat, echo, fits, position, by rw [curpos, zero], Nat.le_trans (Nat.sub_le _ _) cursor, line,
      by rw [console, zero], history.same rfl rfl rfl rfl rfl⟩

theorem Sim.right (sim : Sim s ed) : ∃ s', rightKey s = some s' ∧
    Sim s' { ed with cursor := min (ed.cursor + 1) ed.text.length } := by
  have short : ed.text.length < 80 := sim.fits.short
  have cursor := sim.cursor
  rw [rightKey, sim.curpos, sim.position, sim.line]
  split
  · rename_i inside
    have next : u16 (ed.cursor + 1) = ed.cursor + 1 := Nat.mod_eq_of_lt (by lia)
    have plain : ([ed.text[ed.cursor]] : Text) = [padded 0 ed.text ed.cursor] := by rw [padded_inside inside]
    have visible : (0x08 : UInt8) ∉ [ed.text[ed.cursor]] := by
      intro back
      exact sim.fits.back (List.mem_singleton.mp back ▸ List.getElem_mem inside)
    have shown : s.console.print [ed.text[ed.cursor]] = ⟨padded 0x20 ed.text, ed.cursor + 1⟩ := by
      rw [sim.console, print_plain _ visible, Console.mk.injEq]
      refine ⟨?_, rfl⟩
      funext k
      rw [copy]
      split
      · rename_i here
        have same : k = ed.cursor := by
          simp only [List.length_singleton] at here
          lia
        subst same
        rw [padded_inside inside]
        simp [padded]
      · rfl
    rw [if_pos (by simp only [finshCmdSize]; lia), Nat.min_eq_left (by lia), next]
    refine ⟨_, rfl, sim.stat, sim.echo, sim.fits, sim.position, rfl, by simp only; lia, sim.line, ?_,
      sim.history.same rfl rfl rfl rfl rfl⟩
    rw [← plain]
    exact shown
  · rename_i ended
    rw [Nat.min_eq_right (by lia)]
    have last : ed.cursor = ed.text.length := by lia
    exact ⟨s, rfl, sim.stat, sim.echo, sim.fits, sim.position, sim.curpos.trans last, Nat.le_refl _, sim.line,
      by rw [sim.console, last], sim.history.same rfl rfl rfl rfl rfl⟩

theorem Sim.tab (sim : Sim s ed) (exported : Exported names) :
    ∃ s', tabKey names s = some s' ∧ Sim s' (ed.toText (complete names ed.text)) := by
  obtain ⟨completed, fits⟩ := mshAutoComplete_padded exported sim.fits
  have short : (complete names ed.text).length < 80 := fits.short
  have stop : strlenLine (padded 0 (complete names ed.text)) 0 = some (complete names ed.text).length :=
    find_padded fits.end_ (Nat.zero_le _) (by simp only [finshCmdSize]; lia)
  refine ⟨{ s with
    line := padded 0 (complete names ed.text)
    linePosition := (complete names ed.text).length
    lineCurpos := (complete names ed.text).length
    console := ⟨padded 0x20 (complete names ed.text), (complete names ed.text).length⟩ }, ?_, ?_⟩
  · simp only [tabKey, State.print, sim.line, completed, Option.bind_some, printLine,
      cstr_padded fits (Nat.zero_le _), List.drop_zero, Option.map_some, print_prompt fits.back, toEnd, stop]
  · exact sim.shown fits (sim.history.same rfl rfl rfl rfl rfl) rfl

theorem Fits.eraseIdx {text : Text} (fits : Fits text) (i : Nat) : Fits (text.eraseIdx i) where
  short := Nat.lt_of_le_of_lt (List.length_eraseIdx_le text i) fits.short
  end_ := fun zero => fits.end_ (List.mem_of_mem_eraseIdx zero)
  back := fun back => fits.back (List.mem_of_mem_eraseIdx back)

theorem not_mem_insertIdx {text : Text} {i : Nat} {ch c : UInt8} (inside : i ≤ text.length) (old : c ∉ text)
    (other : ch ≠ c) : c ∉ text.insertIdx i ch := by
  rw [List.mem_insertIdx inside]
  rintro (new | kept)
  · exact other new.symm
  · exact old kept

theorem not_back_blanks {text : Text} (back : 0x08 ∉ text) (n : Nat) : 0x08 ∉ text ++ List.replicate n 0x20 := by
  simp only [List.mem_append, List.mem_replicate, not_or, not_and]
  exact ⟨back, fun _ => by decide⟩

theorem print_rest {text other : Text} {i n : Nat} (visible : 0x08 ∉ other)
    (begin_ : other.take i = text.take i) (covers : text.length ≤ i + (other.drop i).length + n) :
    (Console.mk (padded 0x20 text) i).print (other.drop i ++ List.replicate n 0x20) =
      ⟨padded 0x20 other, i + (other.drop i).length + n⟩ := by
  have back : 0x08 ∉ other.drop i := fun back => visible (List.mem_of_mem_drop back)
  rw [print_plain _ (not_back_blanks back n), Console.mk.injEq]
  refine ⟨?_, by simp only [List.length_append, List.length_replicate]; lia⟩
  apply copy_rest begin_
  · intro k _
    rw [padded_append_fill, padded_drop]
  · rw [List.length_append, List.length_replicate]
    lia
  · rw [List.length_append, List.length_drop]
    lia
  · exact fun _ _ => rfl

theorem Sim.backspace (sim : Sim s ed) : ∃ s', backspaceKey s = some s' ∧ Sim s' ed.backspace := by
  have short : ed.text.length < 80 := sim.fits.short
  have cursor := sim.cursor
  have curpos := sim.curpos
  rw [backspaceKey, Editor.backspace]
  split
  · rename_i first
    rw [if_pos (by lia)]
    exact ⟨s, rfl, sim⟩
  · rename_i some_before
    obtain ⟨i, isI⟩ : ∃ i, ed.cursor = i + 1 := ⟨ed.cursor - 1, by lia⟩
    have fits := sim.fits.eraseIdx i
    have length : (ed.text.eraseIdx i).length = ed.text.length - 1 :=
      List.length_eraseIdx_of_lt (by lia)
    have down : u16 (s.linePosition + 2 ^ 16 - 1) = ed.text.length - 1 := by
      rw [u16, sim.position]
      lia
    have start : s.console.print [0x08] = ⟨padded 0x20 ed.text, i⟩ := by
      rw [sim.console, isI]
      exact print_back _ 1
    have begin_ : (ed.text.eraseIdx i).take i = ed.text.take i :=
      List.take_eraseIdx_eq_take_of_le _ _ _ (Nat.le_refl i)
    have erased : Function.update
        (copy (padded 0 ed.text) i (padded 0 ed.text) (i + 1) (ed.text.length - 1 - i)) (ed.text.length - 1) 0 =
        padded 0 (ed.text.eraseIdx i) := copy_erase (by lia)
    have result : ∀ state : State, state = { s with
        line := padded 0 (ed.text.eraseIdx i)
        linePosition := ed.text.length - 1
        lineCurpos := i
        console := ⟨padded 0x20 (ed.text.eraseIdx i), i⟩ } →
        Sim state { ed with text := ed.text.eraseIdx i, cursor := i } := by
      rintro _ rfl
      exact ⟨sim.stat, sim.echo, fits, length.symm, rfl, by simp only [length]; lia, rfl, rfl,
        sim.history.same rfl rfl rfl rfl rfl⟩
    rw [if_neg (by lia : ¬ ed.cursor = 0)]
    simp only [down, curpos, isI, Nat.add_sub_cancel, sim.line]
    by_cases inner : i < ed.text.length - 1
    · rw [if_pos inner]
      have moved : memmoveLine (padded 0 ed.text) i (i + 1) (ed.text.length - 1 - i) =
          some (copy (padded 0 ed.text) i (padded 0 ed.text) (i + 1) (ed.text.length - 1 - i)) :=
        if_pos (by simp only [finshCmdSize]; lia)
      have written : writeLine (copy (padded 0 ed.text) i (padded 0 ed.text) (i + 1) (ed.text.length - 1 - i))
          (ed.text.length - 1) 0 = some (padded 0 (ed.text.eraseIdx i)) := by
        rw [writeLine, if_pos (by simp only [finshCmdSize]; lia), erased]
      have rest := print_rest (n := 2) fits.back begin_ (by rw [List.length_drop]; lia)
      simp only [moved, written, Option.bind_some, cstr_padded fits (by lia : i ≤ (ed.text.eraseIdx i).length),
        Option.map_some]
      refine ⟨_, rfl, result _ ?_⟩
      have keys : [0x08] ++ (ed.text.eraseIdx i).drop i ++ [0x20, 0x20, 0x08] ++
          List.replicate (ed.text.length - 1 + 1 - i) 0x08 =
          [0x08] ++ (((ed.text.eraseIdx i).drop i ++ List.replicate 2 0x20) ++
            List.replicate (ed.text.length - 1 + 1 - i + 1) (0x08 : UInt8)) := by
        simp [List.replicate_succ]
      have col : i + (ed.text.length - 1 - i) + 2 - (ed.text.length - 1 + 1 - i + 1) = i := by lia
      rw [State.print, keys, print_append, start, print_append, rest, print_back]
      simp only [List.length_drop, length, col]
    · have last : i = ed.text.length - 1 := by lia
      have written : writeLine (padded 0 ed.text) (ed.text.length - 1) 0 =
          some (padded 0 (ed.text.eraseIdx i)) := by
        have none : ed.text.length - 1 - i = 0 := by lia
        rw [none, copy_none] at erased
        rw [writeLine, if_pos (by simp only [finshCmdSize]; lia), erased]
      have rest := print_rest (n := 1) fits.back begin_ (by rw [List.length_drop]; lia)
      have ended : (ed.text.eraseIdx i).drop i = [] := List.drop_eq_nil_of_le (by lia)
      rw [if_neg inner, written, Option.map_some]
      refine ⟨_, rfl, result _ ?_⟩
      rw [ended, List.nil_append] at rest
      have keys : ([0x08, 0x20, 0x08] : Text) = [0x08] ++ (List.replicate 1 0x20 ++ List.replicate 1 0x08) := rfl
      rw [State.print, keys, print_append, start, print_append, rest, print_back]
      simp

theorem Sim.insertChar {ch : UInt8} (sim : Sim s ed) (visible : ch ≠ 0 ∧ ch ≠ 0x08) :
    insertChar s ch = some { s with
      line := padded 0 (ed.text.insertIdx ed.cursor ch)
      console := ⟨padded 0x20 (ed.text.insertIdx ed.cursor ch), ed.cursor + 1⟩ } := by
  have cursor := sim.cursor
  have curpos := sim.curpos
  have position := sim.position
  have end_ := not_mem_insertIdx cursor sim.fits.end_ visible.1
  have back := not_mem_insertIdx cursor sim.fits.back visible.2
  have length : (ed.text.insertIdx ed.cursor ch).length = ed.text.length + 1 :=
    List.length_insertIdx_of_le_length cursor ch
  have small : ed.text.length < 80 := sim.fits.short
  have begin_ : (ed.text.insertIdx ed.cursor ch).take ed.cursor = ed.text.take ed.cursor :=
    List.take_insertIdx_eq_take_of_le _ _ _ _ (Nat.le_refl _)
  have rest := print_rest (n := 0) back begin_ (by rw [List.length_drop]; lia)
  rw [List.replicate_zero, List.append_nil, List.length_drop, length] at rest
  rw [Shell.insertChar]
  simp only [position, curpos, sim.line, sim.echo, if_true]
  by_cases inner : ed.cursor < ed.text.length
  · have moved : memmoveLine (padded 0 ed.text) (ed.cursor + 1) ed.cursor (ed.text.length - ed.cursor) =
        some (copy (padded 0 ed.text) (ed.cursor + 1) (padded 0 ed.text) ed.cursor (ed.text.length - ed.cursor)) :=
      if_pos (by simp only [finshCmdSize]; lia)
    have written : writeLine
        (copy (padded 0 ed.text) (ed.cursor + 1) (padded 0 ed.text) ed.cursor (ed.text.length - ed.cursor))
        ed.cursor ch = some (padded 0 (ed.text.insertIdx ed.cursor ch)) := by
      rw [writeLine, if_pos (by simp only [finshCmdSize]; lia), copy_insert cursor]
    have col : ed.cursor + (ed.text.length + 1 - ed.cursor) + 0 - (ed.text.length - ed.cursor) = ed.cursor + 1 := by
      lia
    rw [if_pos inner, moved, Option.bind_some, written, Option.bind_some,
      cstr_full end_ (by lia) (by lia : ed.cursor ≤ (ed.text.insertIdx ed.cursor ch).length)]
    simp only [Option.map_some, State.print, sim.console, rest, print_back, col]
  · have last : ed.cursor = ed.text.length := by lia
    have inserted : ed.text.insertIdx ed.cursor ch = ed.text ++ [ch] := by
      rw [last, List.insertIdx_length_self]
    have written : writeLine (padded 0 ed.text) ed.text.length ch =
        some (padded 0 (ed.text.insertIdx ed.cursor ch)) := by
      rw [writeLine, if_pos (by simp only [finshCmdSize]; lia), update_end, inserted]
    have put : (ed.text.insertIdx ed.cursor ch).drop ed.cursor = [ch] := by
      rw [inserted, last, List.drop_left]
    have col : ed.cursor + (ed.text.length + 1 - ed.cursor) + 0 = ed.cursor + 1 := by lia
    rw [put] at rest
    rw [if_neg inner, written, Option.map_some]
    simp only [State.print, sim.console, rest, col]

theorem Sim.insertKey {ch : UInt8} (sim : Sim s ed) (visible : ch ≠ 0 ∧ ch ≠ 0x08) :
    insertKey s ch = some (if ed.text.length + 1 < finshCmdSize then { s with
      line := padded 0 (ed.text.insertIdx ed.cursor ch)
      linePosition := ed.text.length + 1
      lineCurpos := ed.cursor + 1
      console := ⟨padded 0x20 (ed.text.insertIdx ed.cursor ch), ed.cursor + 1⟩ }
    else { s with
      line := padded 0 (ed.text.insertIdx ed.cursor ch)
      linePosition := 0
      lineCurpos := 0
      console := ⟨padded 0x20 (ed.text.insertIdx ed.cursor ch), ed.cursor + 1⟩ }) := by
  have small : ed.text.length < 80 := sim.fits.short
  have cursor := sim.cursor
  have next : u16 (ed.text.length + 1) = ed.text.length + 1 := Nat.mod_eq_of_lt (by lia)
  have onward : u16 (ed.cursor + 1) = ed.cursor + 1 := Nat.mod_eq_of_lt (by lia)
  have below : ¬ finshCmdSize ≤ s.linePosition := by
    rw [sim.position, finshCmdSize]
    lia
  rw [Shell.insertKey, if_neg below, sim.insertChar visible, Option.map_some]
  simp only [sim.position, sim.curpos, next, onward]
  by_cases room : ed.text.length + 1 < finshCmdSize
  · rw [if_neg (by lia), if_pos room]
  · rw [if_pos (by lia), if_neg room]

theorem Sim.insert {ch : UInt8} (sim : Sim s ed) (visible : ch ≠ 0 ∧ ch ≠ 0x08)
    (room : ed.text.length + 1 < finshCmdSize) :
    ∃ s', Shell.insertKey s ch = some s' ∧ Sim s' (ed.insert ch) := by
  have cursor := sim.cursor
  have length : (ed.text.insertIdx ed.cursor ch).length = ed.text.length + 1 :=
    List.length_insertIdx_of_le_length cursor ch
  have fits : Fits (ed.text.insertIdx ed.cursor ch) :=
    ⟨by rwa [length], not_mem_insertIdx cursor sim.fits.end_ visible.1,
      not_mem_insertIdx cursor sim.fits.back visible.2⟩
  rw [sim.insertKey visible, if_pos room, Editor.insert, if_pos room]
  exact ⟨_, rfl, sim.stat, sim.echo, fits, length.symm, rfl, by simp only [length]; lia, rfl, rfl,
    sim.history.same rfl rfl rfl rfl rfl⟩

theorem Recalls.append {text : Text} (history : Recalls s ed) (room : ed.history.length < 5) (here : Fits text) :
    Recalls { s with
      currentHistory := ed.history.length + 1
      historyCount := ed.history.length + 1
      cmdHistory := Function.update s.cmdHistory ed.history.length (padded 0 text) }
    { ed with history := ed.history ++ [text], recalled := (ed.history ++ [text]).length } := by
  obtain ⟨_, _, _, _, entry, unused, fits⟩ := history
  have length : (ed.history ++ [text]).length = ed.history.length + 1 := by simp
  constructor
  · exact length.symm
  · rw [length]
    exact room
  · exact length.symm
  · exact Nat.le_refl _
  · intro i inside
    simp only [length] at inside
    rcases Nat.lt_or_ge i ed.history.length with old | new
    · simp only [Function.update_of_ne (by lia : i ≠ ed.history.length), entry i old,
        List.getElem_append_left old]
    · have last : i = ed.history.length := by lia
      subst last
      simp
  · intro i outside
    simp only [length] at outside
    simp only [Function.update_of_ne (by lia : i ≠ ed.history.length)]
    exact unused i (by lia)
  · intro t mem
    rcases List.mem_append.mp mem with old | new
    · exact fits t old
    · exact List.mem_singleton.mp new ▸ here

theorem Recalls.shift {text : Text} (history : Recalls s ed) (five : ed.history.length = 5) (here : Fits text) :
    Recalls { s with
      currentHistory := 5
      historyCount := 5
      cmdHistory := Function.update (fun i => if i < 4 then s.cmdHistory (i + 1) else s.cmdHistory i) 4
        (padded 0 text) }
    { ed with history := ed.history.tail ++ [text], recalled := (ed.history.tail ++ [text]).length } := by
  obtain ⟨_, _, _, _, entry, unused, fits⟩ := history
  have length : (ed.history.tail ++ [text]).length = 5 := by simp [five]
  constructor
  · exact length.symm
  · exact Nat.le_of_eq length
  · exact length.symm
  · exact Nat.le_refl _
  · intro i inside
    simp only [length] at inside
    rcases Nat.lt_or_ge i 4 with old | new
    · have kept : i < ed.history.tail.length := by
        rw [List.length_tail]
        lia
      simp only [Function.update_of_ne (by lia : i ≠ 4), if_pos old, entry (i + 1) (by lia),
        List.getElem_append_left kept, List.getElem_tail]
    · have last : i = ed.history.tail.length := by
        rw [List.length_tail]
        lia
      have four : i = 4 := by lia
      simp [four, ← last]
  · intro i outside
    simp only [length] at outside
    simp only [Function.update_of_ne (by lia : i ≠ 4), if_neg (by lia : ¬ i < 4)]
    exact unused i (by lia)
  · intro t mem
    rcases List.mem_append.mp mem with old | new
    · exact fits t (List.mem_of_mem_tail old)
    · exact List.mem_singleton.mp new ▸ here

theorem Sim.sameAsLine {text : Text} (sim : Sim s ed) (fits : Fits text) :
    sameAsLine s (padded 0 text) = decide (text = ed.text) := by
  have short : text.length < 80 := fits.short
  have shorter : ed.text.length < 80 := sim.fits.short
  rw [Shell.sameAsLine, sim.line, Bool.eq_iff_iff, decide_eq_true_iff, List.all_eq_true]
  constructor
  · intro all
    apply padded_injective fits.end_ sim.fits.end_
    funext i
    rcases Nat.lt_or_ge i 80 with inside | outside
    · simpa using all i (by simpa [finshCmdSize] using inside)
    · rw [padded_outside (by lia), padded_outside (by lia)]
  · rintro rfl
    simp

theorem Sim.entryOf {old : Text} (sim : Sim s ed) (short : old.length ≤ finshCmdSize) :
    entryOf s (padded 0 old) = padded 0 ed.text := by
  have cleared : copy (padded 0 old) 0 (fun _ => (0 : UInt8)) 0 finshCmdSize = padded 0 [] :=
    copy_whole (fun _ _ => rfl) short (Nat.zero_le _)
  rw [Shell.entryOf, cleared, sim.line, sim.position]
  exact copy_whole (fun _ _ => rfl) (Nat.zero_le _) (Nat.le_refl _)

theorem Sim.lastSame (sim : Sim s ed) (some_texts : 0 < ed.history.length) :
    Shell.sameAsLine s (s.cmdHistory (ed.history.length - 1)) =
      decide (ed.history.getLast? = some ed.text) := by
  have inside : ed.history.length - 1 < ed.history.length := by lia
  rw [sim.history.entry _ inside, sim.sameAsLine (sim.history.fits _ (List.getElem_mem inside)),
    List.getLast?_eq_getElem?, List.getElem?_eq_getElem inside]
  simp

theorem Sim.lineStored (sim : Sim s ed) (some_text : ed.text ≠ []) :
    s.linePosition ≠ 0 ∧ ¬ finshCmdSize < s.linePosition := by
  have short : ed.text.length < 80 := sim.fits.short
  rw [sim.position, finshCmdSize]
  exact ⟨fun zero => some_text (List.length_eq_zero_iff.mp zero), by lia⟩

theorem Sim.pushSame (sim : Sim s ed) (same : ed.text = [] ∨ ed.history.getLast? = some ed.text) :
    shellPushHistory s = some { s with currentHistory := s.historyCount } := by
  have count := sim.history.count
  have most : ed.history.length ≤ 5 := sim.history.most
  rw [shellPushHistory]
  by_cases empty : ed.text = []
  · have zero : s.linePosition = 0 := by rw [sim.position, empty, List.length_nil]
    simp only [if_pos zero, Option.map_some]
  · obtain ⟨length, inside⟩ := sim.lineStored empty
    have repeated := same.resolve_left empty
    have some_texts : 0 < ed.history.length := by
      apply List.length_pos_of_ne_nil
      intro none
      simp [none] at repeated
    have last := (sim.lastSame some_texts).trans (decide_eq_true repeated)
    simp only [if_neg length, if_neg inside]
    split
    · rename_i full
      rw [count, finshHistoryLines] at full
      have index : finshHistoryLines - 1 = ed.history.length - 1 := by
        rw [finshHistoryLines]
        lia
      rw [index, if_pos last, Option.map_some]
    · have twice : ¬ (s.historyCount = 0 ∨
          Shell.sameAsLine s (s.cmdHistory (s.historyCount - 1)) = false) := by
        rw [count, last]
        simp only [Bool.true_eq_false, or_false]
        lia
      rw [if_neg twice, Option.map_some]

theorem Sim.pushShift (sim : Sim s ed) (some_text : ed.text ≠ []) (new : ed.history.getLast? ≠ some ed.text)
    (five : ed.history.length = 5) : shellPushHistory s = some { s with
      currentHistory := 5
      historyCount := 5
      cmdHistory := Function.update (fun i => if i < 4 then s.cmdHistory (i + 1) else s.cmdHistory i) 4
        (padded 0 ed.text) } := by
  obtain ⟨length, inside⟩ := sim.lineStored some_text
  have full : finshHistoryLines ≤ s.historyCount := Nat.le_of_eq (five.symm.trans sim.history.count.symm)
  have last : (4 : Nat) < ed.history.length := by lia
  have differ : ¬ Shell.sameAsLine s (s.cmdHistory (finshHistoryLines - 1)) = true := by
    have same := sim.lastSame (by lia)
    rw [five] at same
    change Shell.sameAsLine s (s.cmdHistory 4) = _ at same
    change ¬ Shell.sameAsLine s (s.cmdHistory 4) = true
    rw [same]
    simpa using new
  have stored : Shell.entryOf s (s.cmdHistory 4) = padded 0 ed.text := by
    rw [sim.history.entry 4 last]
    exact sim.entryOf (Nat.le_of_lt (sim.history.fits _ (List.getElem_mem last)).short)
  rw [shellPushHistory]
  simp only [if_neg length, if_neg inside]
  rw [if_pos full, if_neg differ, Option.map_some, ← stored]
  rfl

theorem Sim.pushAppend (sim : Sim s ed) (some_text : ed.text ≠ []) (new : ed.history.getLast? ≠ some ed.text)
    (room : ed.history.length < 5) : shellPushHistory s = some { s with
      currentHistory := ed.history.length + 1
      historyCount := ed.history.length + 1
      cmdHistory := Function.update s.cmdHistory ed.history.length (padded 0 ed.text) } := by
  have count := sim.history.count
  obtain ⟨length, inside⟩ := sim.lineStored some_text
  have notFull : ¬ finshHistoryLines ≤ s.historyCount := by
    rw [count, finshHistoryLines]
    lia
  have differ : s.historyCount = 0 ∨ Shell.sameAsLine s (s.cmdHistory (s.historyCount - 1)) = false := by
    rcases Nat.eq_zero_or_pos ed.history.length with zero | some_texts
    · exact .inl (count.trans zero)
    · rw [count, sim.lastSame some_texts]
      exact .inr (decide_eq_false new)
  have stored : Shell.entryOf s (s.cmdHistory s.historyCount) = padded 0 ed.text := by
    rw [sim.history.unused _ (Nat.le_of_eq count.symm)]
    exact sim.entryOf (Nat.zero_le _)
  rw [shellPushHistory]
  simp only [if_neg length, if_neg inside]
  rw [if_neg notFull, if_pos differ, Option.map_some, stored, count]

theorem Sim.pushHistory (sim : Sim s ed) : ∃ count entries,
    shellPushHistory s = some { s with
      currentHistory := count, historyCount := count, cmdHistory := entries } ∧
    Recalls { s with currentHistory := count, historyCount := count, cmdHistory := entries }
      { ed with history := remember ed.history ed.text, recalled := (remember ed.history ed.text).length } := by
  by_cases same : ed.text = [] ∨ ed.history.getLast? = some ed.text
  · obtain ⟨count, most, _, _, entry, unused, fits⟩ := sim.history
    refine ⟨s.historyCount, s.cmdHistory, sim.pushSame same, ?_⟩
    rw [remember, if_pos same]
    exact ⟨count, most, count, Nat.le_refl _, entry, unused, fits⟩
  · have ⟨some_text, new⟩ := not_or.mp same
    have most : ed.history.length ≤ 5 := sim.history.most
    rcases Nat.lt_or_ge ed.history.length 5 with room | full
    · have news : remember ed.history ed.text = ed.history ++ [ed.text] := by
        rw [remember, if_neg same, if_pos (show _ < finshHistoryLines from room)]
      rw [news]
      exact ⟨_, _, sim.pushAppend some_text new room, sim.history.append room sim.fits⟩
    · have five : ed.history.length = 5 := by lia
      have news : remember ed.history ed.text = ed.history.tail ++ [ed.text] := by
        rw [remember, if_neg same, if_neg (by rw [five]; decide)]
      rw [news]
      exact ⟨_, _, sim.pushShift some_text new five, sim.history.shift five sim.fits⟩

theorem Sim.enter (sim : Sim s ed) :
    ∃ s', enterKey s = some (s', ed.enter.2) ∧ Sim s' ed.enter.1 := by
  have short : ed.text.length < 80 := sim.fits.short
  obtain ⟨count, entries, pushed, history⟩ := sim.pushHistory
  have inside : ¬ finshCmdSize + 1 < s.linePosition := by
    rw [sim.position, finshCmdSize]
    lia
  have handed : slice s.line 0 s.linePosition = ed.text := by
    rw [sim.line, sim.position, slice_padded (by lia), List.drop_zero, List.take_length]
  have cleared : copy s.line 0 (fun _ => (0 : UInt8)) 0 (finshCmdSize + 1) = padded 0 [] := by
    rw [sim.line]
    exact copy_whole (fun _ _ => rfl) (by rw [finshCmdSize]; lia) (Nat.zero_le _)
  refine ⟨{ s with
    currentHistory := count
    historyCount := count
    cmdHistory := entries
    line := padded 0 []
    linePosition := 0
    lineCurpos := 0
    console := prompt }, ?_, ?_⟩
  · rw [enterKey, pushed, Option.bind_some, if_neg inside]
    simp only [handed, cleared]
    rfl
  · have none : Fits [] := ⟨by decide, List.not_mem_nil, List.not_mem_nil⟩
    exact ⟨sim.stat, sim.echo, none, rfl, rfl, Nat.le_refl _, rfl, rfl, history.same rfl rfl rfl rfl rfl⟩

theorem Sim.plain {ch : UInt8} (sim : Sim s ed) (exported : Exported names)
    (room : ch ∉ ([0, 0xff, 0x09, 0x7f, 0x08, 0x0d, 0x0a] : List UInt8) → s.linePosition + 1 < finshCmdSize) :
    ∃ s', plainKey names s ch = some (s', (ed.plain names ch).2) ∧ Sim s' (ed.plain names ch).1 := by
  rw [plainKey, Editor.plain]
  split
  · exact ⟨s, rfl, sim⟩
  · rename_i some_byte
    split
    · obtain ⟨s', done, after⟩ := sim.tab exported
      exact ⟨s', by rw [done, Option.map_some], after⟩
    · rename_i no_tab
      split
      · obtain ⟨s', done, after⟩ := sim.backspace
        exact ⟨s', by rw [done, Option.map_some], after⟩
      · rename_i no_backspace
        split
        · obtain ⟨s', done, after⟩ := sim.enter
          exact ⟨s', by rw [done, Option.map_some], after⟩
        · rename_i no_end
          simp only [not_or] at some_byte no_backspace no_end
          have room := room (by simp [some_byte, no_tab, no_backspace, no_end])
          rw [sim.position] at room
          obtain ⟨s', done, after⟩ := sim.insert ⟨some_byte.1, no_backspace.2⟩ room
          exact ⟨s', by rw [done, Option.map_some], after⟩

theorem Sim.normal (sim : Sim s ed) (stat : InputStat) : Sim { s with stat := stat } { ed with stat := stat } :=
  ⟨rfl, sim.echo, sim.fits, sim.position, sim.curpos, sim.cursor, sim.line, sim.console,
    sim.history.same rfl rfl rfl rfl rfl⟩

theorem Sim.key {ch : UInt8} (sim : Sim s ed) (exported : Exported names) (allowed : Guard s ch) :
    ∃ s', finshThreadEntry names s ch = some (s', (ed.key names ch).2) ∧ Sim s' (ed.key names ch).1 := by
  have stat := sim.stat
  rw [finshThreadEntry, Editor.key]
  split
  · exact ⟨_, rfl, sim.normal .waitSpecKey⟩
  · rename_i no_escape
    rw [Guard, Inserts] at allowed
    cases mode : s.stat with
    | waitNormal =>
      rw [← stat, mode]
      refine sim.plain exported (fun plain => allowed ⟨?_, ?_⟩)
      · simpa [no_escape] using plain
      · rw [mode]
        trivial
    | waitSpecKey =>
      rw [← stat, mode]
      simp only
      split
      · exact ⟨_, rfl, sim.normal .waitFuncKey⟩
      · rename_i no_bracket
        refine (sim.normal .waitNormal).plain exported (fun plain => allowed ⟨?_, ?_⟩)
        · simpa [no_escape] using plain
        · rw [mode]
          exact no_bracket
    | waitFuncKey =>
      rw [← stat, mode]
      have sim := sim.normal .waitNormal
      simp only
      split
      · obtain ⟨s', done, after⟩ := sim.up
        exact ⟨s', by rw [done, Option.map_some], after⟩
      · rename_i no_up
        split
        · obtain ⟨s', done, after⟩ := sim.down
          exact ⟨s', by rw [done, Option.map_some], after⟩
        · rename_i no_down
          split
          · exact ⟨_, rfl, sim.left⟩
          · rename_i no_left
            split
            · obtain ⟨s', done, after⟩ := sim.right
              exact ⟨s', by rw [done, Option.map_some], after⟩
            · rename_i no_right
              refine sim.plain exported (fun plain => allowed ⟨?_, ?_⟩)
              · simpa [no_escape] using plain
              · rw [mode]
                simp [no_up, no_down, no_left, no_right]

theorem replay_snoc {tr : List Event} (shown : replay names tr = some ed) (ch : UInt8) :
    replay names (tr ++ [⟨ch, (ed.key names ch).2⟩]) = some (ed.key names ch).1 := by
  rw [replay, replay_one shown]
  exact if_pos rfl

/-- The line is what an editor of whole texts makes of the same bytes, the terminal shows it, it
is this text that every end of line has handed over, and the next byte stays inside the line. -/
structure EditsSafely (names : List Text) (tr : List Event) (s : State) : Prop where
  editor : ∃ ed, replay names tr = some ed ∧ slice s.line 0 s.linePosition = ed.text ∧
    s.lineCurpos = ed.cursor ∧ s.console = ⟨padded 0x20 ed.text, ed.cursor⟩
  curpos : s.lineCurpos ≤ s.linePosition
  position : s.linePosition < finshCmdSize
  inside : ∀ ch, Guard s ch → step names s ch ≠ none

theorem Sim.safe {tr : List Event} (sim : Sim s ed) (exported : Exported names)
    (shown : replay names tr = some ed) : EditsSafely names tr s where
  editor := by
    refine ⟨ed, shown, ?_, sim.curpos, sim.console⟩
    rw [sim.line, sim.position, slice_padded (by lia), List.drop_zero, List.take_length]
  curpos := by
    rw [sim.curpos, sim.position]
    exact sim.cursor
  position := by
    rw [sim.position]
    exact sim.fits.short
  inside ch allowed := by
    obtain ⟨s', done, _⟩ := sim.key exported allowed
    simp [step, done]

theorem started_sim : Sim started blank where
  stat := rfl
  echo := rfl
  fits := ⟨by decide, List.not_mem_nil, List.not_mem_nil⟩
  position := rfl
  curpos := rfl
  cursor := Nat.le_refl _
  line := rfl
  console := rfl
  history := ⟨rfl, by decide, rfl, Nat.le_refl _, by simp [blank], fun _ _ => rfl, by simp [blank]⟩

/-- Where no line grows too long. -/
theorem shell_edits_safely (exported : Exported names) {tr : List Event}
    (run : RunWhere (machine names) Guard tr s) : EditsSafely names tr s := by
  obtain ⟨ed, shown, sim⟩ : ∃ ed, replay names tr = some ed ∧ Sim s ed := by
    apply run.invariant (I := fun tr s => ∃ ed, replay names tr = some ed ∧ Sim s ed)
    · rintro _ rfl
      exact ⟨blank, rfl, started_sim⟩
    · rintro tr s ch s' es _ ⟨ed, shown, sim⟩ allowed taken
      obtain ⟨next, done, after⟩ := sim.key exported allowed
      obtain ⟨r, here, result⟩ := Option.map_eq_some_iff.mp taken
      cases here.symm.trans done
      cases result
      exact ⟨_, replay_snoc shown ch, after⟩
  exact sim.safe exported shown

def someNames : List Text :=
  [[0x68, 0x65, 0x6c, 0x70], [0x68, 0x65, 0x6c, 0x6c, 0x6f], [0x6c, 0x69, 0x73, 0x74]]

theorem someNames_exported : Exported someNames := ⟨by decide, by decide⟩

def guardChecked (s : State) (_ : UInt8) : Bool := s.linePosition + 1 < finshCmdSize

theorem guardChecked_sound {ch : UInt8} (checked : guardChecked s ch = true) : Guard s ch :=
  fun _ => by simpa [guardChecked] using checked

/-- `he`, completed to `hel`, an `o` behind the `e`, the end of the line, and the line again. -/
def completed : List Event :=
  [⟨0x68, none⟩, ⟨0x65, none⟩, ⟨0x09, none⟩, ⟨0x1b, none⟩, ⟨0x5b, none⟩, ⟨0x44, none⟩, ⟨0x6f, none⟩,
    ⟨0x0d, some [0x68, 0x65, 0x6f, 0x6c]⟩, ⟨0x1b, none⟩, ⟨0x5b, none⟩, ⟨0x41, none⟩]

theorem shell_edits_safely_completed : ∃ s, EditsSafely someNames completed s ∧ s.linePosition = 4 := by
  obtain ⟨s, run, four⟩ := Run.shows (M := (machine someNames).restrict guardChecked) (s := started) rfl
    [0x68, 0x65, 0x09, 0x1b, 0x5b, 0x44, 0x6f, 0x0d, 0x1b, 0x5b, 0x41] completed
    (fun s => s.linePosition == 4) (by decide +kernel)
  exact ⟨s, shell_edits_safely someNames_exported
    (RunWhere.ofRestrict (fun _ _ _ _ => guardChecked_sound) run), by simpa using four⟩

theorem inserts_key {ch : UInt8} (inserts : Inserts s ch) : finshThreadEntry names s ch =
    (insertKey { s with stat := .waitNormal } ch).map (fun s => (s, none)) := by
  obtain ⟨normal, rest⟩ := inserts
  simp only [List.mem_cons, List.not_mem_nil, or_false, not_or] at normal
  obtain ⟨zero, ff, tab, del, bs, cr, lf, esc⟩ := normal
  have typed : ∀ s : State, plainKey names s ch = (insertKey s ch).map (fun s => (s, none)) := by
    intro s
    simp only [plainKey, zero, ff, tab, del, bs, cr, lf, or_self, if_false]
  rw [finshThreadEntry, if_neg esc]
  cases mode : s.stat with
  | waitNormal =>
    have same : { s with stat := .waitNormal } = s := by rw [← mode]
    rw [same]
    exact typed s
  | waitSpecKey =>
    simp only [mode] at rest
    simp only [if_neg rest, typed]
  | waitFuncKey =>
    simp only [mode, List.mem_cons, List.not_mem_nil, or_false, not_or] at rest
    simp only [if_neg rest.1, if_neg rest.2.1, if_neg rest.2.2.1, if_neg rest.2.2.2, typed]

/-- A character that makes the line too long leaves the terminal with a text that is gone. -/
theorem overlong_shown {ch : UInt8} {tr es : List Event} (sim : Sim s ed) (inserts : Inserts s ch)
    (full : ¬ s.linePosition + 1 < finshCmdSize) (taken : step names s ch = some (s', es)) :
    ¬ EditsSafely names tr s' := by
  rintro ⟨⟨ed', _, _, curpos, console⟩, _⟩
  have visible : ch ≠ 0 ∧ ch ≠ 0x08 := by
    constructor
    · rintro rfl
      exact inserts.1 (by decide)
    · rintro rfl
      exact inserts.1 (by decide)
  have full' : ¬ ed.text.length + 1 < finshCmdSize := by rwa [← sim.position]
  have done := (sim.normal .waitNormal).insertKey visible
  rw [if_neg full'] at done
  rw [step, inserts_key inserts, done, Option.map_some, Option.map_some] at taken
  cases taken
  rw [Console.mk.injEq] at console
  simp only at curpos console
  lia

/-- The second of two backspaces moves bytes from outside of the line. -/
def deletesOutside (s : State) : Bool :=
  match step [] s 0x7f with
  | some (s', _) => (step [] s' 0x7f).isNone
  | none => false

/-- Eighty characters, one more, and a completion: the length is that of the characters left
from the line that was discarded. One more character puts the cursor behind the end of the line. -/
theorem stale_line_completed : ∃ tr s, Run (machine []) tr s ∧
    s.linePosition < s.lineCurpos ∧ deletesOutside s = true := by
  obtain ⟨tr, s, run, found⟩ := Run.reaches (M := machine []) (s := started) rfl
    (List.replicate 80 0x61 ++ [0x62, 0x09, 0x63])
    (fun s => decide (s.linePosition < s.lineCurpos) && deletesOutside s) (by decide +kernel)
  rw [Bool.and_eq_true, decide_eq_true_iff] at found
  exact ⟨tr, s, run, found⟩

end RtThread.Shell

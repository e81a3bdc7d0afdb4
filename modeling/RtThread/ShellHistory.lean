import RtThread.Shell
import Mathlib.Data.List.Destutter
import Mathlib.Data.List.DropRight

/-! The history of the shell (shell_push_history, and the up and down keys of finsh_thread_entry). -/
namespace RtThread.Shell
open Transition CBuffer

/-- A line that is edited by hand: it is not completed, and does not get too long. -/
def ByHand (s : State) (ch : UInt8) : Prop := ch ≠ 0x09 ∧ Guard s ch

def entered (tr : List Event) : List Text := tr.filterMap Event.handed

/-- The last of the lines that are not empty, a line that is repeated at once counting once. -/
def stored (lines : List Text) : List Text :=
  ((lines.filter (· ≠ [])).destutter (· ≠ ·)).rtake finshHistoryLines

/-- Nothing has been typed since the prompt was printed. -/
def Fresh (tr : List Event) : Prop := ∀ e, tr.getLast? = some e → e.handed ≠ none

def upBytes : List UInt8 := [0x1b, 0x5b, 0x41]
def downBytes : List UInt8 := [0x1b, 0x5b, 0x42]

def times (key : List UInt8) (k : Nat) : List UInt8 := (List.replicate k key).flatten

def typed (names : List Text) (s : State) (bytes : List UInt8) : Option State :=
  bytes.foldlM (fun s ch => (finshThreadEntry names s ch).map Prod.fst) s

/-- Where the up key, typed `k` times, and then the down key, typed `m` times, come to in `n` lines. -/
def place (n k m : Nat) : Nat := if m = 0 then n - k else min (n - k + m) (n - 1)

/-- The line, the terminal and the cursor have the text. -/
structure Shows (s : State) (text : Text) : Prop where
  line : s.line = padded 0 text
  position : s.linePosition = text.length
  curpos : s.lineCurpos = text.length
  console : s.console = ⟨padded 0x20 text, text.length⟩

/-- The lines that were entered are those of an editor of whole texts, the last of them are stored,
and the arrow keys bring back what is stored. -/
structure HistoryKept (names : List Text) (tr : List Event) (s : State) : Prop where
  edited : replay names tr ≠ none
  count : s.historyCount = (stored (entered tr)).length
  entry : ∀ i (inside : i < (stored (entered tr)).length), s.cmdHistory i = padded 0 (stored (entered tr))[i]
  recalled : Fresh tr → ∀ k m, ∃ s', typed names s (times upBytes k ++ times downBytes m) = some s' ∧
    Shows s' ((stored (entered tr)).getD (place (stored (entered tr)).length k m) [])

variable {names : List Text} {s s' : State} {ed : Editor} {tr : List Event} {ch : UInt8}

/- Stored lines. -/

theorem destutter'_concat {α : Type} [DecidableEq α] (l : List α) (a x : α) :
    (l ++ [x]).destutter' (· ≠ ·) a =
      if (l.destutter' (· ≠ ·) a).getLast? = some x then l.destutter' (· ≠ ·) a
      else l.destutter' (· ≠ ·) a ++ [x] := by
  induction l generalizing a with
  | nil => by_cases same : a = x <;> simp [List.destutter', same]
  | cons b l ih =>
    by_cases same : a = b
    · simpa [List.destutter', same] using ih b
    · have some_ : l.destutter' (· ≠ ·) b ≠ [] := List.destutter'_ne_nil _ _
      obtain ⟨c, rest, form⟩ := List.exists_cons_of_ne_nil some_
      simp only [List.cons_append, List.destutter', if_pos (show a ≠ b from same), ih b, form,
        List.getLast?_cons_cons]
      split <;> rfl

theorem destutter_concat {α : Type} [DecidableEq α] (l : List α) (x : α) :
    (l ++ [x]).destutter (· ≠ ·) =
      if (l.destutter (· ≠ ·)).getLast? = some x then l.destutter (· ≠ ·) else l.destutter (· ≠ ·) ++ [x] := by
  cases l with
  | nil => rfl
  | cons a l => exact destutter'_concat l a x

theorem getLast?_rtake {α : Type} (l : List α) {n : Nat} (some_ : 0 < n) : (l.rtake n).getLast? = l.getLast? := by
  rw [List.rtake, List.getLast?_drop]
  split
  · rename_i all
    have none : l = [] := List.eq_nil_of_length_eq_zero (by lia)
    simp [none]
  · rfl

theorem rtake_concat {α : Type} (l : List α) (x : α) {n : Nat} (some_ : 0 < n) :
    (l ++ [x]).rtake n = (if (l.rtake n).length < n then l.rtake n else (l.rtake n).tail) ++ [x] := by
  obtain ⟨n, rfl⟩ : ∃ m, n = m + 1 := ⟨n - 1, by lia⟩
  rw [List.rtake_concat_succ]
  congr 1
  simp only [List.rtake, List.length_drop, List.tail_drop]
  split <;> congr 1 <;> lia

theorem stored_concat (lines : List Text) (text : Text) :
    stored (lines ++ [text]) = remember (stored lines) text := by
  rw [stored, List.filter_append, remember]
  by_cases empty : text = []
  · simp [empty, stored]
  · have kept : [text].filter (· ≠ []) = [text] := by simp [empty]
    have last : (stored lines).getLast? = ((lines.filter (· ≠ [])).destutter (· ≠ ·)).getLast? :=
      getLast?_rtake _ (by decide)
    rw [kept, destutter_concat, last]
    by_cases again : ((lines.filter (· ≠ [])).destutter (· ≠ ·)).getLast? = some text
    · rw [if_pos again, if_pos (.inr again)]
      rfl
    · rw [if_neg again, if_neg (not_or.mpr ⟨empty, again⟩)]
      exact rtake_concat _ _ (by decide)

/- The keys. -/

def fresh (history : List Text) : Editor := ⟨.waitNormal, [], 0, history, history.length⟩

theorem up_history : ed.up.history = ed.history := by
  rw [Editor.up]
  split <;> rfl

theorem down_history : ed.down.history = ed.history := by
  rw [Editor.down]
  split <;> rfl

theorem plain_cases (names : List Text) (ed : Editor) (ch : UInt8) :
    ((ed.plain names ch).2 = none ∧ (ed.plain names ch).1.history = ed.history) ∨
    ∃ text, (ed.plain names ch).2 = some text ∧
      (ed.plain names ch).1 = { fresh (remember ed.history text) with stat := ed.stat } := by
  rw [Editor.plain]
  split
  · exact .inl ⟨rfl, rfl⟩
  · split
    · exact .inl ⟨rfl, rfl⟩
    · split
      · refine .inl ⟨rfl, ?_⟩
        rw [Editor.backspace]
        split <;> rfl
      · split
        · exact .inr ⟨ed.text, rfl, rfl⟩
        · refine .inl ⟨rfl, ?_⟩
          rw [Editor.insert]
          split <;> rfl

theorem key_cases (names : List Text) (ed : Editor) (ch : UInt8) :
    ((ed.key names ch).2 = none ∧ (ed.key names ch).1.history = ed.history) ∨
    ∃ text, (ed.key names ch).2 = some text ∧ (ed.key names ch).1 = fresh (remember ed.history text) := by
  rw [Editor.key]
  split
  · exact .inl ⟨rfl, rfl⟩
  · cases mode : ed.stat with
    | waitNormal =>
      have plain := plain_cases names ed ch
      rw [mode] at plain
      exact plain
    | waitSpecKey =>
      simp only
      split
      · exact .inl ⟨rfl, rfl⟩
      · exact plain_cases names { ed with stat := .waitNormal } ch
    | waitFuncKey =>
      simp only
      split
      · exact .inl ⟨rfl, up_history⟩
      · split
        · exact .inl ⟨rfl, down_history⟩
        · split
          · exact .inl ⟨rfl, rfl⟩
          · split
            · exact .inl ⟨rfl, rfl⟩
            · exact plain_cases names { ed with stat := .waitNormal } ch

theorem thread_names (by_hand : ch ≠ 0x09) : finshThreadEntry names s ch = finshThreadEntry [] s ch := by
  have plain : ∀ s : State, plainKey names s ch = plainKey [] s ch := by
    intro s
    simp only [plainKey, if_neg by_hand]
  simp only [finshThreadEntry, plain]

theorem key_names (by_hand : ch ≠ 0x09) : ed.key names ch = ed.key [] ch := by
  have plain : ∀ ed : Editor, ed.plain names ch = ed.plain [] ch := by
    intro ed
    simp only [Editor.plain, if_neg by_hand]
  simp only [Editor.key, plain]

theorem Sim.byHand (sim : Sim s ed) (allowed : ByHand s ch) (names : List Text) :
    ∃ s', finshThreadEntry names s ch = some (s', (ed.key names ch).2) ∧ Sim s' (ed.key names ch).1 := by
  rw [thread_names allowed.1, key_names allowed.1]
  exact sim.key ⟨by simp, by simp⟩ allowed.2

/- Recalling. -/

/-- The editor with the entry at `i`, or with an empty line behind them all. -/
def showing (history : List Text) (i : Nat) : Editor :=
  Editor.toText ⟨.waitNormal, [], 0, history, i⟩ (history.getD i [])

theorem fresh_showing (history : List Text) : fresh history = showing history history.length := by
  simp [fresh, showing, Editor.toText]

theorem up_showing (history : List Text) (i : Nat) : (showing history i).up = showing history (i - 1) := by
  rw [Editor.up]
  split
  · rename_i first
    have zero : i = 0 := first
    rw [zero]
  · rfl

theorem down_showing (history : List Text) {i : Nat} (inside : i ≤ history.length) :
    (showing history i).down = showing history (min (i + 1) (history.length - 1)) := by
  rw [Editor.down]
  split
  · rename_i none
    have empty : history = [] := none
    subst empty
    obtain rfl : i = 0 := by simpa using inside
    rfl
  · rfl

theorem ups_showing (history : List Text) (k i : Nat) :
    Editor.up^[k] (showing history i) = showing history (i - k) := by
  induction k generalizing i with
  | zero => rfl
  | succ k ih =>
    rw [Function.iterate_succ_apply, up_showing, ih]
    congr 1
    lia

theorem downs_showing (history : List Text) (m : Nat) {i : Nat} (inside : i ≤ history.length) :
    Editor.down^[m] (showing history i) =
      showing history (if m = 0 then i else min (i + m) (history.length - 1)) := by
  induction m generalizing i with
  | zero => rfl
  | succ m ih =>
    rw [Function.iterate_succ_apply, down_showing history inside, ih (by lia)]
    congr 1
    rw [if_neg (Nat.succ_ne_zero m)]
    split <;> lia

theorem typed_append (names : List Text) (s : State) (one two : List UInt8) :
    typed names s (one ++ two) = (typed names s one).bind (fun s => typed names s two) :=
  List.foldlM_append

theorem Sim.typed_up (sim : Sim s ed) (normal : ed.stat = .waitNormal) :
    ∃ s', typed names s upBytes = some s' ∧ Sim s' ed.up ∧ ed.up.stat = .waitNormal := by
  have same : { ed with stat := .waitNormal } = ed := by rw [← normal]
  obtain ⟨s', done, after⟩ := (sim.normal .waitNormal).up
  refine ⟨s', by simp [typed, upBytes, finshThreadEntry, done], same ▸ after, ?_⟩
  rw [Editor.up]
  split <;> exact normal

theorem Sim.typed_down (sim : Sim s ed) (normal : ed.stat = .waitNormal) :
    ∃ s', typed names s downBytes = some s' ∧ Sim s' ed.down ∧ ed.down.stat = .waitNormal := by
  have same : { ed with stat := .waitNormal } = ed := by rw [← normal]
  obtain ⟨s', done, after⟩ := (sim.normal .waitNormal).down
  refine ⟨s', by simp [typed, downBytes, finshThreadEntry, done], same ▸ after, ?_⟩
  rw [Editor.down]
  split <;> exact normal

theorem Sim.typed_times {key : List UInt8} {move : Editor → Editor}
    (once : ∀ {s ed}, Sim s ed → ed.stat = .waitNormal →
      ∃ s', typed names s key = some s' ∧ Sim s' (move ed) ∧ (move ed).stat = .waitNormal)
    (k : Nat) (sim : Sim s ed) (normal : ed.stat = .waitNormal) :
    ∃ s', typed names s (times key k) = some s' ∧ Sim s' (move^[k] ed) ∧ (move^[k] ed).stat = .waitNormal := by
  induction k generalizing s ed with
  | zero => exact ⟨s, rfl, sim, normal⟩
  | succ k ih =>
    obtain ⟨mid, first, there, still⟩ := once sim normal
    obtain ⟨s', rest, after⟩ := ih there still
    refine ⟨s', ?_, after⟩
    rw [times, List.replicate_succ, List.flatten_cons, typed_append, first]
    exact rest

theorem Sim.recalled {history : List Text} (sim : Sim s (fresh history)) (k m : Nat) :
    ∃ s', typed names s (times upBytes k ++ times downBytes m) = some s' ∧
      Shows s' (history.getD (place history.length k m) []) := by
  obtain ⟨mid, ups, there, still⟩ := sim.typed_times (@Sim.typed_up names) k rfl
  obtain ⟨s', downs, after, _⟩ := there.typed_times (@Sim.typed_down names) m still
  rw [fresh_showing, ups_showing, downs_showing history m (Nat.sub_le _ _)] at after
  refine ⟨s', ?_, after.line, after.position, after.curpos, after.console⟩
  rw [typed_append, ups]
  exact downs

/- The claim about runs. -/

theorem entered_concat (tr : List Event) (e : Event) :
    entered (tr ++ [e]) = entered tr ++ e.handed.toList := by
  cases handed : e.handed with
  | none => simp [entered, handed]
  | some text => simp [entered, handed]

theorem shell_history (run : RunWhere (machine names) ByHand tr s) : HistoryKept names tr s := by
  obtain ⟨ed, shown, sim, texts, prompt⟩ : ∃ ed, replay names tr = some ed ∧ Sim s ed ∧
      ed.history = stored (entered tr) ∧ (Fresh tr → ed = fresh ed.history) := by
    apply run.invariant (I := fun tr s => ∃ ed, replay names tr = some ed ∧ Sim s ed ∧
      ed.history = stored (entered tr) ∧ (Fresh tr → ed = fresh ed.history))
    · rintro _ rfl
      exact ⟨blank, rfl, started_sim, rfl, fun _ => rfl⟩
    · rintro tr s ch s' es _ ⟨ed, shown, sim, texts, prompt⟩ allowed taken
      obtain ⟨next, done, after⟩ := sim.byHand allowed names
      obtain ⟨r, here, result⟩ := Option.map_eq_some_iff.mp taken
      cases here.symm.trans done
      cases result
      refine ⟨_, replay_snoc shown ch, after, ?_, fun new => ?_⟩
      · rw [entered_concat]
        obtain ⟨none, same⟩ | ⟨text, handed, renewed⟩ := key_cases names ed ch
        · simp [none, same, texts]
        · rw [renewed, handed, Option.toList_some, stored_concat, texts]
          rfl
      · obtain ⟨none, -⟩ | ⟨text, handed, renewed⟩ := key_cases names ed ch
        · exact absurd none (new _ List.getLast?_concat)
        · rw [renewed]
          rfl
  refine ⟨by simp [shown], ?_, ?_, fun new k m => ?_⟩
  · rw [sim.history.count, texts]
  · intro i inside
    simpa [texts] using sim.history.entry i (texts ▸ inside)
  · rw [prompt new, texts] at sim
    exact sim.recalled k m

def byHandChecked (s : State) (ch : UInt8) : Bool := ch != 0x09 && guardChecked s ch

theorem byHandChecked_sound (checked : byHandChecked s ch = true) : ByHand s ch := by
  rw [byHandChecked, Bool.and_eq_true, bne_iff_ne] at checked
  exact ⟨checked.1, guardChecked_sound checked.2⟩

/-- `a`, the same again from the history, an empty line, and `b`. -/
def enteredLines : List Event :=
  [⟨0x61, none⟩, ⟨0x0d, some [0x61]⟩, ⟨0x1b, none⟩, ⟨0x5b, none⟩, ⟨0x41, none⟩, ⟨0x0d, some [0x61]⟩,
    ⟨0x0d, some []⟩, ⟨0x62, none⟩, ⟨0x0d, some [0x62]⟩]

theorem shell_history_lines : ∃ s, HistoryKept someNames enteredLines s ∧ s.historyCount = 2 := by
  obtain ⟨s, run, two⟩ := Run.shows (M := (machine someNames).restrict byHandChecked) (s := started) rfl
    [0x61, 0x0d, 0x1b, 0x5b, 0x41, 0x0d, 0x0d, 0x62, 0x0d] enteredLines
    (fun s => s.historyCount == 2) (by decide +kernel)
  exact ⟨s, shell_history (RunWhere.ofRestrict (fun _ _ _ _ => byHandChecked_sound) run), by simpa using two⟩

end RtThread.Shell

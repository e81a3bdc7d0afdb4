import RtThread.Run
import Mathlib.Data.Fintype.Basic
import Mathlib.Logic.Function.Basic

/-! Thread-specific data: the table of keys, the tls area each thread allocates with its first
pthread_setspecific, and the loop of pthread_exit over the destructors. -/
namespace RtThread.Pthread.Tls
open Transition

def keyMax : Nat := 8

structure Key (D : Type) where
  used : Bool
  destructor : Option D

/-- `exiting`: in the loop of pthread_exit; `calling`: between the read of the value there and the
call of its destructor. -/
inductive Phase where
  | gone
  | running
  | exiting (index : Nat)
  | calling (index : Nat) (data : Nat)
  deriving DecidableEq

/-- _thread_keys, and ptd->tls of each thread; a pointer is a number, NULL is 0. -/
structure State (T D : Type) where
  keys : Int → Key D
  tls : T → Option (Int → Nat)
  phase : T → Phase

/-- `fault`: a write through NULL, or to or from outside _thread_keys. -/
inductive Event (T D : Type) where
  | got (t : T) (key : Int) (value : Nat)
  | stored (t : T) (key : Int) (value : Nat)
  | created (key : Int)
  | deleted (key : Int)
  | called (t : T) (key : Int) (destructor : Option D) (data : Nat)
  | ended (t : T)
  | fault
  deriving DecidableEq

/-- `memory` is what rt_malloc returns, with what is in it, should it be called. -/
inductive Action (T D : Type) where
  | spawn (t : T)
  | getspecific (t : T) (key : Int)
  | setspecific (t : T) (key : Int) (value : Nat) (memory : Option (Int → Nat))
  | create (destructor : Option D)
  | delete (key : Int)
  | exit (t : T)
  | look (t : T)
  | invoke (t : T)
  | cancel (t : T)

variable {T D : Type} [DecidableEq T]

/-- After pthread_key_system_init. -/
def init : State T D := ⟨fun _ => ⟨false, none⟩, fun _ => none, fun _ => .gone⟩

def State.move (s : State T D) (t : T) (p : Phase) : State T D :=
  { s with phase := Function.update s.phase t p }

def contents (tls : Option (Int → Nat)) (key : Int) : Nat :=
  match tls with
  | none => 0
  | some slots => slots key

def State.slot (s : State T D) (t : T) (key : Int) : Nat := contents (s.tls t) key

/-- "check tls area". -/
def State.reserve (s : State T D) (t : T) (memory : Option (Int → Nat)) : State T D :=
  { s with tls := Function.update s.tls t ((s.tls t).or memory) }

/-- `none` when the key is looked up outside the table. -/
def pthreadGetspecific (s : State T D) (t : T) (key : Int) : Option Nat :=
  if s.tls t = none then some 0
  else if key < keyMax then
    if key < 0 then none
    else if (s.keys key).used then some (s.slot t key)
    else some 0
  else some 0

def State.store (s : State T D) (t : T) (slots : Int → Nat) (key : Int) (value : Nat) : State T D :=
  { s with tls := Function.update s.tls t (some (Function.update slots key value)) }

def pthreadSetspecific (s : State T D) (t : T) (key : Int) (value : Nat) (memory : Option (Int → Nat)) :
    State T D × List (Event T D) :=
  let s := s.reserve t memory
  if key < keyMax then
    if key < 0 then (s, [.fault])
    else if (s.keys key).used then
      match s.tls t with
      | none => (s, [.fault])
      | some slots => (s.store t slots key value, [.stored t key value])
    else (s, [])
  else (s, [])

def State.setKey (s : State T D) (key : Int) (k : Key D) : State T D :=
  { s with keys := Function.update s.keys key k }

def State.unused (s : State T D) : Option Nat := (List.range keyMax).find? fun i => !(s.keys i).used

def pthreadKeyCreate (s : State T D) (destructor : Option D) : State T D × List (Event T D) :=
  match s.unused with
  | none => (s, [])
  | some i => (s.setKey i ⟨true, destructor⟩, [.created i])

def pthreadKeyDelete (s : State T D) (key : Int) : State T D × List (Event T D) :=
  if keyMax ≤ key then (s, [])
  else if key < 0 then (s, [.fault])
  else (s.setKey key ⟨false, none⟩, [.deleted key])

/-- The thread is removed; its tls is released by then, or by _pthread_data_destroy. -/
def State.finish (s : State T D) (t : T) : State T D × List (Event T D) :=
  ({ s with tls := Function.update s.tls t none }.move t .gone, [.ended t])

/-- One round of the loop of pthread_exit, up to the call of the destructor. -/
def State.look (s : State T D) (t : T) (index : Nat) : State T D × List (Event T D) :=
  if index < keyMax then
    if (s.keys index).used ∧ s.slot t index ≠ 0 then (s.move t (.calling index (s.slot t index)), [])
    else (s.move t (.exiting (index + 1)), [])
  else s.finish t

def Phase.active : Phase → Bool
  | .running | .exiting _ => true
  | _ => false

def step (s : State T D) : Action T D → Option (State T D × List (Event T D))
  | .spawn t => if s.phase t = .gone then some (s.move t .running, []) else none
  | .getspecific t key =>
    if (s.phase t).active then some (s, [(pthreadGetspecific s t key).elim .fault (.got t key)]) else none
  | .setspecific t key value memory =>
    if (s.phase t).active then some (pthreadSetspecific s t key value memory) else none
  | .create destructor => some (pthreadKeyCreate s destructor)
  | .delete key => some (pthreadKeyDelete s key)
  | .exit t =>
    if s.phase t = .running then
      if s.tls t = none then some (s.finish t) else some (s.move t (.exiting 0), [])
    else none
  | .look t =>
    match s.phase t with
    | .exiting index => some (s.look t index)
    | _ => none
  | .invoke t =>
    match s.phase t with
    | .calling index data =>
      some (s.move t (.exiting (index + 1)), [.called t index (s.keys index).destructor data])
    | _ => none
  | .cancel t => if (s.phase t).active then some (s.finish t) else none

def machine : Machine (State T D) (Action T D) (Event T D) := ⟨(· = init), step⟩

/-- What an event does to the values set: a key that is made or deleted has none, and so has a thread
that ends. -/
def note (table : T → Int → Nat) : Event T D → T → Int → Nat
  | .stored t key value => Function.update table t (Function.update (table t) key value)
  | .created key | .deleted key => fun t => Function.update (table t) key 0
  | .ended t => Function.update table t fun _ => 0
  | _ => table

/-- The value a thread last set for a key since the key was made, NULL if there is none. -/
def lastSet (tr : List (Event T D)) : T → Int → Nat := tr.foldl note fun _ _ => 0

/-- What an event should be after a history. -/
def Right (tr : List (Event T D)) : Event T D → Prop
  | .got t key value => value = lastSet tr t key
  | .called t key destructor data => destructor ≠ none ∧ data ≠ 0 ∧ data = lastSet tr t key
  | .fault => False
  | _ => True

def Kept (tr : List (Event T D)) : Prop := Each Right tr

/-- Every thread reads what it last set, for all keys. -/
def Isolated (tr : List (Event T D)) (s : State T D) : Prop :=
  ∀ t key, 0 ≤ key → pthreadGetspecific s t key = some (lastSet tr t key)

/-- The key whose destructor is about to be called. -/
def Phase.callee : Phase → Option Nat
  | .calling index _ => some index
  | _ => none

/-- No key is negative; no thread has a value in the slot of a key that is made; a first
pthread_setspecific gets memory that is zero at the other keys in use; a destructor that is called
is one. -/
def Guard (s : State T D) : Action T D → Prop
  | .getspecific t key => s.tls t ≠ none → 0 ≤ key
  | .setspecific t key _ memory =>
    0 ≤ key ∧ (s.tls t = none → (memory = none → key < keyMax → (s.keys key).used = false) ∧
      ∀ i : Fin keyMax, (s.keys i.val).used = true → (i.val : Int) ≠ key → contents memory i.val = 0)
  | .create _ => ∀ i ∈ s.unused, ∀ t, s.slot t i = 0
  | .delete key => 0 ≤ key
  | .invoke t => ∀ index ∈ (s.phase t).callee, (s.keys index).destructor ≠ none
  | _ => True

instance [Fintype T] (s : State T D) (a : Action T D) : Decidable (Guard s a) := by
  unfold Guard
  cases a <;> dsimp only <;> infer_instance

variable {tr es : List (Event T D)} {s s' : State T D} {a : Action T D} {e : Event T D} {t : T} {key : Int}

@[simp] theorem lastSet_snoc (tr : List (Event T D)) (e : Event T D) :
    lastSet (tr ++ [e]) = note (lastSet tr) e := by
  simp [lastSet]

theorem kept_snoc : Kept (tr ++ [e]) ↔ Kept tr ∧ Right tr e := each_snoc

theorem not_kept (tr : List (Event T D)) (e : Event T D) (wrong : ¬Right tr e) : ¬Kept (tr ++ [e]) :=
  fun kept => wrong (kept_snoc.mp kept).2

/-- What the calls keep, whether or not the keys are used as they should be. -/
structure Inv (tr : List (Event T D)) (s : State T D) : Prop where
  natural : ∀ t key, key < 0 → lastSet tr t key = 0
  cleared : ∀ key, (s.keys key).used = false → (s.keys key).destructor = none
  calling : ∀ t index data, s.phase t = .calling index data → data ≠ 0 ∧ index < keyMax ∧ s.slot t index = data

/-- What a thread sees of its slots through the keys. -/
def State.seen (s : State T D) (t : T) (key : Int) : Nat :=
  if key < keyMax ∧ (s.keys key).used = true then s.slot t key else 0

omit [DecidableEq T] in
theorem getspecific_seen (s : State T D) (t : T) (valid : 0 ≤ key) :
    pthreadGetspecific s t key = some (s.seen t key) := by
  simp only [pthreadGetspecific, State.seen, State.slot]
  split
  · rename_i empty
    simp [empty, contents]
  · split
    · rename_i low
      rw [if_neg (Int.not_lt.mpr valid)]
      split <;> simp_all
    · rename_i high
      simp [high]

theorem isolated_seen : Isolated tr s ↔ ∀ t key, 0 ≤ key → s.seen t key = lastSet tr t key := by
  refine forall_congr' fun t => forall_congr' fun key => forall_congr' fun valid => ?_
  rw [getspecific_seen s t valid, Option.some.injEq]

@[simp] theorem move_seen (s : State T D) (t u : T) (p : Phase) (key : Int) :
    (s.move t p).seen u key = s.seen u key := rfl
@[simp] theorem move_phase (s : State T D) (t u : T) (p : Phase) :
    (s.move t p).phase u = if u = t then p else s.phase u := by
  simp [State.move, Function.update_apply]

omit [DecidableEq T] in
theorem setKey_seen (s : State T D) (key other : Int) (k : Key D) (t : T) :
    (s.setKey key k).seen t other =
      if other = key then if key < keyMax ∧ k.used = true then s.slot t key else 0 else s.seen t other := by
  by_cases hit : other = key
  · subst hit
    simp [State.seen, State.setKey, State.slot]
  · simp [State.seen, State.setKey, State.slot, hit]

@[simp] theorem reserve_keys (s : State T D) (t : T) (memory : Option (Int → Nat)) :
    (s.reserve t memory).keys = s.keys := rfl

theorem reserve_slot (s : State T D) (t u : T) (memory : Option (Int → Nat)) (key : Int) :
    (s.reserve t memory).slot u key =
      if u = t ∧ s.tls t = none then contents memory key else s.slot u key := by
  by_cases hu : u = t
  · subst hu
    cases empty : s.tls u <;> simp [State.reserve, State.slot, empty]
  · simp [State.reserve, State.slot, hu]

theorem lastSet_empty (isolated : Isolated tr s) (empty : s.tls t = none) (valid : 0 ≤ key) :
    lastSet tr t key = 0 := by
  rw [← isolated_seen.mp isolated t key valid]
  simp [State.seen, State.slot, empty, contents]

theorem reserve_isolated (isolated : Isolated tr s) (t : T) (memory : Option (Int → Nat)) :
    Isolated tr (s.reserve t memory) ↔
      (s.tls t = none → ∀ i : Fin keyMax, (s.keys i.val).used = true → contents memory i.val = 0) := by
  have old := isolated_seen.mp isolated
  rw [isolated_seen]
  refine ⟨fun same empty i used => ?_, fun clean u key valid => ?_⟩
  · have seen := same t i.val (Int.natCast_nonneg _)
    have low : ((i.val : Nat) : Int) < keyMax := Int.ofNat_lt.mpr i.isLt
    rw [State.seen, if_pos ⟨low, used⟩, reserve_slot, if_pos ⟨rfl, empty⟩] at seen
    rw [seen, lastSet_empty isolated empty (Int.natCast_nonneg _)]
  · rw [← old u key valid, State.seen, State.seen, reserve_keys, reserve_slot]
    split
    · rename_i both
      obtain ⟨low, used⟩ := both
      split
      · rename_i fresh
        obtain ⟨rfl, empty⟩ := fresh
        lift key to Nat using valid
        have zero := clean empty ⟨key, Int.ofNat_lt.mp low⟩ used
        rw [zero, State.slot, empty, contents]
      · rfl
    · rfl

theorem store_slot {slots : Int → Nat} (here : s.tls t = some slots) (u : T) (key other : Int) (value : Nat) :
    (s.store t slots key value).slot u other = if u = t ∧ other = key then value else s.slot u other := by
  by_cases hu : u = t
  · subst hu
    by_cases same : other = key <;> simp [State.store, State.slot, contents, same, here]
  · simp [State.store, State.slot, hu]

theorem note_stored (table : T → Int → Nat) (t u : T) (key other : Int) (value : Nat) :
    note table (.stored t key value : Event T D) u other =
      if u = t ∧ other = key then value else table u other := by
  by_cases hu : u = t
  · subst hu
    by_cases same : other = key <;> simp [note, same]
  · simp [note, hu]

theorem store_isolated {slots : Int → Nat} {memory : Option (Int → Nat)} (isolated : Isolated tr s)
    (here : (s.reserve t memory).tls t = some slots) (low : key < keyMax) (used : (s.keys key).used = true)
    (value : Nat) :
    Isolated (tr ++ [.stored t key value]) ((s.reserve t memory).store t slots key value) ↔
      (s.tls t = none → ∀ i : Fin keyMax, (s.keys i.val).used = true → (i.val : Int) ≠ key →
        contents memory i.val = 0) := by
  have old := isolated_seen.mp isolated
  have keys : ((s.reserve t memory).store t slots key value).keys = s.keys := rfl
  rw [isolated_seen]
  refine ⟨fun same empty i inUse apart => ?_, fun clean u other valid => ?_⟩
  · have seen := same t i.val (Int.natCast_nonneg _)
    have below : ((i.val : Nat) : Int) < keyMax := Int.ofNat_lt.mpr i.isLt
    rw [State.seen, keys, if_pos ⟨below, inUse⟩, store_slot here, if_neg (fun both => apart both.2),
      reserve_slot, if_pos ⟨rfl, empty⟩] at seen
    rw [seen, lastSet_snoc, note_stored, if_neg (fun both => apart both.2),
      lastSet_empty isolated empty (Int.natCast_nonneg _)]
  · rw [lastSet_snoc, note_stored, State.seen, keys, store_slot here]
    by_cases written : u = t ∧ other = key
    · obtain ⟨rfl, rfl⟩ := written
      simp [low, used]
    · rw [if_neg written, if_neg written, ← old u other valid, State.seen, reserve_slot]
      split
      · rename_i both
        obtain ⟨below, inUse⟩ := both
        split
        · rename_i fresh
          obtain ⟨rfl, empty⟩ := fresh
          lift other to Nat using valid
          have zero := clean empty ⟨other, Int.ofNat_lt.mp below⟩ inUse fun same => written ⟨rfl, same⟩
          rw [zero, State.slot, empty, contents]
        · rfl
      · rfl

/-- The threads' own views and the history of what they saw. -/
def Sound (tr : List (Event T D)) (s : State T D) : Prop := Isolated tr s ∧ Kept tr

theorem sound_nil : Sound (tr ++ []) s' ↔ Isolated tr s' ∧ Kept tr := by
  rw [List.append_nil, Sound]

theorem sound_snoc : Sound (tr ++ [e]) s' ↔ Isolated (tr ++ [e]) s' ∧ Kept tr ∧ Right tr e := by
  rw [Sound, kept_snoc]

theorem set_sound (sound : Sound tr s) (t : T) (key : Int) (value : Nat) (memory : Option (Int → Nat)) :
    Sound (tr ++ (pthreadSetspecific s t key value memory).2) (pthreadSetspecific s t key value memory).1 ↔
      Guard s (.setspecific t key value memory) := by
  obtain ⟨isolated, kept⟩ := sound
  simp only [Guard, pthreadSetspecific]
  have apart (unused : key < keyMax → (s.keys key).used = false) (i : Fin keyMax)
      (used : (s.keys i.val).used = true) : (i.val : Int) ≠ key := fun same => by
    subst same
    simp [unused (Int.ofNat_lt.mpr i.isLt)] at used
  have reserved (valid : 0 ≤ key) (unused : key < keyMax → (s.keys key).used = false) :
      Sound (tr ++ []) (s.reserve t memory) ↔ 0 ≤ key ∧ (s.tls t = none →
        (memory = none → key < keyMax → (s.keys key).used = false) ∧
          ∀ i : Fin keyMax, (s.keys i.val).used = true → (i.val : Int) ≠ key → contents memory i.val = 0) := by
    rw [sound_nil, and_iff_left kept, reserve_isolated isolated]
    refine ⟨fun clean => ⟨valid, fun empty => ⟨fun _ => unused, fun i used _ => clean empty i used⟩⟩,
      fun both empty i used => (both.2 empty).2 i used (apart unused i used)⟩
  split
  · rename_i low
    split
    · rename_i negative
      rw [sound_snoc]
      refine ⟨fun both => both.2.2.elim, fun both => absurd negative (Int.not_lt.mpr both.1)⟩
    · rename_i natural
      have valid : 0 ≤ key := Int.not_lt.mp natural
      split
      · rename_i used
        rw [reserve_keys] at used
        cases here : (s.reserve t memory).tls t with
        | none =>
          rw [sound_snoc]
          refine ⟨fun both => both.2.2.elim, fun both => ?_⟩
          have unset : s.tls t = none ∧ memory = none := by simpa [State.reserve] using here
          have free := (both.2 unset.1).1 unset.2 low
          exact absurd used (by simp [free])
        | some slots =>
          rw [sound_snoc]
          have stored := store_isolated isolated here low used value
          refine ⟨fun both => ⟨valid, fun empty => ⟨fun unset => ?_, stored.mp both.1 empty⟩⟩, fun both => ?_⟩
          · simp [State.reserve, empty, unset] at here
          · exact ⟨stored.mpr fun empty => (both.2 empty).2, kept, trivial⟩
      · rename_i unused
        exact reserved valid fun _ => by simpa using unused
  · rename_i high
    by_cases valid : 0 ≤ key
    · exact reserved valid fun low => absurd low high
    · exact absurd (Int.lt_of_lt_of_le (Int.not_le.mp valid) (Int.natCast_nonneg _)) high

theorem note_created (table : T → Int → Nat) (u : T) (key other : Int) :
    note table (.created key : Event T D) u other = if other = key then 0 else table u other := by
  simp [note, Function.update_apply]

theorem note_deleted (table : T → Int → Nat) (u : T) (key other : Int) :
    note table (.deleted key : Event T D) u other = if other = key then 0 else table u other := by
  simp [note, Function.update_apply]

theorem note_ended (table : T → Int → Nat) (t u : T) (key : Int) :
    note table (.ended t : Event T D) u key = if u = t then 0 else table u key := by
  by_cases hu : u = t <;> simp [note, hu]

omit [DecidableEq T] in
theorem unused_some {i : Nat} (found : s.unused = some i) : i < keyMax ∧ (s.keys i).used = false := by
  refine ⟨List.mem_range.mp (List.mem_of_find?_eq_some found), ?_⟩
  simpa using List.find?_some found

theorem create_sound (sound : Sound tr s) (destructor : Option D) :
    Sound (tr ++ (pthreadKeyCreate s destructor).2) (pthreadKeyCreate s destructor).1 ↔
      Guard s (.create destructor) := by
  have old := isolated_seen.mp sound.1
  simp only [Guard, pthreadKeyCreate]
  cases found : s.unused with
  | none => simpa using sound
  | some i =>
    obtain ⟨low, unused⟩ := unused_some found
    have low : (i : Int) < keyMax := Int.ofNat_lt.mpr low
    rw [sound_snoc, isolated_seen]
    refine ⟨fun both j same t => ?_, fun clean => ⟨fun t key valid => ?_, sound.2, trivial⟩⟩
    · cases same
      have seen := both.1 t i (Int.natCast_nonneg _)
      rw [lastSet_snoc, note_created, if_pos rfl, setKey_seen, if_pos rfl, if_pos ⟨low, rfl⟩] at seen
      exact seen
    · rw [lastSet_snoc, note_created, setKey_seen, old t key valid]
      split
      · rw [if_pos ⟨low, rfl⟩]
        exact clean i rfl t
      · rfl

theorem delete_sound (sound : Sound tr s) (key : Int) :
    Sound (tr ++ (pthreadKeyDelete s key).2) (pthreadKeyDelete s key).1 ↔
      Guard s (.delete key : Action T D) := by
  have old := isolated_seen.mp sound.1
  simp only [Guard, pthreadKeyDelete]
  split
  · rename_i high
    have valid : 0 ≤ key := Int.le_trans (Int.natCast_nonneg _) high
    simpa [valid] using sound
  · split
    · rename_i negative
      rw [sound_snoc]
      exact ⟨fun both => both.2.2.elim, fun valid => absurd negative (Int.not_lt.mpr valid)⟩
    · rename_i natural
      have valid : 0 ≤ key := Int.not_lt.mp natural
      rw [sound_snoc, isolated_seen]
      refine ⟨fun _ => valid, fun _ => ⟨fun t other below => ?_, sound.2, trivial⟩⟩
      rw [lastSet_snoc, note_deleted, setKey_seen, old t other below]
      simp

theorem finish_sound (sound : Sound tr s) (t : T) : Sound (tr ++ (s.finish t).2) (s.finish t).1 := by
  have old := isolated_seen.mp sound.1
  rw [State.finish, sound_snoc, isolated_seen]
  refine ⟨fun u key valid => ?_, sound.2, trivial⟩
  rw [lastSet_snoc, note_ended, move_seen]
  by_cases hu : u = t
  · subst hu
    simp [State.seen, State.slot, contents]
  · rw [if_neg hu, ← old u key valid]
    simp [State.seen, State.slot, hu]

theorem sound_quiet (sound : Sound tr s) (same : note (lastSet tr) e = lastSet tr) (right : Right tr e) :
    Sound (tr ++ [e]) s := by
  rw [sound_snoc]
  refine ⟨fun t key valid => ?_, sound.2, right⟩
  rw [lastSet_snoc, same]
  exact sound.1 t key valid

theorem look_sound (sound : Sound tr s) (t : T) (index : Nat) :
    Sound (tr ++ (s.look t index).2) (s.look t index).1 := by
  rw [State.look]
  split
  · split
    · exact sound_nil.mpr sound
    · exact sound_nil.mpr sound
  · exact finish_sound sound t

theorem invoke_sound (sound : Sound tr s) (inv : Inv tr s) {index data : Nat}
    (calling : s.phase t = .calling index data) :
    Sound (tr ++ [.called t index (s.keys index).destructor data]) (s.move t (.exiting (index + 1))) ↔
      Guard s (.invoke t) := by
  obtain ⟨positive, low, here⟩ := inv.calling t index data calling
  have guard : Guard s (.invoke t) ↔ (s.keys index).destructor ≠ none := by
    simp [Guard, calling, Phase.callee]
  rw [guard]
  refine ⟨fun after => ((sound_snoc.mp after).2.2).1, fun present => ?_⟩
  have used : (s.keys index).used = true := by
    by_contra unused
    exact present (inv.cleared index (by simpa using unused))
  refine sound_quiet (s := s.move t (.exiting (index + 1))) sound rfl ⟨present, positive, ?_⟩
  have seen := isolated_seen.mp sound.1 t index (Int.natCast_nonneg _)
  rw [State.seen, if_pos ⟨Int.ofNat_lt.mpr low, used⟩, here] at seen
  exact seen

theorem get_sound (sound : Sound tr s) (inv : Inv tr s) (t : T) (key : Int) :
    Sound (tr ++ [(pthreadGetspecific s t key).elim .fault (.got t key)]) s ↔
      Guard s (.getspecific t key : Action T D) := by
  have guard : Guard s (.getspecific t key : Action T D) ↔ (s.tls t ≠ none → 0 ≤ key) := Iff.rfl
  rw [guard]
  by_cases valid : 0 ≤ key
  · rw [sound.1 t key valid]
    exact ⟨fun _ _ => valid, fun _ => sound_quiet sound rfl rfl⟩
  · have negative : key < 0 := Int.not_le.mp valid
    by_cases empty : s.tls t = none
    · have null : pthreadGetspecific s t key = some 0 := if_pos empty
      rw [null]
      exact ⟨fun _ set => absurd empty set, fun _ => sound_quiet sound rfl (inv.natural t key negative).symm⟩
    · have low : key < keyMax := Int.lt_of_lt_of_le negative (Int.natCast_nonneg _)
      have outside : pthreadGetspecific s t key = none := by
        simp only [pthreadGetspecific, if_neg empty, if_pos low, if_pos negative]
      rw [outside]
      exact ⟨fun after => (sound_snoc.mp after).2.2.elim, fun natural => absurd (natural empty) valid⟩

theorem step_sound (sound : Sound tr s) (inv : Inv tr s) (taken : step s a = some (s', es)) :
    Sound (tr ++ es) s' ↔ Guard s a := by
  have always {u : State T D × List (Event T D)} (taken : u = (s', es)) (after : Sound (tr ++ u.2) u.1)
      (guard : Guard s a) : Sound (tr ++ es) s' ↔ Guard s a := by
    subst taken
    exact ⟨fun _ => guard, fun _ => after⟩
  have moved (t : T) (p : Phase) : Sound (tr ++ []) (s.move t p) := by
    rw [sound_nil]
    exact sound
  cases a with
  | spawn t =>
    obtain ⟨_, taken⟩ := Option.ite_none_right_eq_some.mp taken
    exact always (Option.some.inj taken) (moved t _) trivial
  | getspecific t key =>
    obtain ⟨_, taken⟩ := Option.ite_none_right_eq_some.mp taken
    cases taken
    exact get_sound sound inv t key
  | setspecific t key value memory =>
    obtain ⟨_, taken⟩ := Option.ite_none_right_eq_some.mp taken
    have set := set_sound sound t key value memory
    rwa [Option.some.inj taken] at set
  | create destructor =>
    have create := create_sound sound destructor
    rwa [show pthreadKeyCreate s destructor = (s', es) from Option.some.inj taken] at create
  | delete key =>
    have delete := delete_sound sound key
    rwa [show pthreadKeyDelete s key = (s', es) from Option.some.inj taken] at delete
  | exit t =>
    obtain ⟨_, taken⟩ := Option.ite_none_right_eq_some.mp taken
    split at taken
    · exact always (Option.some.inj taken) (finish_sound sound t) trivial
    · exact always (Option.some.inj taken) (moved t _) trivial
  | look t =>
    simp only [step] at taken
    split at taken
    · exact always (Option.some.inj taken) (look_sound sound t _) trivial
    · contradiction
  | invoke t =>
    simp only [step] at taken
    split at taken
    · rename_i index data calling
      cases taken
      exact invoke_sound sound inv calling
    · contradiction
  | cancel t =>
    obtain ⟨_, taken⟩ := Option.ite_none_right_eq_some.mp taken
    exact always (Option.some.inj taken) (finish_sound sound t) trivial

theorem natural_foldl {table : T → Int → Nat} (old : ∀ t key, key < 0 → table t key = 0)
    (natural : ∀ t key value, .stored t key value ∈ es → 0 ≤ key) (t : T) (key : Int) (negative : key < 0) :
    es.foldl note table t key = 0 := by
  induction es generalizing table with
  | nil => exact old t key negative
  | cons e rest ih =>
    refine ih (fun u other below => ?_) fun u other value later =>
      natural u other value (List.mem_cons_of_mem _ later)
    cases e with
    | stored v k value =>
      have valid := natural v k value List.mem_cons_self
      rw [note_stored, if_neg (fun both => by omega), old u other below]
    | created k => rw [note_created, old u other below, ite_self]
    | deleted k => rw [note_deleted, old u other below, ite_self]
    | ended v => rw [note_ended, old u other below, ite_self]
    | got _ _ _ | called _ _ _ _ | fault => exact old u other below

theorem Inv.next (inv : Inv tr s) (natural : ∀ t key value, .stored t key value ∈ es → 0 ≤ key)
    (cleared : ∀ key, (s'.keys key).used = false → (s'.keys key).destructor = none)
    (calling : ∀ t index data, s'.phase t = .calling index data →
      data ≠ 0 ∧ index < keyMax ∧ s'.slot t index = data) : Inv (tr ++ es) s' := by
  refine ⟨fun t key negative => ?_, cleared, calling⟩
  rw [lastSet, List.foldl_append]
  exact natural_foldl inv.natural natural t key negative

theorem Inv.passed (inv : Inv tr s) (natural : ∀ t key value, .stored t key value ∈ es → 0 ≤ key)
    (keys : s'.keys = s.keys) (others : ∀ u, u ≠ t → s'.phase u = s.phase u ∧ s'.tls u = s.tls u)
    (here : ∀ index data, s'.phase t ≠ .calling index data) : Inv (tr ++ es) s' := by
  refine inv.next natural (keys ▸ inv.cleared) fun u index data calling => ?_
  by_cases hu : u = t
  · exact absurd (hu ▸ calling) (here index data)
  · rw [State.slot, (others u hu).2]
    exact inv.calling u index data ((others u hu).1 ▸ calling)

theorem set_inv (inv : Inv tr s) (active : (s.phase t).active = true) (value : Nat) (memory : Option (Int → Nat)) :
    Inv (tr ++ (pthreadSetspecific s t key value memory).2) (pthreadSetspecific s t key value memory).1 := by
  have here (index data : Nat) : s.phase t ≠ .calling index data := fun calling => by
    simp [calling, Phase.active] at active
  have reserved (u : T) (hu : u ≠ t) : (s.reserve t memory).tls u = s.tls u := Function.update_of_ne hu _ _
  have idle (e : List (Event T D)) (quiet : ∀ t key value, .stored t key value ∉ e) :
      Inv (tr ++ e) (s.reserve t memory) :=
    inv.passed (fun u k v stored => absurd stored (quiet u k v)) rfl (fun u hu => ⟨rfl, reserved u hu⟩) here
  rw [pthreadSetspecific]
  split
  · split
    · exact idle _ (by simp)
    · rename_i natural
      split
      · cases (s.reserve t memory).tls t with
        | none => exact idle _ (by simp)
        | some slots =>
          refine inv.passed (t := t) (fun u k v stored => ?_) rfl (fun u hu => ⟨rfl, ?_⟩) here
          · cases List.mem_singleton.mp stored
            exact Int.not_lt.mp natural
          · exact (Function.update_of_ne hu _ _).trans (reserved u hu)
      · exact idle _ (by simp)
  · exact idle _ (by simp)

theorem setKey_inv (inv : Inv tr s) (k : Key D) (cleared : k.used = false → k.destructor = none)
    (quiet : ∀ t key value, .stored t key value ∉ es) : Inv (tr ++ es) (s.setKey key k) := by
  refine inv.next (fun u k v stored => absurd stored (quiet u k v)) (fun other unused => ?_) inv.calling
  by_cases hit : other = key
  · subst hit
    simp only [State.setKey, Function.update_self] at unused ⊢
    exact cleared unused
  · simp only [State.setKey, Function.update_of_ne hit] at unused ⊢
    exact inv.cleared other unused

theorem move_inv (inv : Inv tr s) (t : T) (p : Phase) (here : ∀ index data, p ≠ .calling index data)
    (quiet : ∀ t key value, .stored t key value ∉ es) : Inv (tr ++ es) (s.move t p) := by
  refine inv.passed (t := t) (fun u k v stored => absurd stored (quiet u k v)) rfl (fun u hu => ?_)
    fun index data => ?_
  · exact ⟨by rw [move_phase, if_neg hu], rfl⟩
  · rw [move_phase, if_pos rfl]
    exact here index data

theorem finish_inv (inv : Inv tr s) (t : T) : Inv (tr ++ (s.finish t).2) (s.finish t).1 := by
  refine inv.passed (t := t) (fun u k v stored => ?_) rfl (fun u hu => ⟨?_, ?_⟩) fun index data => ?_
  · simp [State.finish] at stored
  · simp [State.finish, hu]
  · simp [State.finish, State.move, hu]
  · simp [State.finish]

theorem look_inv (inv : Inv tr s) (t : T) (index : Nat) : Inv (tr ++ (s.look t index).2) (s.look t index).1 := by
  rw [State.look]
  split
  · rename_i low
    split
    · rename_i both
      refine inv.next (by simp) inv.cleared fun u i data calling => ?_
      rw [move_phase] at calling
      split at calling
      · rename_i same
        subst same
        cases calling
        exact ⟨both.2, low, rfl⟩
      · exact inv.calling u i data calling
    · exact move_inv inv t _ (by simp) (by simp)
  · exact finish_inv inv t

theorem step_inv (inv : Inv tr s) (taken : step s a = some (s', es)) : Inv (tr ++ es) s' := by
  have moved {u : State T D × List (Event T D)} (taken : u = (s', es)) (after : Inv (tr ++ u.2) u.1) :
      Inv (tr ++ es) s' := by
    subst taken
    exact after
  cases a with
  | spawn t =>
    obtain ⟨_, taken⟩ := Option.ite_none_right_eq_some.mp taken
    exact moved (Option.some.inj taken) (move_inv inv t _ (by simp) (by simp))
  | getspecific t key =>
    obtain ⟨_, taken⟩ := Option.ite_none_right_eq_some.mp taken
    refine moved (Option.some.inj taken) (inv.next (fun u k v stored => ?_) inv.cleared inv.calling)
    have got := List.mem_singleton.mp stored
    cases found : pthreadGetspecific s t key <;> simp [found] at got
  | setspecific t key value memory =>
    obtain ⟨active, taken⟩ := Option.ite_none_right_eq_some.mp taken
    exact moved (Option.some.inj taken) (set_inv inv active value memory)
  | create destructor =>
    refine moved (Option.some.inj taken) ?_
    rw [pthreadKeyCreate]
    split
    · simpa using inv
    · exact setKey_inv inv _ (by simp) (by simp)
  | delete key =>
    refine moved (Option.some.inj taken) ?_
    rw [pthreadKeyDelete]
    split
    · simpa using inv
    · split
      · exact inv.next (by simp) inv.cleared inv.calling
      · exact setKey_inv inv _ (by simp) (by simp)
  | exit t =>
    obtain ⟨_, taken⟩ := Option.ite_none_right_eq_some.mp taken
    split at taken
    · exact moved (Option.some.inj taken) (finish_inv inv t)
    · exact moved (Option.some.inj taken) (move_inv inv t _ (by simp) (by simp))
  | look t =>
    simp only [step] at taken
    split at taken
    · exact moved (Option.some.inj taken) (look_inv inv t _)
    · contradiction
  | invoke t =>
    simp only [step] at taken
    split at taken
    · exact moved (Option.some.inj taken) (move_inv inv t _ (by simp) (by simp))
    · contradiction
  | cancel t =>
    obtain ⟨_, taken⟩ := Option.ite_none_right_eq_some.mp taken
    exact moved (Option.some.inj taken) (finish_inv inv t)

theorem run_sound (run : RunWhere (machine (T := T) (D := D)) Guard tr s) : Sound tr s ∧ Inv tr s := by
  refine run.invariant (I := fun tr s => Sound tr s ∧ Inv tr s) (fun s start => ?_)
    fun tr s a s' es _ before guard taken => ?_
  · cases start
    exact ⟨⟨fun t key _ => by simp [pthreadGetspecific, init, lastSet], .nil⟩,
      by simp [lastSet], by simp [init], by simp [init]⟩
  · exact ⟨(step_sound before.1 before.2 taken).mpr guard, step_inv before.2 taken⟩

/-- As long as the steps meet the condition every thread reads what it last set, and a destructor is
called with no other value; the first step that does not meet it is the first after which this fails. -/
theorem data_isolated {tr : List (Event T D)} {s : State T D}
    (run : RunWhere (machine (T := T) (D := D)) Guard tr s) :
    Isolated tr s ∧ Kept tr ∧ ∀ a s' es, step s a = some (s', es) →
      (Isolated (tr ++ es) s' ∧ Kept (tr ++ es) ↔ Guard s a) := by
  obtain ⟨sound, inv⟩ := run_sound run
  exact ⟨sound.1, sound.2, fun a s' es taken => step_sound sound inv taken⟩

/-- A destructor is called for the first of two keys; the second is recycled in between. -/
def exitTrace : List (Event (Fin 2) Nat) :=
  [.created 0, .created 1, .stored 0 0 5, .stored 1 1 6, .ended 1, .deleted 1, .created 1, .got 0 1 0,
    .called 0 0 (some 7) 5, .ended 0]

theorem data_isolated_exit : ∃ s : State (Fin 2) Nat, Isolated exitTrace s ∧ Kept exitTrace := by
  obtain ⟨s, run, _⟩ : ∃ s, Run (machine.restrict (fun s a => decide (Guard s a))) exitTrace s ∧ true = true :=
    Run.shows (s := init) rfl
      ([.create (some 7), .create none, .spawn 0, .spawn 1, .setspecific 0 0 5 (some fun _ => 0),
        .setspecific 1 1 6 (some fun _ => 0), .cancel 1, .delete 1, .create (some 8), .getspecific 0 1, .exit 0,
        .look 0, .invoke 0] ++ List.replicate 8 (.look 0)) _ (fun _ => true) (by decide)
  have guarded := RunWhere.ofRestrict (fun _ _ _ _ => of_decide_eq_true) run
  have sound := data_isolated guarded
  exact ⟨s, sound.1, sound.2.1⟩

/-- The memory of a new tls is read; the value of a deleted key is read through the next one; NULL is
called as a destructor. -/
theorem data_not_isolated :
    (∃ s, Run (machine (T := Fin 2) (D := Nat)) [.created 0, .created 1, .stored 0 0 5, .got 0 1 9] s) ∧
      (∃ s, Run (machine (T := Fin 2) (D := Nat))
        [.created 0, .stored 0 0 5, .deleted 0, .created 0, .got 0 0 5] s) ∧
      (∃ s, Run (machine (T := Fin 2) (D := Nat)) [.created 0, .stored 0 0 5, .called 0 0 none 5] s) ∧
      ¬Kept ([.created 0, .created 1, .stored 0 0 5, .got 0 1 9] : List (Event (Fin 2) Nat)) ∧
      ¬Kept ([.created 0, .stored 0 0 5, .deleted 0, .created 0, .got 0 0 5] : List (Event (Fin 2) Nat)) ∧
      ¬Kept ([.created 0, .stored 0 0 5, .called 0 0 none 5] : List (Event (Fin 2) Nat)) := by
  have reached (as : List (Action (Fin 2) Nat)) (tr : List (Event (Fin 2) Nat))
      (found : ((machine.exec init as).any fun r => decide (r.2 = tr) && true) = true) :
      ∃ s, Run (machine (T := Fin 2) (D := Nat)) tr s := by
    obtain ⟨s, run, _⟩ := Run.shows (M := machine) (s := init) rfl as tr (fun _ => true) found
    exact ⟨s, run⟩
  refine ⟨?_, ?_, ?_, fun kept => ?_, fun kept => ?_, fun kept => ?_⟩
  · exact reached [.create none, .create none, .spawn 0, .setspecific 0 0 5 (some fun _ => 9), .getspecific 0 1] _
      (by decide)
  · exact reached [.create none, .spawn 0, .setspecific 0 0 5 (some fun _ => 0), .delete 0, .create none,
      .getspecific 0 0] _ (by decide)
  · exact reached [.create none, .spawn 0, .setspecific 0 0 5 (some fun _ => 0), .exit 0, .look 0, .invoke 0] _
      (by decide)
  · exact not_kept [.created 0, .created 1, .stored 0 0 5] (.got 0 1 9) (by simp [Right, lastSet, note]) kept
  · exact not_kept [.created 0, .stored 0 0 5, .deleted 0, .created 0] (.got 0 0 5)
      (by simp [Right, lastSet, note]) kept
  · exact not_kept [.created 0, .stored 0 0 5] (.called 0 0 none 5) (by simp [Right]) kept

end RtThread.Pthread.Tls

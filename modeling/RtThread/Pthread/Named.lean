import RtThread.Run
import Mathlib.Data.List.Pairwise
import Mathlib.Data.List.Nodup
import Mathlib.Logic.Function.Basic

/-! The named semaphores and message queues of the pthread layer: a list of objects with a reference
count, under one lock. -/
namespace RtThread.Pthread.Named
open Transition

def rtNameMax : Nat := 8

/-- A C string without its end, shorter than RT_NAME_MAX. -/
structure Name where
  bytes : List UInt8
  whole : 0 ∉ bytes
  short : bytes.length < rtNameMax
  deriving DecidableEq

/-- strncmp finds no difference in the first RT_NAME_MAX characters. -/
def sameName (a b : Name) : Bool := (a.bytes ++ [0]).take rtNameMax = (b.bytes ++ [0]).take rtNameMax

/-- What is used of struct posix_sem and struct mqdes; `id` is the descriptor, never given twice. -/
structure Obj where
  id : Nat
  name : Name
  refcount : Nat
  unlinked : Bool
  deriving DecidableEq

/-- `held id`: how often descriptor `id` is still to be closed. -/
structure State where
  list : List Obj
  next : Nat
  held : Nat → Nat

inductive Event where
  | opened (id : Nat)
  | closed (id : Nat)
  | unlinked (id : Nat)
  | freed (id : Nat)
  deriving DecidableEq

/-- `memory`: neither rt_malloc nor rt_sem_create or rt_mq_create fails. -/
inductive Action where
  | open (name : Name) (creat excl memory : Bool)
  | close (id : Nat)
  | unlink (name : Name)

def up (refcount : Nat) : Nat := (refcount + 1) % 2 ^ 16

def down (refcount : Nat) : Nat := (refcount + (2 ^ 16 - 1)) % 2 ^ 16

def write (list : List Obj) (id : Nat) (f : Obj → Obj) : List Obj :=
  list.map (fun o => if o.id = id then f o else o)

def find (list : List Obj) (name : Name) : Option Obj := list.find? (fun o => sameName o.name name)

def delete (list : List Obj) (id : Nat) : List Obj := list.eraseP (fun o => o.id = id)

def create (s : State) (name : Name) : State × List Event :=
  (⟨⟨s.next, name, 1, false⟩ :: s.list, s.next + 1, Function.update s.held s.next 1⟩, [.opened s.next])

def openNamed (s : State) (name : Name) (creat excl memory : Bool) : State × List Event :=
  if creat then
    if excl ∧ (find s.list name).isSome then (s, [])
    else if memory then create s name
    else (s, [])
  else
    match find s.list name with
    | some o =>
      (⟨write s.list o.id (fun o => { o with refcount := up o.refcount }), s.next,
        Function.update s.held o.id (s.held o.id + 1)⟩, [.opened o.id])
    | none => (s, [])

/-- Only for a descriptor that is still to be closed. -/
def closeNamed (s : State) (id : Nat) : Option (State × List Event) :=
  match s.list.find? (fun o => o.id = id) with
  | none => none
  | some o =>
    if s.held id = 0 then none
    else
      let list := write s.list id (fun o => { o with refcount := down o.refcount })
      let held := Function.update s.held id (s.held id - 1)
      if down o.refcount = 0 ∧ o.unlinked then
        some (⟨delete list id, s.next, held⟩, [.closed id, .freed id])
      else some (⟨list, s.next, held⟩, [.closed id])

def unlinkNamed (s : State) (name : Name) : State × List Event :=
  match find s.list name with
  | some o =>
    let list := write s.list o.id (fun o => { o with unlinked := true })
    if o.refcount = 0 then ({ s with list := delete list o.id }, [.unlinked o.id, .freed o.id])
    else ({ s with list := list }, [.unlinked o.id])
  | none => (s, [])

/-- mqueue.c is semaphore.c over rt_mq_create and rt_mq_delete. -/
inductive Kind where
  | sem
  | mq

def semOpen := openNamed

def mqOpen := openNamed

def semClose := closeNamed

def mqClose := closeNamed

def semUnlink := unlinkNamed

def mqUnlink := unlinkNamed

def step (k : Kind) (s : State) : Action → Option (State × List Event)
  | .open name creat excl memory =>
    match k with
    | .sem => some (semOpen s name creat excl memory)
    | .mq => some (mqOpen s name creat excl memory)
  | .close id =>
    match k with
    | .sem => semClose s id
    | .mq => mqClose s id
  | .unlink name =>
    match k with
    | .sem => some (semUnlink s name)
    | .mq => some (mqUnlink s name)

def init : State := ⟨[], 0, fun _ => 0⟩

def machine (k : Kind) : Machine State Action Event where
  start s := s = init
  step := step k

def opens (tr : List Event) (id : Nat) : Nat := tr.count (.opened id)

def closes (tr : List Event) (id : Nat) : Nat := tr.count (.closed id)

def frees (tr : List Event) (id : Nat) : Nat := tr.count (.freed id)

/-- What has been unlinked is not opened later. -/
def Later (e f : Event) : Prop := ∀ id, e = .unlinked id → f ≠ .opened id

/-- What a registry of named objects is to be after a history. -/
structure Registered (tr : List Event) (s : State) : Prop where
  one : ∀ o ∈ s.list, ∀ p ∈ s.list, o.name = p.name → o.unlinked = false → p.unlinked = false → o = p
  refcount : ∀ o ∈ s.list, o.refcount + closes tr o.id = opens tr o.id
  later : tr.Pairwise Later
  freed : ∀ id, frees tr id = if .unlinked id ∈ tr ∧ opens tr id = closes tr id then 1 else 0
  kept : ∀ id, .opened id ∈ tr → .freed id ∉ tr → ∃ o ∈ s.list, o.id = id

/-- A name in use is found again. -/
def Found (s : State) (s' : State) (es : List Event) : Action → Prop
  | .open name _ false _ => ∀ o ∈ s.list, o.name = name → o.unlinked = false →
      es = [.opened o.id] ∧ ∃ p ∈ s'.list, p.id = o.id ∧ p.refcount = o.refcount + 1
  | _ => True

/-- Without O_EXCL nothing is created under a name in use, and without O_CREAT the first object found
is not unlinked and not open 65535 times. -/
def Guard (s : State) : Action → Prop
  | .open name true false _ => ∀ o ∈ s.list, o.name = name → o.unlinked = true
  | .open name false _ _ => ∀ o ∈ find s.list name, o.unlinked = false ∧ o.refcount < 2 ^ 16 - 1
  | _ => True

instance (s : State) : (a : Action) → Decidable (Guard s a)
  | .open _ true false _ => inferInstanceAs (Decidable (∀ o ∈ s.list, _ → _))
  | .open name false _ _ => inferInstanceAs (Decidable (∀ o ∈ find s.list name, _ ∧ _))
  | .open _ true true _ | .close _ | .unlink _ => isTrue trivial

/-- Descriptors of the list are distinct and have been given; of two objects of a name the older one is
unlinked; and the history says of each descriptor what the list does. -/
structure Inv (tr : List Event) (s : State) : Prop where
  ids : (s.list.map Obj.id).Nodup
  below : ∀ o ∈ s.list, o.id < s.next
  newest : s.list.Pairwise (fun a b => a.name = b.name → b.unlinked = true)
  refcount : ∀ o ∈ s.list, o.refcount + closes tr o.id = opens tr o.id ∧ o.refcount < 2 ^ 16
  unlinked : ∀ o ∈ s.list, o.unlinked = true ↔ .unlinked o.id ∈ tr
  alive : ∀ o ∈ s.list, o.unlinked = true → o.refcount ≠ 0
  live : ∀ o ∈ s.list, frees tr o.id = 0
  dead : ∀ id, id < s.next → (∀ o ∈ s.list, o.id ≠ id) →
    frees tr id = 1 ∧ .unlinked id ∈ tr ∧ opens tr id = closes tr id
  fresh : ∀ id, s.next ≤ id → opens tr id = 0 ∧ closes tr id = 0 ∧ .unlinked id ∉ tr ∧ frees tr id = 0
  held : ∀ id, s.held id + closes tr id = opens tr id
  later : tr.Pairwise Later

variable {tr es : List Event} {s s' : State} {a : Action} {k : Kind} {o p : Obj} {name : Name} {list : List Obj}
  {id : Nat} {f : Obj → Obj}

theorem sameName_iff (a b : Name) : sameName a b = true ↔ a = b := by
  have whole (n : Name) : (n.bytes ++ [0]).take rtNameMax = n.bytes ++ [0] :=
    List.take_of_length_le (by rw [List.length_append]; exact n.short)
  rw [sameName, decide_eq_true_eq, whole, whole, List.append_left_inj]
  exact ⟨fun same => by cases a; cases b; cases same; rfl, fun same => same ▸ rfl⟩

theorem find_some (found : find list name = some o) : o ∈ list ∧ o.name = name :=
  ⟨List.mem_of_find?_eq_some found, (sameName_iff _ _).mp (by simpa using List.find?_some found)⟩

theorem find_none (missing : find list name = none) : ∀ o ∈ list, o.name ≠ name := by
  intro o here same
  exact List.find?_eq_none.mp missing o here ((sameName_iff _ _).mpr same)

theorem find_used (newest : list.Pairwise (fun a b => a.name = b.name → b.unlinked = true)) (here : o ∈ list)
    (used : o.unlinked = false) : find list o.name = some o := by
  induction list with
  | nil => cases here
  | cons first rest ih =>
    obtain ⟨before, rest_newest⟩ := List.pairwise_cons.mp newest
    rcases List.mem_cons.mp here with rfl | later
    · simp [find, sameName_iff]
    · have other : first.name ≠ o.name := fun same => by simp [before o later same] at used
      have skipped : sameName first.name o.name = false := by
        rw [← Bool.not_eq_true, sameName_iff]
        exact other
      rw [find, List.find?_cons_of_neg (by simp [skipped])]
      exact ih rest_newest later

theorem same_of_id (ids : (list.map Obj.id).Nodup) (here : o ∈ list) (there : p ∈ list) (same : o.id = p.id) :
    o = p :=
  List.inj_on_of_nodup_map ids here there same

theorem mem_write : p ∈ write list id f ↔ ∃ o ∈ list, (if o.id = id then f o else o) = p := List.mem_map

theorem write_ids (keeps : ∀ o, (f o).id = o.id) : (write list id f).map Obj.id = list.map Obj.id := by
  rw [write, List.map_map]
  refine List.map_congr_left fun o _ => ?_
  simp only [Function.comp]
  split
  · exact keeps o
  · rfl

theorem forall_write {P : Obj → Prop} (ids : (list.map Obj.id).Nodup) (here : o ∈ list) (mine : P (f o))
    (others : ∀ p ∈ list, p.id ≠ o.id → P p) : ∀ p ∈ write list o.id f, P p := by
  intro p written
  obtain ⟨q, there, rfl⟩ := mem_write.mp written
  split
  · rename_i same
    rwa [same_of_id ids there here same]
  · rename_i other
    exact others q there other

theorem delete_ids (ids : (list.map Obj.id).Nodup) : p ∈ delete list id ↔ p ∈ list ∧ p.id ≠ id := by
  induction list with
  | nil => simp [delete]
  | cons first rest ih =>
    obtain ⟨absent, rest_ids⟩ := List.nodup_cons.mp ids
    have tail := ih rest_ids
    rw [delete] at tail ⊢
    by_cases hit : first.id = id
    · rw [List.eraseP_cons_of_pos (by simpa using hit)]
      constructor
      · intro there
        refine ⟨List.mem_cons_of_mem _ there, fun same => absent ?_⟩
        rw [hit, ← same]
        exact List.mem_map_of_mem there
      · rintro ⟨there, other⟩
        rcases List.mem_cons.mp there with rfl | there
        · exact absurd hit other
        · exact there
    · rw [List.eraseP_cons_of_neg (by simpa using hit), List.mem_cons, List.mem_cons, tail]
      constructor
      · rintro (rfl | ⟨there, other⟩)
        · exact ⟨Or.inl rfl, hit⟩
        · exact ⟨Or.inr there, other⟩
      · rintro ⟨rfl | there, other⟩
        · exact Or.inl rfl
        · exact Or.inr ⟨there, other⟩

theorem delete_write (ids : (list.map Obj.id).Nodup) (keeps : ∀ o, (f o).id = o.id) :
    delete (write list id f) id = delete list id := by
  induction list with
  | nil => rfl
  | cons first rest ih =>
    obtain ⟨absent, rest_ids⟩ := List.nodup_cons.mp ids
    rw [write, List.map_cons, delete, delete]
    by_cases hit : first.id = id
    · rw [if_pos hit, List.eraseP_cons_of_pos (by simpa [keeps] using hit),
        List.eraseP_cons_of_pos (by simpa using hit)]
      refine (List.map_congr_left fun o here => if_neg fun same => absent ?_).trans (List.map_id _)
      rw [hit, ← same]
      exact List.mem_map_of_mem here
    · rw [if_neg hit, List.eraseP_cons_of_neg (by simpa using hit), List.eraseP_cons_of_neg (by simpa using hit)]
      exact congrArg (first :: ·) (ih rest_ids)

theorem Inv.registered (inv : Inv tr s) : Registered tr s := by
  refine ⟨fun o here p there same used used' => ?_, fun o here => (inv.refcount o here).1, inv.later, fun id => ?_,
    fun id opened alive => ?_⟩
  · have first := find_used inv.newest here used
    rw [same, find_used inv.newest there used'] at first
    exact (Option.some.inj first).symm
  · by_cases given : id < s.next
    · by_cases listed : ∃ o ∈ s.list, o.id = id
      · obtain ⟨o, here, rfl⟩ := listed
        rw [inv.live o here, if_neg]
        rintro ⟨unlinked, even⟩
        have positive := inv.alive o here ((inv.unlinked o here).mpr unlinked)
        have count := (inv.refcount o here).1
        omega
      · obtain ⟨freed, unlinked, even⟩ := inv.dead id given fun o here same => listed ⟨o, here, same⟩
        rw [freed, if_pos ⟨unlinked, even⟩]
    · obtain ⟨_, _, never, none⟩ := inv.fresh id (by omega)
      rw [none, if_neg fun both => never both.1]
  · by_contra missing
    have absent : ∀ o ∈ s.list, o.id ≠ id := fun o here same => missing ⟨o, here, same⟩
    by_cases given : id < s.next
    · have freed := (inv.dead id given absent).1
      exact alive (List.count_pos_iff.mp (by rw [frees] at freed; omega))
    · have none := (inv.fresh id (by omega)).1
      exact absurd (List.count_pos_iff.mpr opened) (by rw [opens] at none; omega)

end RtThread.Pthread.Named

import Mathlib.Data.List.Basic
import Mathlib.Data.List.Chain
import Mathlib.Data.List.TakeDrop

/-! Skip lists. The rows are listed from the last one, which has every node, upwards; each
is a subsequence of the one before. A search starts at the head of the top row and goes
down a row at the node it has reached, `none` being the head of the list. -/
namespace Skip

variable {α : Type}

def advance (stop : α → Bool) : Option α → List α → Option α
  | head, [] => head
  | head, a :: rest => if stop a then head else advance stop (some a) rest

def Rows (rows : List (List α)) : Prop := rows.IsChain (fun lower upper => upper.Sublist lower)

/-- Behind a node where the search stops it would stop at every node. -/
def Ordered (stop : α → Bool) (row : List α) : Prop :=
  row.Pairwise (fun a b => stop a = true → stop b = true)

/-- `x` in front of the first node where the search stops. -/
def place (stop : α → Bool) (x : α) (row : List α) : List α :=
  row.takeWhile (fun a => !stop a) ++ x :: row.dropWhile (fun a => !stop a)

/-- Each row has only nodes of the one before, in whatever order. -/
def Nested (rows : List (List α)) : Prop := rows.IsChain (fun lower upper => upper ⊆ lower ∧ upper.Nodup)

/-- The search goes over `head` and stops behind it, or at the end of the row. -/
def Stops (stop : α → Bool) (row : List α) (head : Option α) : Prop :=
  ∃ A B, row = A ++ B ∧ head = A.getLast? ∧ ∀ b, B.head? = some b → stop b = true

variable {stop : α → Bool} {row lower upper : List α} {rows : List (List α)} {a x : α} {head : Option α}

theorem advance_eq : advance stop head row = ((row.takeWhile (fun a => !stop a)).getLast?).or head := by
  induction row generalizing head with
  | nil => simp [advance]
  | cons a rest ih =>
    unfold advance
    cases stopped : stop a with
    | true => simp [stopped]
    | false =>
      simp only [Bool.false_eq_true, if_false, ih, List.takeWhile_cons, stopped, Bool.not_false, if_true,
        List.getLast?_cons]
      cases (rest.takeWhile (fun a => !stop a)).getLast? <;> simp

theorem Ordered.takeWhile_eq (ordered : Ordered stop row) :
    row.takeWhile (fun a => !stop a) = row.filter (fun a => !stop a) := by
  induction row with
  | nil => rfl
  | cons a rest ih =>
    obtain ⟨first, later⟩ := List.pairwise_cons.mp ordered
    cases stopped : stop a with
    | true =>
      have none : rest.filter (fun a => !stop a) = [] := by
        apply List.filter_eq_nil_iff.mpr
        intro b here
        simp [first b here stopped]
      simp [stopped, none]
    | false => simp [stopped, ih later]

theorem Ordered.dropWhile_eq (ordered : Ordered stop row) :
    row.dropWhile (fun a => !stop a) = row.filter stop := by
  induction row with
  | nil => rfl
  | cons a rest ih =>
    obtain ⟨first, later⟩ := List.pairwise_cons.mp ordered
    cases stopped : stop a with
    | true =>
      have all : rest.filter stop = rest := by
        apply List.filter_eq_self.mpr
        intro b here
        exact first b here stopped
      simp [stopped, all]
    | false => simp [stopped, ih later]

theorem Ordered.sublist (ordered : Ordered stop lower) (sub : upper.Sublist lower) : Ordered stop upper :=
  List.Pairwise.sublist sub ordered

theorem place_sublist (x : α) (row : List α) : row.Sublist (place stop x row) := by
  conv => lhs; rw [← List.takeWhile_append_dropWhile (p := fun a => !stop a) (l := row)]
  exact (List.Sublist.refl _).append (List.sublist_cons_self x _)

theorem place_mono (ordered : Ordered stop lower) (sub : upper.Sublist lower) :
    (place stop x upper).Sublist (place stop x lower) := by
  unfold place
  rw [ordered.takeWhile_eq, ordered.dropWhile_eq, (ordered.sublist sub).takeWhile_eq,
    (ordered.sublist sub).dropWhile_eq]
  exact (sub.filter _).append ((sub.filter _).cons_cons x)

theorem place_perm (x : α) (row : List α) : (place stop x row).Perm (x :: row) := by
  conv => rhs; rw [← List.takeWhile_append_dropWhile (p := fun a => !stop a) (l := row)]
  exact List.perm_middle

theorem rows_place (n : Nat) (chain : Rows rows) (ordered : ∀ row ∈ rows, Ordered stop row) :
    Rows ((rows.take n).map (place stop x) ++ rows.drop n) := by
  induction rows generalizing n with
  | nil => simp [Rows]
  | cons row above ih =>
    cases n with
    | zero => exact chain
    | succ n =>
      have later := ih n chain.tail (fun r here => ordered r (List.mem_cons_of_mem row here))
      rw [List.take_succ_cons, List.drop_succ_cons, List.map_cons, List.cons_append]
      refine List.isChain_cons.mpr ⟨?_, later⟩
      intro next first
      cases above with
      | nil => simp at first
      | cons upper _ =>
        have sub := chain.rel
        cases n with
        | zero =>
          cases (Option.some.inj first : upper = next)
          exact sub.trans (place_sublist x row)
        | succ n =>
          cases (Option.some.inj first : place stop x upper = next)
          exact place_mono (ordered row List.mem_cons_self) sub

theorem pairwise_place {R : α → α → Prop} (ordered : Ordered stop row) (related : row.Pairwise R)
    (before : ∀ a ∈ row, stop a = false → R a x) (after : ∀ a ∈ row, stop a = true → R x a) :
    (place stop x row).Pairwise R := by
  have whole := List.takeWhile_append_dropWhile (p := fun a => !stop a) (l := row)
  rw [← whole] at related
  obtain ⟨left, right, across⟩ := List.pairwise_append.mp related
  have early : ∀ a ∈ row.takeWhile (fun a => !stop a), R a x := by
    intro a here
    rw [ordered.takeWhile_eq, List.mem_filter] at here
    exact before a here.1 (by simpa using here.2)
  have late : ∀ a ∈ row.dropWhile (fun a => !stop a), R x a := by
    intro a here
    rw [ordered.dropWhile_eq, List.mem_filter] at here
    exact after a here.1 here.2
  refine List.pairwise_append.mpr ⟨left, List.pairwise_cons.mpr ⟨late, right⟩, ?_⟩
  intro a here b there
  rcases List.mem_cons.mp there with rfl | there
  · exact early a here
  · exact across a here b there

/-- Every row is a subsequence of the last one. -/
theorem Rows.sublist_head (chain : Rows (lower :: rows)) : ∀ row ∈ lower :: rows, row.Sublist lower := by
  induction rows generalizing lower with
  | nil =>
    intro row here
    cases List.mem_singleton.mp here
    exact List.Sublist.refl _
  | cons next above ih =>
    intro row here
    rcases List.mem_cons.mp here with rfl | later
    · exact List.Sublist.refl _
    · exact (ih chain.tail row later).trans chain.rel

theorem Rows.nested (chain : Rows (row :: rows)) (distinct : row.Nodup) : Nested (row :: rows) := by
  induction rows generalizing row with
  | nil => exact .singleton _
  | cons next above ih =>
    have sub := chain.rel
    exact List.isChain_cons_cons.mpr ⟨⟨sub.subset, distinct.sublist sub⟩, ih chain.tail (distinct.sublist sub)⟩

theorem advance_stops (stop : α → Bool) (P rest : List α) : ∃ A B, P ++ rest = A ++ B ∧
    advance stop P.getLast? rest = A.getLast? ∧ ∀ b, B.head? = some b → stop b = true := by
  induction rest generalizing P with
  | nil => exact ⟨P, [], rfl, rfl, by simp⟩
  | cons a rest ih =>
    cases stopped : stop a with
    | true => exact ⟨P, a :: rest, rfl, by simp [advance, stopped], by simp [stopped]⟩
    | false =>
      obtain ⟨A, B, split, ends, first⟩ := ih (P ++ [a])
      refine ⟨A, B, by rw [← split, List.append_assoc]; rfl, ?_, first⟩
      rw [← ends, List.getLast?_concat]
      simp [advance, stopped]

section
variable [DecidableEq α]

/-- The nodes behind `head`, if that is a node of the row. -/
def behind (row : List α) : Option α → Option (List α)
  | none => some row
  | some a => if a ∈ row then some (row.dropWhile (fun b => b ≠ a)).tail else none

def walk (stop : α → Bool) (row : List α) (head : Option α) : Option (Option α) :=
  (behind row head).map (advance stop head)

/-- The nodes a search stops at, one for each row. -/
def descend (stop : α → Bool) : List (List α) → Option (List (Option α))
  | [] => some []
  | row :: upper => (descend stop upper).bind (fun heads =>
      (walk stop row (heads.head?.getD none)).map (fun head => head :: heads))

def insertAfter (x : α) : Option α → List α → List α
  | none, row => x :: row
  | some _, [] => []
  | some a, b :: row => if b = a then b :: x :: row else b :: insertAfter x (some a) row

/-- Insert `x` in the `n` lowest rows. -/
def insertRows (x : α) : Nat → List (List α) → List (Option α) → List (List α)
  | n + 1, row :: upper, head :: heads => insertAfter x head row :: insertRows x n upper heads
  | _, rows, _ => rows

/-- A walk from the head of the row or from a node before the place ends at the place. -/
theorem walk_eq (ordered : Ordered stop row)
    (starts : ∀ a, head = some a → a ∈ row ∧ stop a = false) :
    walk stop row head = some ((row.takeWhile (fun a => !stop a)).getLast?) := by
  unfold walk
  cases head with
  | none => simp [behind, advance_eq]
  | some a =>
    obtain ⟨here, goes⟩ := starts a rfl
    obtain ⟨A, B, rfl, away⟩ := List.eq_append_cons_of_mem here
    have before : ∀ b ∈ A, (fun b => decide (b ≠ a)) b = true := by
      intro b inside
      simp only [decide_eq_true_eq]
      rintro rfl
      exact away inside
    have free : ∀ b ∈ A, (fun b => !stop b) b = true := by
      intro b inside
      have order := (List.pairwise_append.mp ordered).2.2 b inside a List.mem_cons_self
      cases stopped : stop b with
      | false => simp [stopped]
      | true => simp [order stopped] at goes
    have rest : ((A ++ a :: B).dropWhile (fun b => decide (b ≠ a))).tail = B := by
      rw [List.dropWhile_append_of_pos before]
      simp
    rw [behind, if_pos here, rest, Option.map_some, advance_eq, List.takeWhile_append_of_pos free]
    simp only [List.takeWhile_cons, goes, Bool.not_false, if_true, List.getLast?_append, List.getLast?_cons]
    cases (B.takeWhile (fun b => !stop b)).getLast? <;> simp

theorem descend_eq (chain : Rows rows) (ordered : ∀ row ∈ rows, Ordered stop row) :
    descend stop rows = some (rows.map (fun row => (row.takeWhile (fun a => !stop a)).getLast?)) := by
  induction rows with
  | nil => rfl
  | cons row above ih =>
    have upper := ih chain.tail (fun r here => ordered r (List.mem_cons_of_mem row here))
    rw [descend, upper, Option.bind_some, walk_eq (ordered row List.mem_cons_self)]
    · simp
    · intro a starts
      cases above with
      | nil => simp at starts
      | cons next _ =>
        have sub := chain.rel
        have found : a ∈ next.takeWhile (fun a => !stop a) :=
          List.mem_of_getLast? (by simpa using starts)
        have goes := List.all_eq_true.mp List.all_takeWhile a found
        exact ⟨sub.subset ((List.takeWhile_sublist _).subset found), by simpa using goes⟩

theorem insertAfter_append {A B : List α} (away : a ∉ A) :
    insertAfter x (some a) (A ++ a :: B) = A ++ a :: x :: B := by
  induction A with
  | nil => simp [insertAfter]
  | cons b rest ih =>
    have other : b ≠ a := fun same => away (same ▸ List.mem_cons_self)
    simp only [List.cons_append, insertAfter, other, if_false, ih (fun later => away (List.mem_cons_of_mem b later))]

theorem insertAfter_getLast {A B : List α} (distinct : (A ++ B).Nodup) :
    insertAfter x A.getLast? (A ++ B) = A ++ x :: B := by
  rcases List.eq_nil_or_concat A with rfl | ⟨A, a, rfl⟩
  · simp [insertAfter]
  · rw [List.concat_eq_append] at distinct ⊢
    rw [List.append_assoc, List.singleton_append] at distinct
    have away : a ∉ A := by
      intro here
      exact (List.nodup_append.mp distinct).2.2 a here a List.mem_cons_self rfl
    simp [insertAfter_append away]

theorem insertAfter_eq (distinct : row.Nodup) :
    insertAfter x ((row.takeWhile (fun a => !stop a)).getLast?) row = place stop x row := by
  have whole := List.takeWhile_append_dropWhile (p := fun a => !stop a) (l := row)
  unfold place
  rw [← insertAfter_getLast (by rw [whole]; exact distinct), whole]

/-- Which rows an insertion changes, and how. -/
theorem insertRows_eq (n : Nat) (distinct : ∀ row ∈ rows, row.Nodup) :
    insertRows x n rows (rows.map (fun row => (row.takeWhile (fun a => !stop a)).getLast?)) =
      (rows.take n).map (place stop x) ++ rows.drop n := by
  induction rows generalizing n with
  | nil => cases n <;> rfl
  | cons row above ih =>
    cases n with
    | zero => rfl
    | succ n =>
      simp only [List.map_cons, insertRows, insertAfter_eq (distinct row List.mem_cons_self),
        ih n (fun r here => distinct r (List.mem_cons_of_mem row here)), List.take_succ_cons, List.drop_succ_cons,
        List.cons_append]

theorem rows_erase (chain : Rows rows) (x : α) : Rows (rows.map (fun row => row.erase x)) := by
  refine List.isChain_map_of_isChain _ ?_ chain
  intro lower upper sub
  exact sub.erase x

theorem nested_erase (chain : Nested rows) (x : α) : Nested (rows.map (fun row => row.erase x)) := by
  refine List.isChain_map_of_isChain _ ?_ chain
  rintro lower upper ⟨sub, distinct⟩
  refine ⟨?_, distinct.erase x⟩
  intro a here
  obtain ⟨other, inside⟩ := distinct.mem_erase_iff.mp here
  exact (List.mem_erase_of_ne other).mpr (sub inside)

theorem walk_stops (stop : α → Bool) (starts : ∀ a, head = some a → a ∈ row) :
    ∃ head', walk stop row head = some head' ∧ Stops stop row head' := by
  cases head with
  | none =>
    obtain ⟨A, B, split, ends, first⟩ := advance_stops stop [] row
    exact ⟨_, rfl, A, B, split, ends, first⟩
  | some a =>
    have here := starts a rfl
    obtain ⟨P, rest, rfl, away⟩ := List.eq_append_cons_of_mem here
    have before : ∀ b ∈ P, (fun b => decide (b ≠ a)) b = true := by
      intro b inside
      simp only [decide_eq_true_eq]
      rintro rfl
      exact away inside
    have behind_eq : behind (P ++ a :: rest) (some a) = some rest := by
      rw [behind, if_pos here, List.dropWhile_append_of_pos before]
      simp
    obtain ⟨A, B, split, ends, first⟩ := advance_stops stop (P ++ [a]) rest
    rw [List.getLast?_concat] at ends
    refine ⟨_, by rw [walk, behind_eq, Option.map_some], A, B, ?_, ends, first⟩
    rw [← split, List.append_assoc]
    rfl

theorem descend_stops (stop : α → Bool) (chain : Nested rows) :
    ∃ heads, descend stop rows = some heads ∧ List.Forall₂ (Stops stop) rows heads := by
  induction rows with
  | nil => exact ⟨[], rfl, .nil⟩
  | cons row above ih =>
    obtain ⟨heads, found, stops⟩ := ih chain.tail
    have starts : ∀ a, heads.head?.getD none = some a → a ∈ row := by
      intro a first
      cases stops with
      | nil => simp at first
      | cons next _ =>
        obtain ⟨A, B, split, ends, _⟩ := next
        simp only [List.head?_cons, Option.getD_some] at first
        have inside : a ∈ A := List.mem_of_getLast? (ends ▸ first)
        exact chain.rel.1 (by rw [split]; exact List.mem_append_left B inside)
    obtain ⟨head, walked, stopped⟩ := walk_stops stop starts
    exact ⟨head :: heads, by rw [descend, found, Option.bind_some, walked, Option.map_some], .cons stopped stops⟩

theorem Stops.insertAfter_eq (stops : Stops stop row head) (distinct : row.Nodup) :
    ∃ A B, row = A ++ B ∧ insertAfter x head row = A ++ x :: B ∧ ∀ b, B.head? = some b → stop b = true := by
  obtain ⟨A, B, rfl, rfl, first⟩ := stops
  exact ⟨A, B, rfl, insertAfter_getLast distinct, first⟩

theorem Stops.insertAfter_perm (stops : Stops stop row head) (distinct : row.Nodup) :
    (insertAfter x head row).Perm (x :: row) := by
  obtain ⟨A, B, rfl, inserted, _⟩ := stops.insertAfter_eq (x := x) distinct
  rw [inserted]
  exact List.perm_middle

theorem insertRows_nested {heads : List (Option α)} (n : Nat) (chain : Nested (row :: rows)) (distinct : row.Nodup)
    (away : x ∉ row) (stops : List.Forall₂ (Stops stop) (row :: rows) heads) :
    Nested (insertRows x n (row :: rows) heads) := by
  induction rows generalizing row heads n with
  | nil =>
    cases stops with
    | cons first rest =>
      cases rest
      cases n with
      | zero => exact chain
      | succ n =>
        have last : insertRows x n [] ([] : List (Option α)) = [] := by
          cases n <;> rfl
        rw [insertRows, last]
        exact .singleton _
  | cons next above ih =>
    obtain ⟨sub, distinct'⟩ := chain.rel
    cases stops with
    | cons first rest =>
      cases n with
      | zero => exact chain
      | succ n =>
        have later := ih n chain.tail distinct' (fun here => away (sub here)) rest
        have perm := first.insertAfter_perm (x := x) distinct
        cases rest with
        | cons second rest =>
          cases n with
          | zero =>
            refine List.isChain_cons_cons.mpr ⟨⟨?_, distinct'⟩, later⟩
            intro a here
            exact perm.mem_iff.mpr (List.mem_cons_of_mem x (sub here))
          | succ n =>
            have perm' := second.insertAfter_perm (x := x) distinct'
            refine List.isChain_cons_cons.mpr ⟨⟨?_, ?_⟩, later⟩
            · intro a here
              rcases List.mem_cons.mp (perm'.mem_iff.mp here) with rfl | old
              · exact perm.mem_iff.mpr List.mem_cons_self
              · exact perm.mem_iff.mpr (List.mem_cons_of_mem x (sub old))
            · exact perm'.nodup_iff.mpr (List.nodup_cons.mpr ⟨fun here => away (sub here), distinct'⟩)

end

end Skip

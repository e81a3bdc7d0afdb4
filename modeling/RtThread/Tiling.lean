import Mathlib.Algebra.Order.Ring.Int
import Mathlib.Data.List.Chain
import Mathlib.Data.List.Basic

/-! An interval cut into consecutive cells, each in use or free, and headers in memory
that describe them. Splitting a cell, joining two and changing a flag all replace some
cells in the middle by others of the same total size. -/
namespace Tiling

structure Cell where
  size : Nat
  used : Bool
  deriving DecidableEq

def total : List Cell → Nat
  | [] => 0
  | c :: rest => c.size + total rest

def usedTotal : List Cell → Nat
  | [] => 0
  | c :: rest => (if c.used then c.size else 0) + usedTotal rest

/-- Where the first free cell starts, or the end. -/
def firstFree : List Cell → Nat
  | [] => 0
  | c :: rest => if c.used then c.size + firstFree rest else 0

/-- Of two neighbours, one is in use. -/
def NoTwoFree (cells : List Cell) : Prop :=
  cells.IsChain (fun a b => a.used = true ∨ b.used = true)

/-- The cell `d` starts `x` behind the start. -/
def At : List Cell → Nat → Cell → Prop
  | [], _, _ => False
  | c :: rest, x, d => (x = 0 ∧ d = c) ∨ ∃ y, x = c.size + y ∧ At rest y d

/-- Cells in use stay where they are. -/
def Keeps (cells cells' : List Cell) : Prop :=
  ∀ x d, At cells x d → d.used = true → At cells' x d

/-- Start of the last cell, `prev` if there is none. -/
def lastStart : Nat → Nat → List Cell → Nat
  | prev, _, [] => prev
  | _, p, c :: rest => lastStart p (p + c.size) rest

/-- From `p` on, with `prev` the start of the cell before, `ok prev p c` holds of each
cell `c`: the header at `p` describes it. -/
def Laid (ok : Nat → Nat → Cell → Prop) : Nat → Nat → List Cell → Prop
  | _, _, [] => True
  | prev, p, c :: rest => ok prev p c ∧ Laid ok p (p + c.size) rest

/-- Where the free cells start, the first one lying at `p`. -/
def freeStarts : Nat → List Cell → List Nat
  | _, [] => []
  | p, c :: rest => (if c.used then [] else [p]) ++ freeStarts (p + c.size) rest

/-- Where the first free cell of `k` or more starts. -/
def firstFit (k : Nat) : List Cell → Option Nat
  | [] => none
  | c :: rest => if c.used = false ∧ k ≤ c.size then some 0 else (firstFit k rest).map (fun x => c.size + x)

/-- A free cell of `k` or more. -/
def FreeAt (cells : List Cell) (k x : Nat) : Prop := ∃ c, At cells x c ∧ c.used = false ∧ k ≤ c.size

/-- No cell has `y` inside of it. -/
def Border (cells : List Cell) (y : Nat) : Prop := ∀ x c, At cells x c → y ≤ x ∨ x + c.size ≤ y

/-- What the free cells hold, `k` of each being lost. -/
def freeRoom (k : Nat) : List Cell → Nat
  | [] => 0
  | c :: rest => (if c.used then 0 else c.size - k) + freeRoom k rest

/-- The cells with their places, the first one at `p`. -/
def placed : Nat → List Cell → List (Nat × Cell)
  | _, [] => []
  | p, c :: rest => (p, c) :: placed (p + c.size) rest

/-- The cells in use, or the free ones, with their places. -/
def blocks (used : Bool) (p : Nat) (cells : List Cell) : List (Nat × Cell) :=
  (placed p cells).filter (fun b => b.2.used == used)

variable {L M M' R cells : List Cell} {c d : Cell} {x y p prev : Nat} {ok ok' : Nat → Nat → Cell → Prop}

@[simp] theorem total_append : total (L ++ R) = total L + total R := by
  induction L with
  | nil => simp [total]
  | cons c rest ih =>
    simp only [List.cons_append, total, ih]
    lia

@[simp] theorem usedTotal_append : usedTotal (L ++ R) = usedTotal L + usedTotal R := by
  induction L with
  | nil => simp [usedTotal]
  | cons c rest ih =>
    simp only [List.cons_append, usedTotal, ih]
    lia

theorem usedTotal_le (cells : List Cell) : usedTotal cells ≤ total cells := by
  induction cells with
  | nil => simp [usedTotal, total]
  | cons c rest ih =>
    simp only [usedTotal, total]
    split <;> lia

theorem firstFree_le (cells : List Cell) : firstFree cells ≤ total cells := by
  induction cells with
  | nil => simp [firstFree, total]
  | cons c rest ih =>
    simp only [firstFree, total]
    split <;> lia

theorem firstFree_append : firstFree (L ++ R) =
    if L.all (·.used) then total L + firstFree R else firstFree L := by
  induction L with
  | nil => simp [total]
  | cons c rest ih =>
    simp only [List.cons_append, firstFree, List.all_cons, ih, total]
    by_cases used : c.used = true
    · simp only [used, if_true, Bool.true_and]
      split
      · lia
      · rfl
    · simp [used]

theorem firstFree_lt (free : L.all (·.used) = false) (positive : ∀ c ∈ L, 0 < c.size) :
    firstFree L < total L := by
  induction L with
  | nil => simp at free
  | cons c rest ih =>
    have here := positive c List.mem_cons_self
    simp only [firstFree, total]
    cases used : c.used with
    | false =>
      simp only [Bool.false_eq_true, if_false]
      lia
    | true =>
      simp only [List.all_cons, used, Bool.true_and] at free
      have later := ih free (fun d h => positive d (List.mem_cons_of_mem c h))
      simp only [if_true]
      lia

theorem firstFree_freed (used : c.used = true) (size : 0 < c.size) (positive : ∀ d ∈ L, 0 < d.size) :
    firstFree (L ++ [⟨c.size, false⟩] ++ R) =
      if total L < firstFree (L ++ [c] ++ R) then total L else firstFree (L ++ [c] ++ R) := by
  rw [List.append_assoc, List.append_assoc, firstFree_append (L := L), firstFree_append (L := L)]
  cases all : L.all (·.used) with
  | true =>
    simp only [firstFree, List.singleton_append, used, if_true, Bool.false_eq_true, if_false]
    split <;> lia
  | false =>
    have before := firstFree_lt all positive
    simp only [Bool.false_eq_true, if_false]
    rw [if_neg (by lia)]

theorem firstFree_merge (first : c.used = false) :
    firstFree (L ++ [⟨c.size + d.size, false⟩] ++ R) = firstFree (L ++ [c, d] ++ R) := by
  rw [List.append_assoc, List.append_assoc, firstFree_append (L := L), firstFree_append (L := L)]
  simp [firstFree, first]

theorem firstFree_cut {a b : Nat} (used : c.used = true) (parts : a + b = c.size) :
    firstFree (L ++ [⟨a, true⟩] ++ [⟨b, true⟩] ++ R) = firstFree (L ++ [c] ++ R) := by
  rw [List.append_assoc, List.append_assoc, List.append_assoc, firstFree_append (L := L),
    firstFree_append (L := L)]
  simp only [List.singleton_append, firstFree, used, if_true, ← parts, Nat.add_assoc]

theorem firstFree_le_free (free : c.used = false) (L R : List Cell) : firstFree (L ++ [c] ++ R) ≤ total L := by
  rw [List.append_assoc, firstFree_append]
  split
  · simp [firstFree, free]
  · exact firstFree_le L

theorem length_le_total (positive : ∀ c ∈ cells, 0 < c.size) : cells.length ≤ total cells := by
  induction cells with
  | nil => simp [total]
  | cons c rest ih =>
    have here := positive c List.mem_cons_self
    have later := ih (fun d h => positive d (List.mem_cons_of_mem c h))
    simp only [List.length_cons, total]
    lia

theorem total_mod {k : Nat} (aligned : ∀ c ∈ cells, c.size % k = 0) : total cells % k = 0 := by
  induction cells with
  | nil => simp [total]
  | cons c rest ih =>
    have here := aligned c List.mem_cons_self
    have later := ih (fun d h => aligned d (List.mem_cons_of_mem c h))
    simp only [total, Nat.add_mod, here, later, Nat.zero_mod, Nat.add_zero]

theorem noTwoFree_middle : NoTwoFree (L ++ [c] ++ R) ↔ NoTwoFree L ∧ NoTwoFree R ∧
    (∀ a ∈ L.getLast?, a.used = true ∨ c.used = true) ∧ ∀ b ∈ R.head?, c.used = true ∨ b.used = true := by
  simp only [NoTwoFree, List.append_assoc, List.isChain_append, List.singleton_append, List.isChain_cons,
    List.head?_cons, Option.mem_some_iff, forall_eq']
  tauto

theorem NoTwoFree.snoc (left : NoTwoFree L) (used : c.used = true) : NoTwoFree (L ++ [c]) := by
  have chain := noTwoFree_middle (L := L) (c := c) (R := [])
  rw [List.append_nil] at chain
  exact chain.mpr ⟨left, by simp [NoTwoFree], by simp [used], by simp⟩

theorem NoTwoFree.between (left : NoTwoFree L) (right : NoTwoFree R)
    (before : ∀ a ∈ L.getLast?, a.used = true) (behind : ∀ b ∈ R.head?, b.used = true) :
    NoTwoFree (L ++ [c] ++ R) :=
  noTwoFree_middle.mpr ⟨left, right, fun a last => Or.inl (before a last), fun b first => Or.inr (behind b first)⟩

theorem NoTwoFree.init (all : NoTwoFree (L ++ [c])) (free : c.used = false) :
    NoTwoFree L ∧ ∀ a ∈ L.getLast?, a.used = true := by
  have chain := noTwoFree_middle (L := L) (c := c) (R := [])
  rw [List.append_nil] at chain
  obtain ⟨left, _, before, _⟩ := chain.mp all
  exact ⟨left, fun a last => by simpa [free] using before a last⟩

theorem NoTwoFree.tail (all : NoTwoFree (c :: R)) (free : c.used = false) :
    NoTwoFree R ∧ ∀ b ∈ R.head?, b.used = true := by
  obtain ⟨_, right, _, behind⟩ := (noTwoFree_middle (L := []) (c := c) (R := R)).mp all
  exact ⟨right, fun b first => by simpa [free] using behind b first⟩

theorem NoTwoFree.cut {a b : Nat} (left : NoTwoFree L) (right : NoTwoFree R)
    (behind : ∀ d ∈ R.head?, d.used = true) : NoTwoFree (L ++ [⟨a, true⟩, ⟨b, false⟩] ++ R) := by
  have cut : NoTwoFree ((L ++ [⟨a, true⟩]) ++ [⟨b, false⟩] ++ R) :=
    noTwoFree_middle.mpr ⟨left.snoc rfl, right, by simp, fun d here => Or.inr (behind d here)⟩
  simpa using cut

theorem NoTwoFree.claim {a : Nat} (old : NoTwoFree (L ++ [c] ++ R)) (free : c.used = false) :
    NoTwoFree (L ++ [⟨a, true⟩] ++ R) ∧ ∀ b, NoTwoFree (L ++ [⟨a, true⟩, ⟨b, false⟩] ++ R) := by
  obtain ⟨left, right, _, after⟩ := noTwoFree_middle.mp old
  simp only [free, Bool.false_eq_true, false_or] at after
  exact ⟨noTwoFree_middle.mpr ⟨left, right, by simp, by simp⟩, fun b => left.cut right after⟩

theorem at_append : At (L ++ R) x d ↔ At L x d ∨ ∃ y, x = total L + y ∧ At R y d := by
  induction L generalizing x with
  | nil => simp [At, total]
  | cons c rest ih =>
    simp only [List.cons_append, At, ih, total]
    constructor
    · rintro (here | ⟨y, rfl, left | ⟨z, rfl, right⟩⟩)
      · exact Or.inl (Or.inl here)
      · exact Or.inl (Or.inr ⟨y, rfl, left⟩)
      · exact Or.inr ⟨z, by lia, right⟩
    · rintro ((here | ⟨y, rfl, left⟩) | ⟨z, rfl, right⟩)
      · exact Or.inl here
      · exact Or.inr ⟨y, rfl, Or.inl left⟩
      · exact Or.inr ⟨total rest + z, by lia, Or.inr ⟨z, rfl, right⟩⟩

theorem At.split (found : At cells x d) : ∃ L R, cells = L ++ d :: R ∧ x = total L := by
  induction cells generalizing x with
  | nil => exact absurd found (by simp [At])
  | cons c rest ih =>
    rcases found with ⟨rfl, rfl⟩ | ⟨y, rfl, later⟩
    · exact ⟨[], rest, rfl, rfl⟩
    · obtain ⟨L, R, rfl, rfl⟩ := ih later
      exact ⟨c :: L, R, rfl, rfl⟩

theorem at_middle : At (L ++ c :: R) (total L) c :=
  at_append.mpr (Or.inr ⟨0, rfl, Or.inl ⟨rfl, rfl⟩⟩)

theorem At.le (found : At cells x d) : x + d.size ≤ total cells := by
  obtain ⟨L, R, rfl, rfl⟩ := found.split
  simp only [total_append, total]
  lia

theorem At.apart (first : At cells x c) (second : At cells y d) :
    (x = y ∧ c = d) ∨ x + c.size ≤ y ∨ y + d.size ≤ x := by
  induction cells generalizing x y with
  | nil => exact absurd first (by simp [At])
  | cons e rest ih =>
    rcases first with ⟨rfl, rfl⟩ | ⟨x, rfl, first⟩ <;> rcases second with ⟨rfl, rfl⟩ | ⟨y, rfl, second⟩
    · exact Or.inl ⟨rfl, rfl⟩
    · exact Or.inr (Or.inl (by lia))
    · exact Or.inr (Or.inr (by lia))
    · rcases ih first second with ⟨rfl, same⟩ | before | after
      · exact Or.inl ⟨rfl, same⟩
      · exact Or.inr (Or.inl (by lia))
      · exact Or.inr (Or.inr (by lia))

theorem border_start (found : At cells x c) : Border cells x := by
  intro y d other
  rcases found.apart other with ⟨rfl, _⟩ | before | after <;> lia

theorem border_end (found : At cells x c) : Border cells (x + c.size) := by
  intro y d other
  rcases found.apart other with ⟨rfl, rfl⟩ | before | after <;> lia

theorem At.replace (same : total M' = total M) (found : At (L ++ M ++ R) x d) :
    (∃ y, x = total L + y ∧ At M y d) ∨ At (L ++ M' ++ R) x d := by
  simp only [List.append_assoc, at_append] at found ⊢
  rcases found with left | ⟨y, rfl, middle | ⟨z, rfl, right⟩⟩
  · exact Or.inr (Or.inl left)
  · exact Or.inl ⟨y, rfl, middle⟩
  · exact Or.inr (Or.inr ⟨total M + z, rfl, Or.inr ⟨z, by rw [same], right⟩⟩)

theorem At.other (same : total M' = c.size) (found : At (L ++ [c] ++ R) x d) (other : x ≠ total L) :
    At (L ++ M' ++ R) x d := by
  have size : total M' = total [c] := by simp [same, total]
  rcases found.replace size with ⟨y, rfl, ⟨rfl, _⟩ | ⟨_, _, none⟩⟩ | outside
  · exact absurd rfl other
  · exact absurd none (by simp [At])
  · exact outside

theorem Keeps.trans {cells' cells'' : List Cell} (first : Keeps cells cells') (second : Keeps cells' cells'') :
    Keeps cells cells'' :=
  fun x d found used => second x d (first x d found used) used

theorem Keeps.replace (same : total M' = total M) (free : ∀ d ∈ M, d.used = false) :
    Keeps (L ++ M ++ R) (L ++ M' ++ R) := by
  intro x d found used
  rcases found.replace same with ⟨y, rfl, middle⟩ | outside
  · obtain ⟨A, B, rfl, _⟩ := middle.split
    exact absurd (free d (by simp)) (by simp [used])
  · exact outside

theorem laid_append : Laid ok prev p (L ++ R) ↔
    Laid ok prev p L ∧ Laid ok (lastStart prev p L) (p + total L) R := by
  induction L generalizing prev p with
  | nil => simp [Laid, lastStart, total]
  | cons c rest ih =>
    simp only [List.cons_append, Laid, ih, lastStart, total, and_assoc, Nat.add_assoc]

theorem lastStart_snoc : lastStart prev p (L ++ [c]) = p + total L := by
  induction L generalizing prev p with
  | nil => simp [lastStart, total]
  | cons d rest ih =>
    simp only [List.cons_append, lastStart, ih, total]
    lia

theorem Laid.found (laid : Laid ok prev p cells) (found : At cells x d) :
    ∃ a, ok a (p + x) d := by
  induction cells generalizing prev p x with
  | nil => exact absurd found (by simp [At])
  | cons c rest ih =>
    rcases found with ⟨rfl, rfl⟩ | ⟨y, rfl, later⟩
    · exact ⟨prev, laid.1⟩
    · obtain ⟨a, holds⟩ := ih laid.2 later
      exact ⟨a, by rwa [Nat.add_assoc] at holds⟩

theorem Laid.forall_mem {P : Cell → Prop} (holds : ∀ a y c, ok a y c → P c) (laid : Laid ok prev p cells) :
    ∀ c ∈ cells, P c := by
  induction cells generalizing prev p with
  | nil => simp
  | cons d rest ih =>
    intro c here
    rcases List.mem_cons.mp here with rfl | later
    · exact holds _ _ _ laid.1
    · exact ih laid.2 c later

theorem freeStarts_length : (freeStarts p cells).length ≤ cells.length := by
  induction cells generalizing p with
  | nil => simp [freeStarts]
  | cons c rest ih =>
    have later := ih (p := p + c.size)
    simp only [freeStarts, List.length_append, List.length_cons]
    split <;> simp only [List.length_nil, List.length_cons] <;> lia

theorem freeStarts_append : freeStarts p (L ++ R) = freeStarts p L ++ freeStarts (p + total L) R := by
  induction L generalizing p with
  | nil => simp [freeStarts, total]
  | cons c rest ih => simp [freeStarts, total, ih, Nat.add_assoc]

theorem mem_freeStarts :
    x ∈ freeStarts p cells ↔ ∃ y c, At cells y c ∧ c.used = false ∧ x = p + y := by
  induction cells generalizing p with
  | nil => simp [freeStarts, At]
  | cons d rest ih =>
    simp only [freeStarts, List.mem_append, ih]
    constructor
    · rintro (here | ⟨y, c, found, free, rfl⟩)
      · cases used : d.used with
        | true => simp [used] at here
        | false => exact ⟨0, d, Or.inl ⟨rfl, rfl⟩, used, by simpa [used] using here⟩
      · exact ⟨d.size + y, c, Or.inr ⟨y, rfl, found⟩, free, by lia⟩
    · rintro ⟨y, c, ⟨rfl, rfl⟩ | ⟨z, rfl, found⟩, free, rfl⟩
      · left
        simp [free]
      · exact Or.inr ⟨z, c, found, free, by lia⟩

@[simp] theorem freeRoom_append {k : Nat} : freeRoom k (L ++ R) = freeRoom k L + freeRoom k R := by
  induction L with
  | nil => simp [freeRoom]
  | cons c rest ih =>
    simp only [List.cons_append, freeRoom, ih]
    lia

theorem freeRoom_eq_sum {k : Nat} {f : Nat → Nat}
    (room : ∀ y c, At cells y c → c.used = false → f (p + y) = c.size - k) :
    ((freeStarts p cells).map f).sum = freeRoom k cells := by
  induction cells generalizing p with
  | nil => rfl
  | cons c rest ih =>
    have later := ih (p := p + c.size) (by
      intro y d found free
      rw [Nat.add_assoc]
      exact room _ d (Or.inr ⟨y, rfl, found⟩) free)
    simp only [freeStarts, freeRoom, List.map_append, List.sum_append, later]
    cases used : c.used with
    | true => simp
    | false => simp [← room 0 c (Or.inl ⟨rfl, rfl⟩) used]

theorem freeRoom_le {k : Nat} : freeRoom k cells ≤ total cells := by
  induction cells with
  | nil => simp [freeRoom, total]
  | cons c rest ih =>
    simp only [freeRoom, total]
    split <;> lia

theorem firstFit_some {k : Nat} (found : firstFit k cells = some x) :
    FreeAt cells k x ∧ ∀ y, FreeAt cells k y → x ≤ y := by
  induction cells generalizing x with
  | nil => cases found
  | cons c rest ih =>
    rw [firstFit] at found
    split at found
    · rename_i fits
      cases Option.some.inj found
      exact ⟨⟨c, Or.inl ⟨rfl, rfl⟩, fits⟩, fun y _ => Nat.zero_le y⟩
    · rename_i misses
      obtain ⟨y, later, rfl⟩ := Option.map_eq_some_iff.mp found
      obtain ⟨⟨d, here, fits⟩, least⟩ := ih later
      refine ⟨⟨d, Or.inr ⟨y, rfl, here⟩, fits⟩, ?_⟩
      rintro z ⟨e, ⟨rfl, rfl⟩ | ⟨w, rfl, there⟩, fits'⟩
      · exact absurd fits' misses
      · exact Nat.add_le_add_left (least w ⟨e, there, fits'⟩) _

theorem firstFit_none {k : Nat} (missed : firstFit k cells = none) : ¬ FreeAt cells k x := by
  induction cells generalizing x with
  | nil =>
    rintro ⟨c, here, _⟩
    exact here
  | cons c rest ih =>
    rw [firstFit] at missed
    split at missed
    · cases missed
    · rename_i misses
      rintro ⟨d, ⟨rfl, rfl⟩ | ⟨y, rfl, later⟩, fits⟩
      · exact misses fits
      · exact ih (Option.map_eq_none_iff.mp missed) ⟨d, later, fits⟩

theorem firstFit_firstFree (k : Nat) (cells : List Cell) : ∃ A B, cells = A ++ B ∧ total A = firstFree cells ∧
    firstFit k cells = (firstFit k B).map (fun x => total A + x) := by
  induction cells with
  | nil => exact ⟨[], [], rfl, rfl, rfl⟩
  | cons c rest ih =>
    cases used : c.used with
    | false => exact ⟨[], c :: rest, rfl, by simp [firstFree, used, total], by simp [total]⟩
    | true =>
      obtain ⟨A, B, rfl, start, same⟩ := ih
      refine ⟨c :: A, B, rfl, by simp [firstFree, used, total, start], ?_⟩
      rw [firstFit, if_neg (by simp [used]), same, Option.map_map]
      congr 1
      funext x
      simp [total, Nat.add_assoc]

@[simp] theorem placed_append : placed p (L ++ R) = placed p L ++ placed (p + total L) R := by
  induction L generalizing p with
  | nil => simp [placed, total]
  | cons c rest ih => simp [placed, total, ih, Nat.add_assoc]

@[simp] theorem placed_nil : placed p [] = [] := rfl
@[simp] theorem placed_cons : placed p (c :: R) = (p, c) :: placed (p + c.size) R := rfl

theorem placed_inside {b : Nat × Cell} (member : b ∈ placed p cells) :
    p ≤ b.1 ∧ b.1 + b.2.size ≤ p + total cells := by
  induction cells generalizing p with
  | nil => cases member
  | cons c rest ih =>
    rcases List.mem_cons.mp member with rfl | later
    · simp only [total]
      lia
    · have inside := ih later
      simp only [total]
      lia

theorem placed_pairwise : (placed p cells).Pairwise (fun a b => a.1 + a.2.size ≤ b.1) := by
  induction cells generalizing p with
  | nil => exact .nil
  | cons c rest ih =>
    refine List.pairwise_cons.mpr ⟨fun b member => ?_, ih⟩
    exact (placed_inside member).1

theorem placed_apart {a b : Nat × Cell} (first : a ∈ placed p cells) (second : b ∈ placed p cells) :
    a = b ∨ a.1 + a.2.size ≤ b.1 ∨ b.1 + b.2.size ≤ a.1 := by
  induction cells generalizing p with
  | nil => cases first
  | cons c rest ih =>
    rcases List.mem_cons.mp first with rfl | first <;> rcases List.mem_cons.mp second with rfl | second
    · exact Or.inl rfl
    · exact Or.inr (Or.inl (placed_inside second).1)
    · exact Or.inr (Or.inr (placed_inside first).1)
    · exact ih first second

theorem placed_mod {k : Nat} (sizes : ∀ b ∈ placed p cells, b.2.size % k = 0) (start : p % k = 0) :
    ∀ b ∈ placed p cells, b.1 % k = 0 := by
  induction cells generalizing p with
  | nil => simp [placed]
  | cons c rest ih =>
    have here := sizes (p, c) (by simp [placed])
    intro b member
    rcases List.mem_cons.mp member with rfl | later
    · exact start
    · refine ih (fun d inside => sizes d (List.mem_cons_of_mem _ inside)) ?_ b later
      simp only at here
      rw [Nat.add_mod, start, here, Nat.zero_mod]

theorem placed_split {b : Nat × Cell} (member : b ∈ placed p cells) :
    ∃ L R, cells = L ++ [b.2] ++ R ∧ b.1 = p + total L := by
  induction cells generalizing p with
  | nil => cases member
  | cons c rest ih =>
    rcases List.mem_cons.mp member with rfl | later
    · exact ⟨[], rest, rfl, rfl⟩
    · obtain ⟨L, R, rfl, place⟩ := ih later
      refine ⟨c :: L, R, rfl, ?_⟩
      simp only [total]
      lia

@[simp] theorem blocks_append {used : Bool} :
    blocks used p (L ++ R) = blocks used p L ++ blocks used (p + total L) R := by
  simp [blocks]

theorem blocks_here {used : Bool} (here : c.used = used) :
    blocks used p (c :: R) = (p, c) :: blocks used (p + c.size) R := by
  simp [blocks, here]

theorem blocks_other {used : Bool} (other : c.used = !used) :
    blocks used p (c :: R) = blocks used (p + c.size) R := by
  simp [blocks, other]

@[simp] theorem blocks_nil {used : Bool} : blocks used p [] = [] := rfl

theorem mem_blocks {used : Bool} {b : Nat × Cell} :
    b ∈ blocks used p cells ↔ b ∈ placed p cells ∧ b.2.used = used := by
  simp [blocks]

theorem blocks_pairwise {used : Bool} : (blocks used p cells).Pairwise (fun a b => a.1 + a.2.size ≤ b.1) :=
  placed_pairwise.filter _

theorem Laid.frameAt (laid : Laid ok prev p cells)
    (same : ∀ a x c, At cells x c → ok a (p + x) c → ok' a (p + x) c) : Laid ok' prev p cells := by
  induction cells generalizing prev p with
  | nil => trivial
  | cons c rest ih =>
    refine ⟨same prev 0 c (Or.inl ⟨rfl, rfl⟩) laid.1, ih laid.2 ?_⟩
    intro a x d found holds
    rw [Nat.add_assoc] at holds ⊢
    exact same a (c.size + x) d (Or.inr ⟨x, rfl, found⟩) holds

section
variable (sized : ∀ a y c, ok a y c → 0 < c.size)
include sized

theorem Laid.replaceAt (laid : Laid ok prev p (L ++ M ++ R)) (same : total M' = total M)
    (others : ∀ a x c, At (L ++ M ++ R) x c → (x < total L ∨ total L + total M < x) →
      ok a (p + x) c → ok' a (p + x) c)
    (next : ∀ r rest, R = r :: rest →
      ok (lastStart (lastStart prev p L) (p + total L) M) (p + total L + total M) r →
      ok' (lastStart (lastStart prev p L) (p + total L) M') (p + total L + total M) r)
    (middle : Laid ok' (lastStart prev p L) (p + total L) M') : Laid ok' prev p (L ++ M' ++ R) := by
  rw [List.append_assoc, laid_append, laid_append] at laid
  rw [List.append_assoc, laid_append, laid_append, same]
  obtain ⟨left, _, right⟩ := laid
  refine ⟨left.frameAt ?_, middle, ?_⟩
  · intro a x c found holds
    refine others a x c ?_ (Or.inl ?_) holds
    · rw [List.append_assoc]
      exact at_append.mpr (Or.inl found)
    · have inside := found.le
      have positive := sized _ _ _ holds
      lia
  · cases R with
    | nil => trivial
    | cons r rest =>
      have positive := sized _ _ _ right.1
      refine ⟨next r rest rfl right.1, right.2.frameAt ?_⟩
      intro a x c found holds
      have place : p + total L + total M + r.size + x = p + (total L + total M + r.size + x) := by lia
      rw [place] at holds ⊢
      refine others a _ c ?_ (Or.inr (by lia)) holds
      apply at_append.mpr
      exact Or.inr ⟨r.size + x, by rw [total_append]; lia, Or.inr ⟨x, rfl, found⟩⟩

theorem Laid.frame (laid : Laid ok prev p cells)
    (same : ∀ a y c, p ≤ y → y < p + total cells → ok a y c → ok' a y c) : Laid ok' prev p cells := by
  induction cells generalizing prev p with
  | nil => trivial
  | cons c rest ih =>
    have positive := sized _ _ _ laid.1
    refine ⟨same _ _ _ (Nat.le_refl _) ?_ laid.1, ih laid.2 ?_⟩
    · simp only [total]
      lia
    · intro a y d low high
      exact same a y d (by lia) (by simp only [total]; lia)

theorem Laid.replace (laid : Laid ok prev p (L ++ M ++ R)) (same : total M' = total M)
    (before : ∀ a y c, y < p + total L → ok a y c → ok' a y c)
    (after : ∀ a y c, p + total L + total M < y → ok a y c → ok' a y c)
    (next : R ≠ [] → ∀ c, ok (lastStart (lastStart prev p L) (p + total L) M) (p + total L + total M) c →
      ok' (lastStart (lastStart prev p L) (p + total L) M') (p + total L + total M) c)
    (middle : Laid ok' (lastStart prev p L) (p + total L) M') : Laid ok' prev p (L ++ M' ++ R) := by
  rw [List.append_assoc, laid_append, laid_append] at laid
  rw [List.append_assoc, laid_append, laid_append, same]
  obtain ⟨left, _, right⟩ := laid
  refine ⟨left.frame sized (fun a y c _ high => before a y c high), middle, ?_⟩
  cases R with
  | nil => trivial
  | cons r rest =>
    have positive := sized _ _ _ right.1
    refine ⟨next (by simp) r right.1, right.2.frame sized ?_⟩
    intro a y c low _
    exact after a y c (by lia)

end

end Tiling

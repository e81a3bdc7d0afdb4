import Mathlib.Algebra.Order.Ring.Int
import Mathlib.Data.List.Basic
import Mathlib.Data.List.Perm.Subperm
import Mathlib.Logic.Function.Basic

/-! Singly linked lists in a memory of nodes, and pools of nodes that are spread over
a free list, a queue with a tail pointer, and the hands of some holders. -/
namespace Linked

variable {N T : Type}

/-- Following `next` from `p` meets exactly the nodes of the list, in this order. -/
inductive Chain (next : N → Option N) : Option N → List N → Prop where
  | nil : Chain next none []
  | cons {n : N} {l : List N} : Chain next (next n) l → Chain next (some n) (n :: l)

namespace Chain
variable {next : N → Option N} {p q : Option N} {n last : N} {l : List N}

theorem none_iff : Chain next none l ↔ l = [] := by
  constructor
  · intro chain; cases chain; rfl
  · rintro rfl; exact .nil

theorem some_inv (chain : Chain next (some n) l) : ∃ rest, l = n :: rest := by
  cases chain with
  | cons _ => exact ⟨_, rfl⟩

theorem cons_inv (chain : Chain next p (n :: l)) : p = some n ∧ Chain next (next n) l := by
  cases chain with
  | cons rest => exact ⟨rfl, rest⟩

variable [DecidableEq N]

theorem frame (chain : Chain next p l) (outside : n ∉ l) : Chain (Function.update next n q) p l := by
  induction chain with
  | nil => exact .nil
  | @cons m rest _ ih =>
    simp only [List.mem_cons, not_or] at outside
    refine .cons ?_
    rw [Function.update_of_ne (Ne.symm outside.1)]
    exact ih outside.2

theorem push (chain : Chain next p l) (outside : n ∉ l) :
    Chain (Function.update next n p) (some n) (n :: l) := by
  refine .cons ?_
  rw [Function.update_self]
  exact chain.frame outside

theorem append (chain : Chain next p l) (nodup : l.Nodup) (ends : l.getLast? = some last)
    (outside : n ∉ l) (closed : next n = none) :
    Chain (Function.update next last (some n)) p (l ++ [n]) := by
  induction chain with
  | nil => simp at ends
  | @cons m rest chain ih =>
    obtain ⟨absent, nodup'⟩ := List.nodup_cons.mp nodup
    simp only [List.mem_cons, not_or] at outside
    refine .cons ?_
    cases rest with
    | nil =>
      have here : m = last := by simpa using ends
      subst here
      rw [Function.update_self]
      refine .cons ?_
      rw [Function.update_of_ne outside.1, closed]
      exact .nil
    | cons r rest =>
      have further : (r :: rest).getLast? = some last := by simpa using ends
      have other : m ≠ last := by
        rintro rfl
        exact absent (List.mem_of_getLast? further)
      rw [Function.update_of_ne other]
      exact ih nodup' further outside.2

end Chain

/-- Every node of the pool is on the free list, in the queue, or held by one holder. -/
structure Pool (next : N → Option N) (head tail free : Option N) (holds : T → Option N)
    (node : N → Prop) (frees queued : List N) : Prop where
  freeChain : Chain next free frees
  queueChain : Chain next head queued
  last : tail = queued.getLast?
  nodup : (frees ++ queued).Nodup
  heldOut : ∀ t n, holds t = some n → n ∉ frees ++ queued
  heldOnce : ∀ t u n, holds t = some n → holds u = some n → t = u
  cover : ∀ n, node n ↔ n ∈ frees ++ queued ∨ ∃ t, holds t = some n

namespace Pool
variable {next : N → Option N} {head tail free : Option N} {holds : T → Option N} {node : N → Prop}
  {frees queued rest : List N} {t : T} {n : N}

theorem held_update [DecidableEq T] {x : Option N} {u : T} {m : N} :
    Function.update holds t x u = some m ↔ (u = t ∧ x = some m) ∨ (u ≠ t ∧ holds u = some m) := by
  by_cases hu : u = t <;> simp [hu]

theorem frame [DecidableEq N] (pool : Pool next head tail free holds node frees queued) (held : holds t = some n)
    (q : Option N) : Pool (Function.update next n q) head tail free holds node frees queued := by
  have outside := pool.heldOut t n held
  simp only [List.mem_append, not_or] at outside
  exact ⟨pool.freeChain.frame outside.1, pool.queueChain.frame outside.2, pool.last, pool.nodup,
    pool.heldOut, pool.heldOnce, pool.cover⟩

theorem grab [DecidableEq T] {frees' queued' : List N} {head' tail' free' : Option N}
    (pool : Pool next head tail free holds node frees queued)
    (idle : holds t = none) (leaves : (frees ++ queued).Perm (n :: (frees' ++ queued')))
    (freeChain : Chain next free' frees') (queueChain : Chain next head' queued')
    (last : tail' = queued'.getLast?) :
    Pool next head' tail' free' (Function.update holds t (some n)) node frees' queued' := by
  obtain ⟨absent, nodup⟩ := List.nodup_cons.mp (leaves.nodup_iff.mp pool.nodup)
  have mem : ∀ m, m ∈ frees ++ queued ↔ m = n ∨ m ∈ frees' ++ queued' := fun m => by
    rw [leaves.mem_iff, List.mem_cons]
  refine ⟨freeChain, queueChain, last, nodup, ?_, ?_, ?_⟩
  · intro u m held
    rcases held_update.mp held with ⟨_, same⟩ | ⟨_, held⟩
    · cases same
      exact absent
    · exact fun here => pool.heldOut u m held ((mem m).mpr (Or.inr here))
  · intro u v m first second
    rcases held_update.mp first with ⟨hu, same⟩ | ⟨_, left⟩ <;>
      rcases held_update.mp second with ⟨hv, same'⟩ | ⟨_, right⟩
    · rw [hu, hv]
    · cases same
      exact absurd ((mem n).mpr (Or.inl rfl)) (pool.heldOut v n right)
    · cases same'
      exact absurd ((mem n).mpr (Or.inl rfl)) (pool.heldOut u n left)
    · exact pool.heldOnce u v m left right
  · intro m
    rw [pool.cover, mem]
    constructor
    · rintro ((rfl | here) | ⟨u, held⟩)
      · exact Or.inr ⟨t, held_update.mpr (Or.inl ⟨rfl, rfl⟩)⟩
      · exact Or.inl here
      · have other : u ≠ t := by rintro rfl; simp [idle] at held
        exact Or.inr ⟨u, held_update.mpr (Or.inr ⟨other, held⟩)⟩
    · rintro (here | ⟨u, held⟩)
      · exact Or.inl (Or.inr here)
      · rcases held_update.mp held with ⟨_, same⟩ | ⟨_, held⟩
        · cases same
          exact Or.inl (Or.inl rfl)
        · exact Or.inr ⟨u, held⟩

theorem drop [DecidableEq T] {next' : N → Option N} {frees' queued' : List N} {head' tail' free' : Option N}
    (pool : Pool next head tail free holds node frees queued)
    (held : holds t = some n) (joins : (frees' ++ queued').Perm (n :: (frees ++ queued)))
    (freeChain : Chain next' free' frees') (queueChain : Chain next' head' queued')
    (last : tail' = queued'.getLast?) :
    Pool next' head' tail' free' (Function.update holds t none) node frees' queued' := by
  have mem : ∀ m, m ∈ frees' ++ queued' ↔ m = n ∨ m ∈ frees ++ queued := fun m => by
    rw [joins.mem_iff, List.mem_cons]
  refine ⟨freeChain, queueChain, last, ?_, ?_, ?_, ?_⟩
  · exact joins.nodup_iff.mpr (List.nodup_cons.mpr ⟨pool.heldOut t n held, pool.nodup⟩)
  · intro u m other
    rcases held_update.mp other with ⟨_, same⟩ | ⟨hu, other⟩
    · cases same
    · rw [mem]
      rintro (rfl | here)
      · exact hu (pool.heldOnce u t m other held)
      · exact pool.heldOut u m other here
  · intro u v m first second
    rcases held_update.mp first with ⟨_, same⟩ | ⟨_, first⟩
    · cases same
    · rcases held_update.mp second with ⟨_, same⟩ | ⟨_, second⟩
      · cases same
      · exact pool.heldOnce u v m first second
  · intro m
    rw [pool.cover, mem]
    constructor
    · rintro (here | ⟨u, other⟩)
      · exact Or.inl (Or.inr here)
      · by_cases hu : u = t
        · subst hu
          rw [held] at other
          cases other
          exact Or.inl (Or.inl rfl)
        · exact Or.inr ⟨u, held_update.mpr (Or.inr ⟨hu, other⟩)⟩
    · rintro ((rfl | here) | ⟨u, other⟩)
      · exact Or.inr ⟨t, held⟩
      · exact Or.inl here
      · rcases held_update.mp other with ⟨_, same⟩ | ⟨_, other⟩
        · cases same
        · exact Or.inr ⟨u, other⟩

/-- Take the first free node. -/
theorem take [DecidableEq T] (pool : Pool next head tail free holds node (n :: rest) queued)
    (idle : holds t = none) :
    Pool next head tail (next n) (Function.update holds t (some n)) node rest queued :=
  pool.grab idle (by simp) (pool.freeChain.cons_inv).2 pool.queueChain pool.last

variable [DecidableEq N]

theorem giveBack [DecidableEq T] (pool : Pool next head tail free holds node frees queued)
    (held : holds t = some n) :
    Pool (Function.update next n free) head tail (some n) (Function.update holds t none) node
      (n :: frees) queued := by
  have outside := pool.heldOut t n held
  simp only [List.mem_append, not_or] at outside
  exact pool.drop held (by simp) (pool.freeChain.push outside.1) (pool.queueChain.frame outside.2) pool.last

theorem pushFront [DecidableEq T] (pool : Pool next head tail free holds node frees queued)
    (held : holds t = some n) :
    Pool (Function.update next n head) (some n) (tail.or (some n)) free
      (Function.update holds t none) node frees (n :: queued) := by
  have outside := pool.heldOut t n held
  simp only [List.mem_append, not_or] at outside
  refine pool.drop held List.perm_middle (pool.freeChain.frame outside.1)
    (pool.queueChain.push outside.2) ?_
  rw [pool.last]
  cases queued with
  | nil => rfl
  | cons m rest => simp [List.getLast?_cons]

theorem pushBack [DecidableEq T] (pool : Pool next head tail free holds node frees queued)
    (held : holds t = some n) (closed : next n = none) :
    Pool (tail.elim next (fun l => Function.update next l (some n))) (head.or (some n)) (some n) free
      (Function.update holds t none) node frees (queued ++ [n]) := by
  have outside := pool.heldOut t n held
  simp only [List.mem_append, not_or] at outside
  obtain ⟨_, queueNodup, apart⟩ := List.nodup_append.mp pool.nodup
  have joins : (frees ++ (queued ++ [n])).Perm (n :: (frees ++ queued)) := by
    rw [← List.append_assoc]
    exact List.perm_append_singleton n (frees ++ queued)
  cases ends : queued.getLast? with
  | none =>
    have empty : queued = [] := List.getLast?_eq_none_iff.mp ends
    subst empty
    have noHead : head = none := by
      have chain := pool.queueChain
      cases chain
      rfl
    rw [pool.last, noHead]
    refine pool.drop held joins pool.freeChain ?_ (by simp)
    refine .cons ?_
    change Chain next (next n) []
    rw [closed]
    exact .nil
  | some last =>
    have here : last ∈ queued := List.mem_of_getLast? ends
    have someHead : head.or (some n) = head := by
      have chain := pool.queueChain
      cases chain with
      | nil => cases here
      | cons _ => rfl
    rw [pool.last, ends, someHead]
    refine pool.drop held joins (pool.freeChain.frame ?_)
      (pool.queueChain.append queueNodup ends outside.2 closed) (by simp)
    exact fun free => apart last free last here rfl

theorem popTail {m : N} (nodup : (m :: rest).Nodup) :
    (if (m :: rest).getLast? = some m then none else (m :: rest).getLast?) = rest.getLast? := by
  obtain ⟨absent, _⟩ := List.nodup_cons.mp nodup
  cases rest with
  | nil => simp
  | cons r rest =>
    have other : (r :: rest).getLast? ≠ some m := fun ends => absent (List.mem_of_getLast? ends)
    have same : (m :: r :: rest).getLast? = (r :: rest).getLast? := by simp [List.getLast?_cons]
    rw [same, if_neg other]

theorem popFront [DecidableEq T] (pool : Pool next head tail free holds node frees (n :: rest))
    (idle : holds t = none) :
    Pool next (next n) (if tail = some n then none else tail) free
      (Function.update holds t (some n)) node frees rest := by
  obtain ⟨_, queueNodup, _⟩ := List.nodup_append.mp pool.nodup
  refine pool.grab idle List.perm_middle pool.freeChain (pool.queueChain.cons_inv).2 ?_
  rw [pool.last]
  exact popTail queueNodup

theorem recycle (pool : Pool next head tail free holds node frees (n :: rest)) :
    Pool (Function.update next n free) (next n) (if tail = some n then none else tail) (some n)
      holds node (n :: frees) rest := by
  obtain ⟨_, queueNodup, apart⟩ := List.nodup_append.mp pool.nodup
  have fresh : n ∉ frees := fun here => apart n here n (by simp) rfl
  have moved : (n :: frees ++ rest).Perm (frees ++ n :: rest) := List.perm_middle.symm
  refine ⟨pool.freeChain.push fresh,
    (pool.queueChain.cons_inv).2.frame (List.nodup_cons.mp queueNodup).1, ?_,
    moved.nodup_iff.mpr pool.nodup, ?_, pool.heldOnce, ?_⟩
  · rw [pool.last]
    exact popTail queueNodup
  · intro u m held
    rw [moved.mem_iff]
    exact pool.heldOut u m held
  · intro m
    rw [moved.mem_iff]
    exact pool.cover m

end Pool

theorem Pool.queue_lt {next : Nat → Option Nat} {head tail free : Option Nat} {holds : T → Option Nat}
    {size : Nat} {frees queued : List Nat} {t : T} {n : Nat}
    (pool : Pool next head tail free holds (· < size) frees queued) (held : holds t = some n) :
    queued.length < size := by
  obtain ⟨_, queueNodup, _⟩ := List.nodup_append.mp pool.nodup
  have outside := pool.heldOut t n held
  simp only [List.mem_append, not_or] at outside
  have inside : n :: queued ⊆ List.range size := by
    intro m here
    rw [List.mem_range]
    rcases List.mem_cons.mp here with rfl | here
    · exact (pool.cover m).mpr (Or.inr ⟨t, held⟩)
    · exact (pool.cover m).mpr (Or.inl (List.mem_append_right _ here))
  have length := (List.subperm_of_subset (List.nodup_cons.mpr ⟨outside.2, queueNodup⟩) inside).length_le
  simpa [Nat.succ_le_iff] using length

section Words
variable {w w' : Nat → Nat} {addr : N → Nat} {off p : Nat} {n : N} {l : List N}

/-- From the pointer `p` on, along the words at `off` behind the nodes, are the nodes of the list and
then the null pointer. -/
def Listed (w : Nat → Nat) (addr : N → Nat) (off : Nat) : Nat → List N → Prop
  | p, [] => p = 0
  | p, n :: l => p = addr n ∧ p ≠ 0 ∧ Listed w addr off (w (addr n + off)) l

theorem Listed.congr (listed : Listed w addr off p l)
    (same : ∀ n ∈ l, w' (addr n + off) = w (addr n + off)) : Listed w' addr off p l := by
  induction l generalizing p with
  | nil => exact listed
  | cons n l ih =>
    obtain ⟨here, some, rest⟩ := listed
    rw [← same n List.mem_cons_self] at rest
    exact ⟨here, some, ih rest (fun m member => same m (List.mem_cons_of_mem _ member))⟩

theorem Listed.null_iff (listed : Listed w addr off p l) : p = 0 ↔ l = [] := by
  cases l with
  | nil => exact ⟨fun _ => rfl, fun _ => listed⟩
  | cons n l => exact ⟨fun null => absurd null listed.2.1, fun empty => by cases empty⟩

theorem Listed.push (listed : Listed w addr off p l) (some : addr n ≠ 0) (link : w' (addr n + off) = p)
    (same : ∀ m ∈ l, w' (addr m + off) = w (addr m + off)) :
    Listed w' addr off (addr n) (n :: l) := by
  refine ⟨rfl, some, ?_⟩
  rw [link]
  exact listed.congr same

/-- From the pointer `p` on, along the nodes of the list, to the pointer `q`. -/
def Segment (w : Nat → Nat) (addr : N → Nat) (off : Nat) : Nat → List N → Nat → Prop
  | p, [], q => p = q
  | p, n :: l, q => p = addr n ∧ p ≠ 0 ∧ Segment w addr off (w (addr n + off)) l q

variable {q : Nat} {l' : List N}

theorem listed_append : Listed w addr off p (l ++ l') ↔
    ∃ q, Segment w addr off p l q ∧ Listed w addr off q l' := by
  induction l generalizing p with
  | nil => simp [Segment]
  | cons n l ih =>
    simp only [List.cons_append, Listed, Segment, ih]
    constructor
    · rintro ⟨here, some, q, first, second⟩
      exact ⟨q, ⟨here, some, first⟩, second⟩
    · rintro ⟨q, ⟨here, some, first⟩, second⟩
      exact ⟨here, some, q, first, second⟩

theorem segment_append : Segment w addr off p (l ++ l') q ↔
    ∃ m, Segment w addr off p l m ∧ Segment w addr off m l' q := by
  induction l generalizing p with
  | nil => simp [Segment]
  | cons n l ih =>
    simp only [List.cons_append, Segment, ih]
    constructor
    · rintro ⟨here, some, m, first, second⟩
      exact ⟨m, ⟨here, some, first⟩, second⟩
    · rintro ⟨m, ⟨here, some, first⟩, second⟩
      exact ⟨here, some, m, first, second⟩

theorem Segment.congr (segment : Segment w addr off p l q)
    (same : ∀ n ∈ l, w' (addr n + off) = w (addr n + off)) : Segment w' addr off p l q := by
  induction l generalizing p with
  | nil => exact segment
  | cons n l ih =>
    obtain ⟨here, some, rest⟩ := segment
    rw [← same n List.mem_cons_self] at rest
    exact ⟨here, some, ih rest (fun m member => same m (List.mem_cons_of_mem _ member))⟩

theorem Segment.relink (segment : Segment w addr off p (l ++ [n]) q)
    (same : ∀ m ∈ l, w' (addr m + off) = w (addr m + off)) :
    Segment w' addr off p (l ++ [n]) (w' (addr n + off)) := by
  obtain ⟨m, first, here, some, _⟩ := segment_append.mp segment
  exact segment_append.mpr ⟨m, first.congr same, here, some, rfl⟩

theorem Segment.last (segment : Segment w addr off p (l ++ [n]) q) : w (addr n + off) = q := by
  obtain ⟨m, _, _, _, last⟩ := segment_append.mp segment
  exact last

end Words

end Linked

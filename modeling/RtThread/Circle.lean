import Mathlib.Data.List.Nodup
import Mathlib.Logic.Function.Basic

/-! Doubly linked circular lists: a head, and the nodes met from it until it comes again.
Putting a node behind the head and taking one out write four and two links. -/
namespace Linked

variable {N : Type} {next prev next' prev' : N → N} {a x z n : N} {l A B : List N}

/-- From `a` through the nodes of the list to `z`, every two neighbours naming each other. -/
def Path (next prev : N → N) : N → List N → N → Prop
  | a, [], z => next a = z ∧ prev z = a
  | a, b :: rest, z => (next a = b ∧ prev b = a) ∧ Path next prev b rest z

/-- The circle of `head` and the other nodes, in the order of `next`. -/
def Circle (next prev : N → N) (head : N) (nodes : List N) : Prop := Path next prev head nodes head

theorem path_append : Path next prev a (A ++ x :: B) z ↔ Path next prev a A x ∧ Path next prev x B z := by
  induction A generalizing a with
  | nil => simp [Path]
  | cons c rest ih => simp [Path, ih, and_assoc]

theorem Path.frame (path : Path next prev a l z) (nexts : ∀ y ∈ a :: l, next' y = next y)
    (prevs : ∀ y ∈ l ++ [z], prev' y = prev y) : Path next' prev' a l z := by
  induction l generalizing a with
  | nil => exact ⟨(nexts a (by simp)).trans path.1, (prevs z (by simp)).trans path.2⟩
  | cons b rest ih =>
    obtain ⟨⟨forward, back⟩, later⟩ := path
    refine ⟨⟨(nexts a (by simp)).trans forward, (prevs b (by simp)).trans back⟩, ih later ?_ ?_⟩
    · exact fun y here => nexts y (List.mem_cons_of_mem a here)
    · exact fun y here => prevs y (List.mem_cons_of_mem b here)

theorem Path.last_mem (path : Path next prev a l z) : prev z ∈ a :: l ∧ next (prev z) = z := by
  induction l generalizing a with
  | nil => exact ⟨by simp [path.2], by rw [path.2, path.1]⟩
  | cons b rest ih =>
    obtain ⟨inside, back⟩ := ih path.2
    exact ⟨List.mem_cons_of_mem a inside, back⟩

theorem Path.first_mem (path : Path next prev a l z) : next a ∈ l ++ [z] ∧ prev (next a) = a := by
  cases l with
  | nil => exact ⟨by simp [path.1], by rw [path.1, path.2]⟩
  | cons b rest => exact ⟨by simp [path.1.1], by rw [path.1.1, path.1.2]⟩

theorem Path.insert (path : Path next prev a l z) (nodup : l.Nodup) (apart : z ∉ l) (outside : a ∉ l)
    (into : next' a = n ∧ prev' n = a) (out : next' n = next a ∧ prev' (next a) = n)
    (nexts : ∀ y ∈ l, next' y = next y) (prevs : ∀ y ∈ l ++ [z], y ≠ next a → prev' y = prev y) :
    Path next' prev' a (n :: l) z := by
  refine ⟨into, ?_⟩
  cases l with
  | nil =>
    rw [path.1] at out
    exact out
  | cons b rest =>
    obtain ⟨⟨forward, _⟩, later⟩ := path
    rw [forward] at out prevs
    refine ⟨out, later.frame nexts ?_⟩
    intro y here
    apply prevs y (by simpa using Or.inr (by simpa using here))
    rintro rfl
    rcases List.mem_append.mp here with inside | end_
    · exact (List.nodup_cons.mp nodup).1 inside
    · exact apart (by simp [List.mem_singleton.mp end_])

theorem Path.remove (before : Path next prev a A x) (after : Path next prev x B z)
    (nodup : (a :: (A ++ x :: B)).Nodup) (apart : z ∉ A ++ x :: B)
    (forward : next' (prev x) = next x) (back : prev' (next x) = prev x)
    (nexts : ∀ y ∈ a :: (A ++ B), y ≠ prev x → next' y = next y)
    (prevs : ∀ y ∈ A ++ B ++ [z], y ≠ next x → prev' y = prev y) : Path next' prev' a (A ++ B) z := by
  induction A generalizing a with
  | nil =>
    have start : prev x = a := before.2
    rw [start] at forward back nexts
    have fresh := (List.nodup_cons.mp nodup).1
    have nodupB := (List.nodup_cons.mp (List.nodup_cons.mp nodup).2).2
    cases B with
    | nil =>
      have end_ : next x = z := after.1
      rw [end_] at forward back
      exact ⟨forward, back⟩
    | cons b rest =>
      obtain ⟨⟨toB, _⟩, later⟩ := after
      rw [toB] at forward back prevs
      refine ⟨⟨forward, back⟩, later.frame ?_ ?_⟩
      · intro y here
        apply nexts y (List.mem_cons_of_mem a here)
        rintro rfl
        exact fresh (by simpa using Or.inr (by simpa using here))
      · intro y here
        apply prevs y (by simpa using Or.inr (by simpa using here))
        rintro rfl
        rcases List.mem_append.mp here with inside | end_
        · exact (List.nodup_cons.mp nodupB).1 inside
        · exact apart (by simp [List.mem_singleton.mp end_])
  | cons c rest ih =>
    obtain ⟨⟨toC, fromC⟩, later⟩ := before
    have fresh := (List.nodup_cons.mp nodup).1
    have nodupC := (List.nodup_cons.mp nodup).2
    refine ⟨⟨?_, ?_⟩, ih later nodupC (fun here => apart (by simpa using Or.inr (by simpa using here))) ?_ ?_⟩
    · rw [nexts a (by simp), toC]
      intro same
      have inside := later.last_mem.1
      rw [← same] at inside
      exact fresh (by simpa using (List.mem_cons.mp inside).imp_right Or.inl)
    · rw [prevs c (by simp), fromC]
      intro same
      rcases List.mem_append.mp after.first_mem.1 with inside | end_
      · rw [← same] at inside
        exact (List.nodup_cons.mp nodupC).1 (by simp [inside])
      · rw [← same] at end_
        exact apart (by simp [List.mem_singleton.mp end_])
    · exact fun y here => nexts y (List.mem_cons_of_mem a here)
    · exact fun y here => prevs y (by simpa using Or.inr (by simpa using here))

variable {head : N} {nodes : List N}

namespace Circle

theorem neighbours (circle : Circle next prev head nodes) (here : x ∈ nodes) :
    prev x ∈ head :: nodes ∧ next x ∈ head :: nodes ∧ next (prev x) = x ∧ prev (next x) = x := by
  obtain ⟨A, B, rfl⟩ := List.append_of_mem here
  obtain ⟨before, after⟩ := path_append.mp circle
  obtain ⟨last, forward⟩ := before.last_mem
  obtain ⟨first, back⟩ := after.first_mem
  refine ⟨?_, ?_, forward, back⟩
  · simp only [List.mem_cons, List.mem_append] at last ⊢
    tauto
  · simp only [List.mem_cons, List.mem_append, List.not_mem_nil, or_false] at first ⊢
    tauto

theorem neighbours_ne (circle : Circle next prev head nodes) (nodup : (head :: nodes).Nodup)
    (here : x ∈ nodes) : prev x ≠ x ∧ next x ≠ x := by
  obtain ⟨fresh, nodup'⟩ := List.nodup_cons.mp nodup
  obtain ⟨A, B, rfl⟩ := List.append_of_mem here
  obtain ⟨_, nodupB, apart⟩ := List.nodup_append.mp nodup'
  obtain ⟨before, after⟩ := path_append.mp circle
  have notHead : x ≠ head := by
    rintro rfl
    exact fresh here
  constructor
  · intro same
    have last := before.last_mem.1
    rw [same] at last
    rcases List.mem_cons.mp last with rfl | inside
    · exact notHead rfl
    · exact apart x inside x (by simp) rfl
  · intro same
    have first := after.first_mem.1
    rw [same] at first
    rcases List.mem_append.mp first with inside | end_
    · exact (List.nodup_cons.mp nodupB).1 inside
    · exact notHead (List.mem_singleton.mp end_)

theorem first_mem (circle : Circle next prev head nodes) :
    next head ∈ head :: nodes ∧ prev (next head) = head := by
  obtain ⟨first, back⟩ := Path.first_mem circle
  refine ⟨?_, back⟩
  simp only [List.mem_cons, List.mem_append, List.not_mem_nil, or_false] at first ⊢
  tauto

theorem frame (circle : Circle next prev head nodes)
    (same : ∀ y ∈ head :: nodes, next' y = next y ∧ prev' y = prev y) :
    Circle next' prev' head nodes := by
  apply Path.frame circle
  · exact fun y here => (same y here).1
  · intro y here
    apply (same y _).2
    simp only [List.mem_cons, List.mem_append, List.not_mem_nil, or_false] at here ⊢
    tauto

theorem insert (circle : Circle next prev head nodes) (nodup : (head :: nodes).Nodup)
    (into : next' head = n ∧ prev' n = head) (out : next' n = next head ∧ prev' (next head) = n)
    (nexts : ∀ y ∈ nodes, next' y = next y)
    (prevs : ∀ y ∈ head :: nodes, y ≠ next head → prev' y = prev y) :
    Circle next' prev' head (n :: nodes) := by
  obtain ⟨fresh, nodup⟩ := List.nodup_cons.mp nodup
  apply Path.insert circle nodup fresh fresh into out nexts
  intro y here
  apply prevs y
  simp only [List.mem_cons, List.mem_append, List.not_mem_nil, or_false] at here ⊢
  tauto

theorem remove [DecidableEq N] (circle : Circle next prev head nodes) (nodup : (head :: nodes).Nodup)
    (here : x ∈ nodes) (forward : next' (prev x) = next x) (back : prev' (next x) = prev x)
    (nexts : ∀ y ∈ head :: nodes, y ≠ x → y ≠ prev x → next' y = next y)
    (prevs : ∀ y ∈ head :: nodes, y ≠ x → y ≠ next x → prev' y = prev y) :
    Circle next' prev' head (nodes.erase x) := by
  obtain ⟨fresh, nodup'⟩ := List.nodup_cons.mp nodup
  obtain ⟨A, B, rfl⟩ := List.append_of_mem here
  obtain ⟨_, nodupB, apart⟩ := List.nodup_append.mp nodup'
  have notA : x ∉ A := fun inside => apart x inside x (by simp) rfl
  have notB := (List.nodup_cons.mp nodupB).1
  have notHead : x ≠ head := by
    rintro rfl
    exact fresh here
  rw [List.erase_append_right _ notA, List.erase_cons_head]
  obtain ⟨before, after⟩ := path_append.mp circle
  apply before.remove after nodup fresh forward back
  · intro y inside
    apply nexts y
    · simp only [List.mem_cons, List.mem_append] at inside ⊢
      tauto
    · rintro rfl
      simp only [List.mem_cons, List.mem_append] at inside
      tauto
  · intro y inside
    apply prevs y
    · simp only [List.mem_cons, List.mem_append, List.not_mem_nil, or_false] at inside ⊢
      tauto
    · rintro rfl
      simp only [List.mem_cons, List.mem_append, List.not_mem_nil, or_false] at inside
      tauto

end Circle

end Linked

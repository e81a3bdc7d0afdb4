import Mathlib.Data.List.Basic

/-! Loops over a partial step, and code laid out in a segment that such a loop walks. -/
namespace Fetch

variable {σ α : Type}

/-- `while active do step`, for at most `fuel` rounds; a failed step fails the loop. -/
def loop (active : σ → Bool) (step : σ → Option σ) : Nat → σ → Option σ
  | 0, s => if active s then none else some s
  | fuel + 1, s => if active s then (step s).bind (loop active step fuel) else some s

/-- Rounds of the loop, one after the other. -/
inductive Rounds (active : σ → Bool) (step : σ → Option σ) : σ → σ → Prop where
  | none {s : σ} : Rounds active step s s
  | round {s mid last : σ} : active s = true → step s = some mid → Rounds active step mid last →
      Rounds active step s last

variable {active : σ → Bool} {step : σ → Option σ}

theorem loop_zero (s : σ) : loop active step 0 s = if active s then none else some s := rfl

theorem loop_succ (fuel : Nat) (s : σ) : loop active step (fuel + 1) s =
    if active s then (step s).bind (loop active step fuel) else some s := rfl

theorem Rounds.single {s last : σ} (goes : active s = true) (taken : step s = some last) :
    Rounds active step s last :=
  .round goes taken .none

theorem Rounds.trans {s mid last : σ} (first : Rounds active step s mid)
    (second : Rounds active step mid last) : Rounds active step s last := by
  induction first with
  | none => exact second
  | round goes taken _ ih => exact .round goes taken (ih second)

/-- With a rank that every active round lowers, the rounds to an inactive state are the loop. -/
theorem Rounds.loop {rank : σ → Nat}
    (lowers : ∀ s s', active s = true → step s = some s' → rank s' < rank s) {s last : σ}
    (rounds : Rounds active step s last) (stops : active last = false) {fuel : Nat}
    (enough : rank s ≤ fuel) : loop active step fuel s = some last := by
  induction rounds generalizing fuel with
  | none => cases fuel <;> simp [loop_zero, loop_succ, stops]
  | round goes taken _ ih =>
    have lower := lowers _ _ goes taken
    cases fuel with
    | zero => omega
    | succ fuel => simpa [loop_succ, goes, taken] using ih stops (by omega)

/-- Under such a rank more rounds than the rank change nothing. -/
theorem loop_enough {rank : σ → Nat}
    (lowers : ∀ s s', active s = true → step s = some s' → rank s' < rank s)
    (idle : ∀ s, rank s = 0 → active s = false) {s : σ} {fuel more : Nat} (enough : rank s ≤ fuel)
    (further : fuel ≤ more) : loop active step more s = loop active step fuel s := by
  induction fuel generalizing s more with
  | zero =>
    have stopped := idle s (by omega)
    cases more <;> simp [loop_zero, loop_succ, stopped]
  | succ fuel ih =>
    obtain ⟨k, rfl⟩ : ∃ k, more = k + 1 := ⟨more - 1, by omega⟩
    rw [loop_succ, loop_succ]
    cases goes : active s with
    | false => rfl
    | true =>
      cases taken : step s with
      | none => rfl
      | some s' =>
        have lower := lowers s s' goes taken
        exact ih (by omega) (by omega)

theorem loop_inactive {s last : σ} {fuel : Nat} (ended : loop active step fuel s = some last) :
    active last = false := by
  induction fuel generalizing s with
  | zero =>
    simp only [loop_zero] at ended
    split at ended
    · contradiction
    · cases ended
      exact Bool.eq_false_iff.mpr ‹_›
  | succ fuel ih =>
    simp only [loop_succ] at ended
    split at ended
    · obtain ⟨mid, _, later⟩ := Option.bind_eq_some_iff.mp ended
      exact ih later
    · cases ended
      exact Bool.eq_false_iff.mpr ‹_›

/-- Two runs of the loop in step: related states stay related, or both rounds fail. -/
theorem loop_rel {R : σ → σ → Prop} (alike : ∀ s t, R s t → active s = active t)
    (goes : ∀ s t, R s t → active s = true → Option.Rel R (step s) (step t)) (fuel : Nat) {s t : σ}
    (related : R s t) : Option.Rel R (loop active step fuel s) (loop active step fuel t) := by
  induction fuel generalizing s t with
  | zero =>
    simp only [loop_zero, ← alike s t related]
    split
    · exact .none
    · exact .some related
  | succ fuel ih =>
    simp only [loop_succ, ← alike s t related]
    split
    · rename_i running
      have stepped := goes s t related running
      generalize step s = s', step t = t' at stepped
      cases stepped with
      | none => exact .none
      | some next => exact ih next
    · exact .some related

/-- `code` stands in the segment from position `p` on. -/
def Placed (segment : List α) (p : Nat) (code : List α) : Prop :=
  code <+: segment.drop p

variable {segment code first second : List α} {p : Nat} {a : α}

theorem Placed.left (placed : Placed segment p (first ++ second)) : Placed segment p first :=
  (List.prefix_append first second).trans placed

theorem Placed.right (placed : Placed segment p (first ++ second)) :
    Placed segment (p + first.length) second := by
  obtain ⟨rest, whole⟩ := placed
  refine ⟨rest, ?_⟩
  rw [← List.drop_drop, ← whole, List.append_assoc, List.drop_left]

theorem Placed.head (placed : Placed segment p (a :: code)) : segment[p]? = some a := by
  obtain ⟨rest, whole⟩ := placed
  rw [← List.head?_drop, ← whole]
  rfl

theorem Placed.tail (placed : Placed segment p (a :: code)) : Placed segment (p + 1) code := by
  have joined : Placed segment p ([a] ++ code) := placed
  exact joined.right

theorem Placed.take (placed : Placed segment p code) : (segment.drop p).take code.length = code :=
  (List.prefix_iff_eq_take.mp placed).symm

theorem Placed.bound (placed : Placed segment p (a :: code)) : p < segment.length := by
  obtain ⟨found, _⟩ := List.getElem?_eq_some_iff.mp placed.head
  exact found

theorem Placed.start (code rest : List α) : Placed (code ++ rest) 0 code :=
  List.prefix_append code rest

end Fetch

import Mathlib.Data.List.Basic

/-! What a computation may hold of units that are only ever taken: a rule for each way to build one. -/
namespace Budget

variable {σ α β : Type} {used : σ → Nat}

/-- Where the computation comes back, what it holds was owned before or has been taken meanwhile. -/
def Spends (used : σ → Nat) (p : StateT σ Option α) (held : α → Nat) (owned : Nat) : Prop :=
  ∀ s r s', p s = some (r, s') → held r + used s ≤ used s' + owned

variable {p : StateT σ Option α} {held : α → Nat} {owned : Nat}

theorem Spends.mono {more : Nat} (spends : Spends used p held owned) (enough : owned ≤ more) :
    Spends used p held more := by
  intro s r s' done
  have within := spends s r s' done
  omega

theorem Spends.pure {r : α} (covered : held r ≤ owned) :
    Spends used (pure r : StateT σ Option α) held owned := by
  intro s r' s' done
  cases done
  omega

theorem Spends.bind {f : α → StateT σ Option β} {got : β → Nat} {aside : Nat}
    (first : Spends used p held owned) (rest : ∀ r, Spends used (f r) got (held r + aside)) :
    Spends used (p >>= f) got (owned + aside) := by
  intro s r s' done
  obtain ⟨⟨a, mid⟩, taken, more⟩ := Option.bind_eq_some_iff.mp done
  have before := first s a mid taken
  have after := rest a mid r s' more
  omega

theorem Spends.carry {f : α → StateT σ Option β} {got : β → Nat} {total : Nat}
    (first : Spends used p held 0) (rest : ∀ r, Spends used (f r) got (held r + total)) :
    Spends used (p >>= f) got total := by
  have whole := first.bind rest
  rwa [Nat.zero_add] at whole

theorem Spends.through {f : α → StateT σ Option β} {got : β → Nat}
    (first : Spends used p held owned) (rest : ∀ r, Spends used (f r) got (held r)) :
    Spends used (p >>= f) got owned :=
  @Spends.bind _ _ _ _ _ _ _ f got 0 first rest

theorem Spends.get {f : σ → StateT σ Option β} {got : β → Nat} (rest : ∀ s, Spends used (f s) got owned) :
    Spends used (get >>= f) got owned :=
  fun s => rest s s

theorem Spends.modifyGet {f : σ → α × σ} (same : ∀ s, used (f s).2 = used s) :
    Spends used (modifyGet f : StateT σ Option α) (fun _ => 0) 0 := by
  intro s r s' done
  have left : (f s).2 = s' := congrArg Prod.snd (Option.some.inj done)
  have kept := same s
  rw [left] at kept
  show 0 + used s ≤ used s' + 0
  omega

theorem Spends.modify {f : σ → σ} (same : ∀ s, used (f s) = used s) :
    Spends used (modify f : StateT σ Option PUnit) (fun _ => 0) 0 :=
  Spends.modifyGet same

theorem Spends.ite {c : Prop} [Decidable c] {q : StateT σ Option α} (yes : c → Spends used p held owned)
    (no : ¬c → Spends used q held owned) : Spends used (if c then p else q) held owned := by
  by_cases h : c
  · rw [if_pos h]; exact yes h
  · rw [if_neg h]; exact no h

end Budget

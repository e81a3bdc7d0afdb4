import RtThread.Pthread.Named

/-! sem_open, sem_close, sem_unlink and the like for message queues, in any order. -/
namespace RtThread.Pthread.Named
open Transition

variable {tr es : List Event} {s s' : State} {a : Action} {k : Kind} {o p : Obj} {name : Name} {list : List Obj}
  {id : Nat} {f : Obj → Obj}

theorem write_newest (newest : list.Pairwise (fun a b => a.name = b.name → b.unlinked = true))
    (name : ∀ o, (f o).name = o.name) (more : ∀ o, o.unlinked = true → (f o).unlinked = true) :
    (write list id f).Pairwise (fun a b => a.name = b.name → b.unlinked = true) := by
  refine List.pairwise_map.mpr (newest.imp fun {a b} old same => ?_)
  have names (o : Obj) : (if o.id = id then f o else o).name = o.name := by
    split
    · exact name o
    · rfl
  rw [names, names] at same
  have unlinked := old same
  split
  · exact more b unlinked
  · exact unlinked

theorem create_inv (inv : Inv tr s) (unused : ∀ o ∈ s.list, o.name = name → o.unlinked = true) :
    Inv (tr ++ (create s name).2) (create s name).1 := by
  obtain ⟨noOpens, noCloses, never, notFreed⟩ := inv.fresh s.next (Nat.le_refl _)
  have elsewhere (o : Obj) (here : o ∈ s.list) : o.id ≠ s.next := Nat.ne_of_lt (inv.below o here)
  have opened (id : Nat) : opens (tr ++ [.opened s.next]) id = opens tr id + if s.next = id then 1 else 0 := by
    simp [opens, List.count_append, List.count_singleton]
  have closed (id : Nat) : closes (tr ++ [.opened s.next]) id = closes tr id := by
    simp [closes, List.count_append]
  have freed (id : Nat) : frees (tr ++ [.opened s.next]) id = frees tr id := by
    simp [frees, List.count_append]
  refine ⟨?_, ?_, ?_, ?_, ?_, ?_, ?_, fun id given absent => ?_, fun id given => ?_, fun id => ?_, ?_⟩
  · refine List.nodup_cons.mpr ⟨fun here => ?_, inv.ids⟩
    obtain ⟨o, here, same⟩ := List.mem_map.mp here
    exact elsewhere o here same
  · refine List.forall_mem_cons.mpr ⟨Nat.lt_succ_self _, fun o here => ?_⟩
    exact Nat.lt_succ_of_lt (inv.below o here)
  · exact List.pairwise_cons.mpr ⟨fun o here same => unused o here same.symm, inv.newest⟩
  · refine List.forall_mem_cons.mpr ⟨?_, fun o here => ?_⟩
    · simp only [create, opened, closed, noOpens, noCloses, if_true]
      exact ⟨trivial, by decide⟩
    · simp only [create, opened, closed, (elsewhere o here).symm, if_false]
      exact inv.refcount o here
  · refine List.forall_mem_cons.mpr ⟨by simp [create, never], fun o here => ?_⟩
    simpa [create] using inv.unlinked o here
  · exact List.forall_mem_cons.mpr ⟨by simp, inv.alive⟩
  · refine List.forall_mem_cons.mpr ⟨?_, fun o here => ?_⟩
    · simp only [create, freed]
      exact notFreed
    · simp only [create, freed]
      exact inv.live o here
  · have other : id ≠ s.next := fun same => absent _ List.mem_cons_self same.symm
    have old : id < s.next := by
      have given : id < s.next + 1 := given
      lia
    simp only [create, opened, closed, freed, other.symm, if_false]
    simpa using inv.dead id old fun o here => absent o (List.mem_cons_of_mem _ here)
  · have later : s.next + 1 ≤ id := given
    have other : s.next ≠ id := by lia
    simp only [create, opened, closed, freed, other, if_false]
    simpa using inv.fresh id (by lia)
  · have before := inv.held id
    simp only [create, opened, closed]
    by_cases hit : id = s.next
    · subst hit
      simp only [Function.update_self, if_true]
      lia
    · rw [Function.update_of_ne hit, if_neg (Ne.symm hit)]
      lia
  · refine List.pairwise_append.mpr ⟨inv.later, List.pairwise_singleton _ _, fun e old f last => ?_⟩
    obtain rfl := List.mem_singleton.mp last
    intro id unlinked opened
    cases opened
    exact never (unlinked ▸ old)

theorem up_lt {n : Nat} (small : n < 2 ^ 16 - 1) : up n = n + 1 := Nat.mod_eq_of_lt (by lia)

theorem down_pos {n : Nat} (positive : 0 < n) (small : n < 2 ^ 16) : down n = n - 1 := by
  have shift : n + (2 ^ 16 - 1) = (n - 1) + 2 ^ 16 := by lia
  rw [down, shift, Nat.add_mod_right, Nat.mod_eq_of_lt (by lia)]

theorem reopen_inv (inv : Inv tr s) (here : o ∈ s.list) (used : o.unlinked = false)
    (room : o.refcount < 2 ^ 16 - 1) :
    Inv (tr ++ [.opened o.id]) ⟨write s.list o.id (fun o => { o with refcount := up o.refcount }), s.next,
      Function.update s.held o.id (s.held o.id + 1)⟩ := by
  have opened (id : Nat) : opens (tr ++ [.opened o.id]) id = opens tr id + if o.id = id then 1 else 0 := by
    simp [opens, List.count_append, List.count_singleton]
  have closed (id : Nat) : closes (tr ++ [.opened o.id]) id = closes tr id := by
    simp [closes, List.count_append]
  have freed (id : Nat) : frees (tr ++ [.opened o.id]) id = frees tr id := by
    simp [frees, List.count_append]
  have never : .unlinked o.id ∉ tr := fun unlinked => by
    simp [(inv.unlinked o here).mpr unlinked] at used
  refine ⟨?_, ?_, write_newest inv.newest (fun _ => rfl) (fun _ => id), ?_, ?_, ?_, ?_, fun id given absent => ?_,
    fun id given => ?_, fun id => ?_, ?_⟩
  · have same : (write s.list o.id (fun o => { o with refcount := up o.refcount })).map Obj.id =
        s.list.map Obj.id := write_ids fun _ => rfl
    exact same ▸ inv.ids
  · exact forall_write inv.ids here (inv.below o here) fun p there _ => inv.below p there
  · refine forall_write inv.ids here ?_ fun p there other => ?_
    · have before := inv.refcount o here
      simp only [opened, closed, up_lt room, if_true]
      lia
    · simp only [opened, closed, other.symm, if_false]
      exact inv.refcount p there
  · refine forall_write inv.ids here ?_ fun p there other => ?_
    · simpa using inv.unlinked o here
    · simpa using inv.unlinked p there
  · exact forall_write inv.ids here (by simp [used]) fun p there _ => inv.alive p there
  · refine forall_write inv.ids here ?_ fun p there other => ?_
    · simp only [freed]
      exact inv.live o here
    · simp only [freed]
      exact inv.live p there
  · have missing (p : Obj) (there : p ∈ s.list) : p.id ≠ id := by
      have written := absent _ (mem_write.mpr ⟨p, there, rfl⟩)
      split at written <;> exact written
    have other : o.id ≠ id := missing o here
    simp only [opened, closed, freed, other, if_false]
    simpa using inv.dead id given missing
  · have other : o.id ≠ id := Nat.ne_of_lt (Nat.lt_of_lt_of_le (inv.below o here) given)
    simp only [opened, closed, freed, other, if_false]
    simpa using inv.fresh id given
  · have before := inv.held id
    simp only [opened, closed]
    by_cases hit : id = o.id
    · subst hit
      simp only [Function.update_self, if_true]
      lia
    · rw [Function.update_of_ne hit, if_neg (Ne.symm hit)]
      lia
  · refine List.pairwise_append.mpr ⟨inv.later, List.pairwise_singleton _ _, fun e old f last => ?_⟩
    obtain rfl := List.mem_singleton.mp last
    intro id unlinked opened
    cases opened
    exact never (unlinked ▸ old)

/-- A history that goes on with things done to one descriptor, and none of them to open it. -/
structure Extends (tr es : List Event) (id : Nat) : Prop where
  opened : ∀ i, opens (tr ++ es) i = opens tr i
  closed : ∀ i, i ≠ id → closes (tr ++ es) i = closes tr i
  freed : ∀ i, i ≠ id → frees (tr ++ es) i = frees tr i
  unlinked : ∀ i, i ≠ id → (.unlinked i ∈ tr ++ es ↔ .unlinked i ∈ tr)
  later : tr.Pairwise Later → (tr ++ es).Pairwise Later

theorem write_inv (inv : Inv tr s) (here : o ∈ s.list) (grows : Extends tr es o.id) {held : Nat → Nat}
    (heldOther : ∀ i, i ≠ o.id → held i = s.held i)
    (heldHere : held o.id + closes (tr ++ es) o.id = opens tr o.id)
    (keeps : ∀ p, (f p).id = p.id ∧ (f p).name = p.name)
    (more : ∀ p, p.unlinked = true → (f p).unlinked = true)
    (count : (f o).refcount + closes (tr ++ es) o.id = opens tr o.id ∧ (f o).refcount < 2 ^ 16)
    (unlinked : (f o).unlinked = true ↔ .unlinked o.id ∈ tr ++ es)
    (alive : (f o).unlinked = true → (f o).refcount ≠ 0) (freed : frees (tr ++ es) o.id = 0) :
    Inv (tr ++ es) ⟨write s.list o.id f, s.next, held⟩ := by
  refine ⟨?_, ?_, write_newest inv.newest (fun p => (keeps p).2) more, ?_, ?_, ?_, ?_, fun i given absent => ?_,
    fun i given => ?_, fun i => ?_, grows.later inv.later⟩
  · rw [write_ids fun p => (keeps p).1]
    exact inv.ids
  · exact forall_write inv.ids here ((keeps o).1 ▸ inv.below o here) fun p there _ => inv.below p there
  · refine forall_write inv.ids here ?_ fun p there other => ?_
    · rw [(keeps o).1, grows.opened]
      exact count
    · rw [grows.opened, grows.closed _ other]
      exact inv.refcount p there
  · refine forall_write inv.ids here ?_ fun p there other => ?_
    · rw [(keeps o).1]
      exact unlinked
    · rw [grows.unlinked _ other]
      exact inv.unlinked p there
  · exact forall_write inv.ids here alive fun p there _ => inv.alive p there
  · refine forall_write inv.ids here ?_ fun p there other => ?_
    · rw [(keeps o).1]
      exact freed
    · rw [grows.freed _ other]
      exact inv.live p there
  · have missing (p : Obj) (there : p ∈ s.list) : p.id ≠ i := by
      have written := absent _ (mem_write.mpr ⟨p, there, rfl⟩)
      split at written
      · rwa [(keeps p).1] at written
      · exact written
    have other : i ≠ o.id := (missing o here).symm
    rw [grows.freed _ other, grows.unlinked _ other, grows.opened, grows.closed _ other]
    exact inv.dead i given missing
  · have other : i ≠ o.id := (Nat.ne_of_lt (Nat.lt_of_lt_of_le (inv.below o here) given)).symm
    rw [grows.freed _ other, grows.unlinked _ other, grows.opened, grows.closed _ other]
    exact inv.fresh i given
  · rw [grows.opened]
    by_cases hit : i = o.id
    · exact hit ▸ heldHere
    · have other := heldOther i hit
      have before := inv.held i
      rw [grows.closed _ hit]
      show held i + _ = _
      lia

theorem delete_inv (inv : Inv tr s) (here : o ∈ s.list) (grows : Extends tr es o.id) {held : Nat → Nat}
    (heldOther : ∀ i, i ≠ o.id → held i = s.held i)
    (heldHere : held o.id + closes (tr ++ es) o.id = opens tr o.id)
    (even : opens tr o.id = closes (tr ++ es) o.id) (unlinked : .unlinked o.id ∈ tr ++ es)
    (freed : frees (tr ++ es) o.id = 1) :
    Inv (tr ++ es) ⟨delete s.list o.id, s.next, held⟩ := by
  have rest {P : Obj → Prop} (others : ∀ p ∈ s.list, p.id ≠ o.id → P p) :
      ∀ p ∈ delete s.list o.id, P p :=
    fun p there => by
      obtain ⟨there, other⟩ := (delete_ids inv.ids).mp there
      exact others p there other
  have sub : (delete s.list o.id).Sublist s.list := List.eraseP_sublist
  refine ⟨inv.ids.sublist (sub.map _), rest fun p there _ => inv.below p there, inv.newest.sublist sub,
    rest fun p there other => ?_, rest fun p there other => ?_, rest fun p there _ => inv.alive p there,
    rest fun p there other => ?_, fun i given absent => ?_, fun i given => ?_, fun i => ?_,
    grows.later inv.later⟩
  · rw [grows.opened, grows.closed _ other]
    exact inv.refcount p there
  · rw [grows.unlinked _ other]
    exact inv.unlinked p there
  · rw [grows.freed _ other]
    exact inv.live p there
  · by_cases hit : i = o.id
    · subst hit
      rw [grows.opened]
      exact ⟨freed, unlinked, even⟩
    · rw [grows.freed _ hit, grows.unlinked _ hit, grows.opened, grows.closed _ hit]
      refine inv.dead i given fun p there same => ?_
      exact absent p ((delete_ids inv.ids).mpr ⟨there, same ▸ hit⟩) same
  · have other : i ≠ o.id := (Nat.ne_of_lt (Nat.lt_of_lt_of_le (inv.below o here) given)).symm
    rw [grows.freed _ other, grows.unlinked _ other, grows.opened, grows.closed _ other]
    exact inv.fresh i given
  · rw [grows.opened]
    by_cases hit : i = o.id
    · exact hit ▸ heldHere
    · have other := heldOther i hit
      have before := inv.held i
      rw [grows.closed _ hit]
      show held i + _ = _
      lia

/-- Nothing of what close and unlink do opens an object. -/
theorem grows_of {id : Nat} (es : List Event)
    (about : ∀ e ∈ es, e = .closed id ∨ e = .unlinked id ∨ e = .freed id) : Extends tr es id := by
  have absent {e : Event} (other : e ≠ .closed id ∧ e ≠ .unlinked id ∧ e ≠ .freed id) :
      e ∉ es := fun here => by
    rcases about e here with same | same | same
    · exact other.1 same
    · exact other.2.1 same
    · exact other.2.2 same
  refine ⟨fun i => ?_, fun i hi => ?_, fun i hi => ?_, fun i hi => ?_, fun later => ?_⟩
  · rw [opens, List.count_append, List.count_eq_zero_of_not_mem (absent (by simp)), opens, Nat.add_zero]
  · rw [closes, List.count_append, List.count_eq_zero_of_not_mem (absent (by simp [hi])), closes, Nat.add_zero]
  · rw [frees, List.count_append, List.count_eq_zero_of_not_mem (absent (by simp [hi])), frees, Nat.add_zero]
  · rw [List.mem_append, or_iff_left (absent (by simp [hi]))]
  · have never (f : Event) (here : f ∈ es) (e : Event) : Later e f := fun i _ opened =>
      absent (by simp) (opened ▸ here)
    exact List.pairwise_append.mpr ⟨later, List.pairwise_of_forall_mem_list fun e _ f here => never f here e,
      fun e _ f here => never f here e⟩

theorem close_inv (inv : Inv tr s) (closing : closeNamed s id = some (s', es)) : Inv (tr ++ es) s' := by
  simp only [closeNamed] at closing
  split at closing
  · contradiction
  · rename_i o found
    have here := List.mem_of_find?_eq_some found
    obtain rfl : o.id = id := by simpa using List.find?_some found
    split at closing
    · contradiction
    · rename_i open_
      obtain ⟨count, small⟩ := inv.refcount o here
      have held := inv.held o.id
      have positive : 0 < o.refcount := by lia
      have heldOther (i : Nat) (hi : i ≠ o.id) :
          Function.update s.held o.id (s.held o.id - 1) i = s.held i := Function.update_of_ne hi _ _
      rw [down_pos positive small] at closing
      split at closing
      · rename_i last
        cases closing
        have closed : closes (tr ++ [.closed o.id, .freed o.id]) o.id = closes tr o.id + 1 := by
          simp [closes, List.count_append]
        have grows : Extends tr [.closed o.id, .freed o.id] o.id := grows_of _ (by simp)
        rw [delete_write (f := fun o => { o with refcount := down o.refcount }) inv.ids fun _ => rfl]
        refine delete_inv inv here grows heldOther ?_ (by lia) ?_ ?_
        · rw [Function.update_self]
          lia
        · simp [(inv.unlinked o here).mp last.2]
        · simpa [frees, List.count_append, List.count_cons] using inv.live o here
      · rename_i more
        cases closing
        have closed : closes (tr ++ [.closed o.id]) o.id = closes tr o.id + 1 := by
          simp [closes, List.count_append]
        have grows : Extends tr [.closed o.id] o.id := grows_of _ (by simp)
        refine write_inv inv here grows heldOther ?_ (fun _ => ⟨rfl, rfl⟩) (fun _ => id) ?_ ?_ ?_ ?_
        · rw [Function.update_self]
          lia
        · simp only [down_pos positive small]
          lia
        · simpa using inv.unlinked o here
        · simp only [down_pos positive small]
          exact fun unlinked zero => more ⟨zero, unlinked⟩
        · simpa [frees, List.count_append, List.count_cons] using inv.live o here

theorem unlink_inv (inv : Inv tr s) : Inv (tr ++ (unlinkNamed s name).2) (unlinkNamed s name).1 := by
  simp only [unlinkNamed]
  split
  · rename_i o found
    obtain ⟨here, _⟩ := find_some found
    obtain ⟨count, small⟩ := inv.refcount o here
    have held := inv.held o.id
    split
    · rename_i zero
      have closed : closes (tr ++ [.unlinked o.id, .freed o.id]) o.id = closes tr o.id := by
        simp [closes, List.count_append]
      have grows : Extends tr [.unlinked o.id, .freed o.id] o.id := grows_of _ (by simp)
      rw [delete_write (f := fun o => { o with unlinked := true }) inv.ids fun _ => rfl]
      refine delete_inv inv here grows (fun _ _ => rfl) (by lia) (by lia) (by simp) ?_
      simpa [frees, List.count_append, List.count_cons] using inv.live o here
    · rename_i more
      have closed : closes (tr ++ [.unlinked o.id]) o.id = closes tr o.id := by
        simp [closes, List.count_append]
      have grows : Extends tr [.unlinked o.id] o.id := grows_of _ (by simp)
      refine write_inv inv here grows (fun _ _ => rfl) (by lia) (fun _ => ⟨rfl, rfl⟩) ?_ ?_ ?_ ?_ ?_
      · simp
      · exact ⟨by rw [closed]; exact count, small⟩
      · simp
      · exact fun _ => more
      · simpa [frees, List.count_append, List.count_cons] using inv.live o here
  · simpa using inv

theorem open_inv {creat excl memory : Bool} (inv : Inv tr s) (guard : Guard s (.open name creat excl memory)) :
    Inv (tr ++ (openNamed s name creat excl memory).2) (openNamed s name creat excl memory).1 := by
  simp only [openNamed]
  split
  · rename_i creat
    split
    · simpa using inv
    · rename_i found
      split
      · subst creat
        refine create_inv inv fun o here same => ?_
        cases excl with
        | false => exact guard o here same
        | true =>
          have missing : find s.list name = none := by simpa using found
          exact absurd same (find_none missing o here)
      · simpa using inv
  · rename_i plain
    split
    · rename_i o found
      obtain rfl : creat = false := by simpa using plain
      obtain ⟨used, room⟩ : o.unlinked = false ∧ o.refcount < 2 ^ 16 - 1 := by
        cases excl <;> exact guard o found
      exact reopen_inv inv (find_some found).1 used room
    · simpa using inv

theorem step_sem (k : Kind) (s : State) (a : Action) : step k s a = step .sem s a := by
  cases k with
  | sem => rfl
  | mq => cases a <;> rfl

theorem step_inv (inv : Inv tr s) (guard : Guard s a) (taken : step k s a = some (s', es)) :
    Inv (tr ++ es) s' := by
  rw [step_sem] at taken
  cases a with
  | «open» name creat excl memory =>
    have after := open_inv inv guard
    have same : openNamed s name creat excl memory = (s', es) := Option.some.inj taken
    rwa [same] at after
  | close id => exact close_inv inv taken
  | unlink name =>
    have after : Inv (tr ++ (unlinkNamed s name).2) (unlinkNamed s name).1 := unlink_inv inv
    have same : unlinkNamed s name = (s', es) := Option.some.inj taken
    rwa [same] at after

theorem step_found (inv : Inv tr s) (guard : Guard s a) (taken : step k s a = some (s', es)) :
    Found s s' es a := by
  rw [step_sem] at taken
  cases a with
  | close id => trivial
  | unlink name => trivial
  | «open» name creat excl memory =>
    cases excl with
    | true => trivial
    | false =>
      intro o here same used
      cases creat with
      | true =>
        have unlinked := guard o here same
        simp [used] at unlinked
      | false =>
        subst same
        have found := find_used inv.newest here used
        obtain ⟨_, room⟩ := guard o found
        simp only [step, semOpen, openNamed, Bool.false_eq_true, if_false, found] at taken
        cases taken
        refine ⟨rfl, ?_⟩
        refine ⟨_, mem_write.mpr ⟨o, here, rfl⟩, ?_, ?_⟩
        · simp
        · simp [up_lt room]

/-- The condition is no stronger than it has to be. -/
theorem guard_needed (inv : Inv tr s) (taken : step k s a = some (s', es)) (registered : Registered (tr ++ es) s')
    (found : Found s s' es a) : Guard s a := by
  rw [step_sem] at taken
  cases a with
  | close id => trivial
  | unlink name => trivial
  | «open» name creat excl memory =>
    cases creat with
    | true =>
      cases excl with
      | true => trivial
      | false =>
        intro o here same
        by_contra used
        obtain ⟨only, _⟩ := found o here same (by simpa using used)
        simp only [step, semOpen, openNamed, Bool.false_eq_true, false_and, if_true, if_false] at taken
        split at taken
        · cases taken
          have other := inv.below o here
          simp at only
          lia
        · cases taken
          cases only
    | false =>
      have opened (o : Obj) (first : find s.list name = some o) :
          o.unlinked = false ∧ o.refcount < 2 ^ 16 - 1 := by
        simp only [step, semOpen, openNamed, Bool.false_eq_true, if_false, first] at taken
        cases taken
        obtain ⟨here, _⟩ := find_some first
        obtain ⟨count, small⟩ := inv.refcount o here
        refine ⟨?_, ?_⟩
        · by_contra unlinked
          have before := (inv.unlinked o here).mp (by simpa using unlinked)
          have apart := (List.pairwise_append.mp registered.later).2.2 _ before _ List.mem_cons_self
          exact apart o.id rfl rfl
        · by_contra full
          have last : o.refcount = 2 ^ 16 - 1 := by lia
          have after := registered.refcount _ (mem_write.mpr ⟨o, here, rfl⟩)
          simp only [if_true, last] at after
          simp only [opens, closes, List.count_append, up] at after count
          simp at after
          lia
      cases excl <;> exact opened

theorem run_inv (run : RunWhere (machine k) Guard tr s) : Inv tr s := by
  refine run.invariant (I := Inv) (fun s start => ?_) fun _ _ _ _ _ _ inv guard taken => step_inv inv guard taken
  cases start
  exact ⟨by simp [init], by simp [init], by simp [init], by simp [init], by simp [init], by simp [init],
    by simp [init], by simp [init], by simp [opens, closes, frees], by simp [init, opens, closes], by simp⟩

/-- The registry is as it should be in every run in which nothing is created over a name in use, and
none but an object in use is opened; after the first step that does otherwise it is not. -/
theorem registry_kept {k : Kind} {tr : List Event} {s : State} (run : RunWhere (machine k) Guard tr s) :
    Registered tr s ∧ ∀ a s' es, step k s a = some (s', es) →
      (Registered (tr ++ es) s' ∧ Found s s' es a ↔ Guard s a) := by
  have inv := run_inv run
  refine ⟨inv.registered, fun a s' es taken =>
    ⟨fun both => guard_needed inv taken both.1 both.2, fun guard => ?_⟩⟩
  exact ⟨(step_inv inv guard taken).registered, step_found inv guard taken⟩

def nameA : Name := ⟨[97], by decide, by decide⟩

/-- Opened twice, unlinked, closed twice and so freed, and created anew. -/
theorem registry_kept_anew : ∃ s, s.list = [⟨1, nameA, 1, false⟩] ∧
    Registered [.opened 0, .opened 0, .unlinked 0, .closed 0, .closed 0, .freed 0, .opened 1] s := by
  obtain ⟨s, run, found⟩ : ∃ s, Run ((machine .sem).restrict (fun s a => decide (Guard s a)))
      [.opened 0, .opened 0, .unlinked 0, .closed 0, .closed 0, .freed 0, .opened 1] s ∧
        decide (s.list = [⟨1, nameA, 1, false⟩]) = true :=
    Run.shows (s := init) rfl
      [.open nameA true true true, .open nameA false false true, .unlink nameA, .close 0, .close 0,
        .open nameA true false true] _ _ (by decide)
  have guarded := RunWhere.ofRestrict (fun _ _ _ _ => of_decide_eq_true) run
  exact ⟨s, of_decide_eq_true found, (registry_kept guarded).1⟩

/-- O_CREAT makes a second object of a name in use; and an unlinked one is opened again. -/
theorem registry_lost :
    (∃ tr s, Run (machine .sem) tr s ∧ ¬Registered tr s) ∧
      ∃ s, Run (machine .mq) [.opened 0, .unlinked 0, .opened 0] s := by
  refine ⟨?_, ?_⟩
  · obtain ⟨tr, s, run, found⟩ : ∃ tr s, Run (machine .sem) tr s ∧
        decide (s.list = [⟨1, nameA, 1, false⟩, ⟨0, nameA, 1, false⟩]) = true :=
      Run.reaches (s := init) rfl [.open nameA true false true, .open nameA true false true] _ (by decide)
    refine ⟨tr, s, run, fun registered => ?_⟩
    have one := registered.one
    rw [of_decide_eq_true found] at one
    have same := one ⟨1, nameA, 1, false⟩ (by simp) ⟨0, nameA, 1, false⟩ (by simp) rfl rfl rfl
    cases same
  · obtain ⟨s, run, _⟩ : ∃ s, Run (machine .mq) [.opened 0, .unlinked 0, .opened 0] s ∧ true = true :=
      Run.shows (s := init) rfl [.open nameA true true true, .unlink nameA, .open nameA false false true] _
        (fun _ => true) (by decide)
    exact ⟨s, run⟩

end RtThread.Pthread.Named

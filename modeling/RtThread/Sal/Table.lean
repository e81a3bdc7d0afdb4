import RtThread.Sal.Calls

/-! The socket table over any sequence of calls: every socket is where its descriptor says, no call
meets an empty slot, and a call that fails takes and leaves no slot. -/
namespace RtThread.Sal
open Transition

variable {D : Type} {w : World D} {st tb : Table D} {i : Nat} {sock : SalSocket D} {socket : Int} {c : Call D}
  {out : Outcome} {es : List Event} {r : Result D}

def Call.descriptor : Call D → Option Int
  | .socket .. => none
  | .accept socket .. | .bind socket .. | .closesocket socket .. | .shutdown socket .. | .getpeername socket ..
  | .getsockname socket .. | .getsockopt socket .. | .setsockopt socket .. | .connect socket ..
  | .listen socket .. | .recvfrom socket .. | .sendto socket .. | .ioctlsocket socket .. | .poll socket .. =>
    some socket

structure Safe (w : World D) (st : Table D) (c : Call D) (r : Result D) : Prop where
  emptySlot : r.outcome ≠ .fault .emptySlot
  badMagic : r.outcome ≠ .fault .badMagic
  invalid : ∀ socket ∈ c.descriptor, live w st socket = none → r.outcome = .ret (-1)
  wf : Wf w r.table
  unchanged : ∀ v, v < 0 → r.outcome = .ret v → ∀ i, Occupied r.table i ↔ Occupied st i

/-- An interface that socket_init finds has a socket function; it finds one in sal_accept; the family
closes a socket without an error. -/
def Careful (w : World D) (st : Table D) : Call D → Prop
  | .socket net domain type _ memory _ _ => hasRoom w st memory = true →
      ∀ d ∈ initNetdev w net domain type, ∀ pf ∈ w.pf d, pf.ops .socket = true
  | .accept socket net later memory lower => ∀ x ∈ (enter w st socket (some net) .accept).toOption,
      lower ≠ -1 → hasRoom w st memory = true → initNetdev w later x.1.domain x.1.type = none →
        x.2.ops .closesocket = false
  | .closesocket socket lower _ => ∀ x ∈ (enter w st socket none .closesocket).toOption, lower = 0
  | _ => True

/-- No descriptor is of an empty slot of the table, and the call is careful. -/
def Guard (w : World D) (st : Table D) (c : Call D) : Prop :=
  (∀ socket ∈ c.descriptor, slot w st socket ≠ some none) ∧ Careful w st c

theorem Plain.faults (plain : Plain out) : out ≠ .fault .emptySlot ∧ out ≠ .fault .badMagic := by
  obtain ⟨v, rfl⟩ | rfl := plain
  · simp
  · simp

theorem guard_some (named : c.descriptor = some socket) (careful : Careful w st c) :
    Guard w st c ↔ slot w st socket ≠ some none := by
  simp [Guard, named, careful]

theorem got_slot (got : socketObjGet w st socket = .ok sock) :
    live w st socket = some sock ∧ slot w st socket ≠ some none := by
  rw [live, (objGet_ok got).1]
  simp

/-- A call that ends before the table is changed, with an answer of its own or a null pointer. -/
theorem plain_safe (wf : Wf w tb) (same : ∀ i, Occupied tb i ↔ Occupied st i) (named : c.descriptor = some socket)
    (got : socketObjGet w st socket = .ok sock) (plain : Plain out) : Safe w st c ⟨tb, es, out⟩ := by
  refine ⟨plain.faults.1, plain.faults.2, fun _ here dead => ?_, wf, fun _ _ _ => same⟩
  cases named.symm.trans here
  rw [(got_slot got).1] at dead
  contradiction

/-- A call that does not get a socket is safe exactly when the slot is not an empty one. -/
theorem stopped_safe (wf : Wf w st) (stopped : socketObjGet w st socket = .error out) :
    Safe w st c ⟨st, es, out⟩ ↔ slot w st socket ≠ some none := by
  rw [objGet_slot wf] at stopped
  cases here : slot w st socket with
  | none =>
    rw [here] at stopped
    cases stopped
    exact ⟨fun _ => by simp, fun _ => ⟨by simp, by simp, fun _ _ _ => rfl, wf, fun _ _ _ _ => Iff.rfl⟩⟩
  | some x =>
    rw [here] at stopped
    cases x with
    | none =>
      cases stopped
      exact ⟨fun safe => absurd rfl safe.emptySlot, fun apart => absurd rfl apart⟩
    | some sock => contradiction

theorem enter_safe {op : Op} {n : Option (Net D)} (wf : Wf w st) (named : c.descriptor = some socket)
    (stopped : enter w st socket n op = .error out) :
    Safe w st c ⟨st, es, out⟩ ↔ slot w st socket ≠ some none := by
  obtain none_ | ⟨⟨sock, got⟩, plain⟩ := enter_error stopped
  · exact stopped_safe wf none_
  · exact iff_of_true (plain_safe wf (fun _ => Iff.rfl) named got plain) (got_slot got).2

theorem asks_safe (wf : Wf w st) (named : c.descriptor = some socket) (asks : Asks w st socket r) :
    Safe w st c r ↔ slot w st socket ≠ some none := by
  cases asks with
  | stopped none_ => exact stopped_safe wf none_
  | plain got plain =>
    exact iff_of_true (plain_safe wf (fun _ => Iff.rfl) named got plain) (got_slot got).2

theorem Free.vacant (free : Free st tb i) : ¬Occupied st i := by
  rw [← free.occupied i]
  rintro ⟨sock, here⟩
  rw [free.2] at here
  cases here

theorem set_occupied (low : i < tb.length) : Occupied (tb.set i (some sock)) i :=
  ⟨sock, List.getElem?_set_self low⟩

theorem socket_safe {net : Net D} {domain type protocol : Int} {memory : Memory} {lower : Int} {tls : Nat}
    (wf : Wf w st) (opens : Opens w st net domain type protocol memory lower tls r) :
    Safe w st (.socket net domain type protocol memory lower tls) r ↔
      Guard w st (.socket net domain type protocol memory lower tls) := by
  have guard : Guard w st (.socket net domain type protocol memory lower tls) ↔ (hasRoom w st memory = true →
      ∀ d ∈ initNetdev w net domain type, ∀ pf ∈ w.pf d, pf.ops .socket = true) := by
    simp [Guard, Call.descriptor, Careful]
  rw [guard]
  have failed (tb : Table D) (es : List Event) (wf : Wf w tb) (same : ∀ i, Occupied tb i ↔ Occupied st i) :
      Safe w st (.socket net domain type protocol memory lower tls) ⟨tb, es, .ret (-1)⟩ :=
    ⟨by simp, by simp, fun _ named => by simp [Call.descriptor] at named, wf, fun _ _ _ => same⟩
  have able {d : D} {pf : ProtoFamily} (found : initNetdev w net domain type = some d) (family : w.pf d = some pf)
      (able : pf.ops .socket = true) : hasRoom w st memory = true →
        ∀ d ∈ initNetdev w net domain type, ∀ pf ∈ w.pf d, pf.ops .socket = true := by
    intro _ d' found' pf' family'
    cases found.symm.trans found'
    cases family.symm.trans family'
    exact able
  cases opens with
  | full k full =>
    exact iff_of_true (failed _ _ (wf.grown k) (grown_occupied st k)) (fun room => by simp [full] at room)
  | homeless free room absent =>
    refine iff_of_true (failed _ _ (free.wf wf) free.occupied) fun _ d found => ?_
    rw [absent] at found
    contradiction
  | unable free room found family unable =>
    refine iff_of_false (fun safe => ?_) fun able => ?_
    · exact free.vacant ((safe.unchanged (-1) (by decide) rfl _).mp (set_occupied free.lt))
    · have able := able room _ found _ family
      simp [unable] at able
  | refused free room found family ables negative =>
    exact iff_of_true (failed _ _ (free.wf wf) free.occupied) (able found family ables)
  | leaked free room found family ables lent secure null =>
    exact iff_of_true (failed _ _ (free.wf wf) free.occupied) (able found family ables)
  | opened userDataTls free room found family ables lent secure =>
    refine iff_of_true ⟨by simp, by simp, fun _ named => by simp [Call.descriptor] at named, ?_, ?_⟩
      (able found family ables)
    · refine (free.wf wf).set fun sock made => ?_
      cases made
      exact ⟨rfl, rfl⟩
    · intro v negative same
      cases same
      lia

theorem accept_safe {net later : Net D} {memory : Memory} {lower : Int} (wf : Wf w st)
    (accepts : Accepts w st socket net later memory lower r) :
    Safe w st (.accept socket net later memory lower) r ↔ Guard w st (.accept socket net later memory lower) := by
  have careful {sock : SalSocket D} {pf : ProtoFamily}
      (entered : enter w st socket (some net) .accept = .ok (sock, pf)) :
      Guard w st (.accept socket net later memory lower) ↔ (lower ≠ -1 → hasRoom w st memory = true →
        initNetdev w later sock.domain sock.type = none → pf.ops .closesocket = false) := by
    simp [Guard, Call.descriptor, Careful, entered, Except.toOption, (got_slot (enter_ok entered).1).2]
  cases accepts with
  | stopped stopped =>
    refine (enter_safe wf rfl stopped).trans (guard_some rfl ?_).symm
    simp [Careful, stopped, Except.toOption]
  | refused entered none_ =>
    refine iff_of_true (plain_safe wf (fun _ => Iff.rfl) rfl (enter_ok entered).1 (.inl ⟨-1, rfl⟩)) ?_
    exact (careful entered).mpr fun some_ => absurd none_ some_
  | full k entered some_ full able =>
    refine iff_of_true (plain_safe (wf.grown k) (grown_occupied st k) rfl (enter_ok entered).1 (.inl ⟨-1, rfl⟩)) ?_
    exact (careful entered).mpr fun _ room => by simp [full] at room
  | fullNull k entered some_ full unable =>
    refine iff_of_true (plain_safe (wf.grown k) (grown_occupied st k) rfl (enter_ok entered).1 (.inr rfl)) ?_
    exact (careful entered).mpr fun _ _ _ => unable
  | homeless entered some_ room free absent able =>
    refine iff_of_false (fun safe => absurd rfl safe.badMagic) fun guard => ?_
    have unable := (careful entered).mp guard some_ room absent
    simp [able] at unable
  | homelessNull entered some_ room free absent unable magic own netdev =>
    refine iff_of_true ⟨by simp, by simp, fun other named dead => ?_, ?_, by simp⟩
      ((careful entered).mpr fun _ _ _ => unable)
    · cases named
      simp [(got_slot (enter_ok entered).1).1] at dead
    · refine (free.wf wf).set fun sock made => ?_
      cases made
      exact ⟨magic, own⟩
  | accepted entered some_ room free found =>
    refine iff_of_true ⟨by simp, by simp, fun other named dead => ?_, ?_, ?_⟩
      ((careful entered).mpr fun _ _ absent => by simp [found] at absent)
    · cases named
      simp [(got_slot (enter_ok entered).1).1] at dead
    · refine (free.wf wf).set fun sock made => ?_
      cases made
      exact ⟨rfl, rfl⟩
    · intro v negative same
      cases same
      lia

theorem bind_safe {net : Net D} {addr : Nat} {proto lower : Int} (wf : Wf w st)
    (binds : Binds w st socket net addr proto lower r) :
    Safe w st (.bind socket net addr proto lower) r ↔ Guard w st (.bind socket net addr proto lower) := by
  have guard : Guard w st (.bind socket net addr proto lower) ↔ slot w st socket ≠ some none :=
    guard_some rfl trivial
  rw [guard]
  have went {sock : SalSocket D} {es : List Event} {out : Outcome} (got : socketObjGet w st socket = .ok sock)
      (plain : Plain out) :
      Safe w st (.bind socket net addr proto lower) ⟨st, es, out⟩ ↔ slot w st socket ≠ some none :=
    iff_of_true (plain_safe wf (fun _ => Iff.rfl) rfl got plain) (got_slot got).2
  cases binds with
  | stopped none_ => exact stopped_safe wf none_
  | stayed got _ plain => exact went got plain
  | noClose got _ _ => exact went got (.inr rfl)
  | noSocket got _ _ _ => exact went got (.inr rfl)
  | refused got _ _ _ _ => exact went got (.inl ⟨-1, rfl⟩)
  | moved got moves closes opens natural =>
    rename_i sock localPf inputPf d
    refine iff_of_true ?_ (got_slot got).2
    obtain ⟨i, rfl, here⟩ := objGet_live got
    obtain ⟨magic, own⟩ := wf i sock here
    rw [write_natCast]
    refine plain_safe (wf.set fun other made => ?_) (fun j => ?_) rfl got (.inl ⟨lower, rfl⟩)
    · cases made
      exact ⟨magic, own⟩
    · refine ⟨fun ⟨other, there⟩ => ?_, fun ⟨other, there⟩ => ?_⟩
      · by_cases hit : i = j
        · exact ⟨sock, hit ▸ here⟩
        · rw [List.getElem?_set_ne hit] at there
          exact ⟨other, there⟩
      · by_cases hit : i = j
        · exact hit ▸ set_occupied (List.getElem?_eq_some_iff.mp here).1
        · exact ⟨other, by rwa [List.getElem?_set_ne hit]⟩

theorem close_safe {lower tls : Int} (wf : Wf w st) (closes : Closes w st socket lower tls r) :
    Safe w st (.closesocket socket lower tls) r ↔ Guard w st (.closesocket socket lower tls) := by
  have careful {sock : SalSocket D} {pf : ProtoFamily}
      (entered : enter w st socket none .closesocket = .ok (sock, pf)) :
      Guard w st (.closesocket socket lower tls) ↔ lower = 0 := by
    simp [Guard, Call.descriptor, Careful, entered, Except.toOption, (got_slot (enter_ok entered).1).2]
  cases closes with
  | stopped stopped =>
    refine (enter_safe wf rfl stopped).trans (guard_some rfl ?_).symm
    simp [Careful, stopped, Except.toOption]
  | stuck entered done secure negative =>
    exact iff_of_true (plain_safe wf (fun _ => Iff.rfl) rfl (enter_ok entered).1 (.inl ⟨-1, rfl⟩))
      ((careful entered).mpr done)
  | freed entered goes =>
    rw [careful entered]
    obtain ⟨i, rfl, here⟩ := objGet_live (enter_ok entered).1
    rw [write_natCast]
    refine ⟨fun safe => ?_, fun done => ⟨by simp, by simp, fun other named dead => ?_, ?_, ?_⟩⟩
    · by_contra failed
      obtain ⟨other, there⟩ := (safe.unchanged (-1) (by decide) (by simp [failed]) i).mpr ⟨_, here⟩
      rw [List.getElem?_set_self (List.getElem?_eq_some_iff.mp here).1] at there
      cases there
    · cases named
      simp [(got_slot (enter_ok entered).1).1] at dead
    · exact wf.set fun other made => by simp at made
    · intro v negative same
      rw [if_pos done] at same
      cases same
      contradiction

theorem perform_safe (wf : Wf w st) (c : Call D) : Safe w st c (perform w st c) ↔ Guard w st c := by
  have asked {socket : Int} (named : c.descriptor = some socket) (careful : Careful w st c)
      (asks : Asks w st socket (perform w st c)) : Safe w st c (perform w st c) ↔ Guard w st c :=
    (asks_safe wf named asks).trans (guard_some named careful).symm
  cases c with
  | socket net domain type protocol memory lower tls => exact socket_safe wf (salSocket_opens ..)
  | accept socket net later memory lower => exact accept_safe wf (salAccept_accepts ..)
  | bind socket net addr proto lower => exact bind_safe wf (salBind_binds ..)
  | closesocket socket lower tls => exact close_safe wf (salClosesocket_closes ..)
  | _ => exact asked rfl trivial (perform_asks rfl)

theorem init_wf (w : World D) : Wf w (init w) := by
  intro i sock here
  rw [init, List.getElem?_replicate] at here
  split at here <;> cases here

/-- In every run whose calls meet the condition the table is well formed, and the next call is safe
exactly when it meets the condition as well. -/
theorem table_safe {tr : List Event} {s : State D}
    (run : RunWhere (machine w) (fun s c => Guard w s.table c) tr s) :
    Wf w s.table ∧ ∀ c, Safe w s.table c (perform w s.table c) ↔ Guard w s.table c := by
  have wf : Wf w s.table := by
    refine run.invariant (I := fun _ s => Wf w s.table) (fun s start => ?_)
      fun tr s c s' es _ wf guard taken => ?_
    · cases start
      exact init_wf w
    · obtain ⟨_, taken⟩ := Option.ite_none_left_eq_some.mp taken
      cases taken
      exact ((perform_safe wf c).mpr guard).wf
  exact ⟨wf, perform_safe wf⟩

instance [DecidableEq D] (w : World D) (st : Table D) (c : Call D) : Decidable (Careful w st c) :=
  match c with
  | .socket net domain type _ memory _ _ => inferInstanceAs (Decidable (hasRoom w st memory = true →
      ∀ d ∈ initNetdev w net domain type, ∀ pf ∈ w.pf d, pf.ops .socket = true))
  | .accept socket net later memory lower => inferInstanceAs (Decidable
      (∀ x ∈ (enter w st socket (some net) .accept).toOption,
        lower ≠ -1 → hasRoom w st memory = true → initNetdev w later x.1.domain x.1.type = none →
          x.2.ops .closesocket = false))
  | .closesocket socket lower _ =>
    inferInstanceAs (Decidable (∀ x ∈ (enter w st socket none .closesocket).toOption, lower = 0))
  | .bind .. | .shutdown .. | .getpeername .. | .getsockname .. | .getsockopt .. | .setsockopt .. | .connect ..
  | .listen .. | .recvfrom .. | .sendto .. | .ioctlsocket .. | .poll .. => isTrue trivial

instance [DecidableEq D] (w : World D) (st : Table D) (c : Call D) : Decidable (Guard w st c) :=
  inferInstanceAs (Decidable (_ ∧ _))

/-- One interface of the family 2, and no TLS. -/
def plainWorld (ops : Op → Bool) : World Unit := ⟨6, 0, fun _ => some ⟨2, 2, ops⟩, false, none⟩

def plainNet (up : Bool) : Net Unit := ⟨some (), [()], fun _ => up, fun _ => 7⟩

def plenty : Memory := ⟨true, true⟩

def openCall (lower : Int) : Call Unit := .socket (plainNet true) 2 1 0 plenty lower 0

def fullWorld : World Unit := plainWorld fun _ => true

def sendCall (socket : Int) : Call Unit := .sendto socket (plainNet true) 3 0

/-- The table grows; a slot is used again; a descriptor out of the table is refused. -/
theorem table_safe_grown : ∃ s : State Unit, s.table.length = 6 ∧ Wf fullWorld s.table ∧
    Safe fullWorld s.table (sendCall 9) (perform fullWorld s.table (sendCall 9)) := by
  obtain ⟨tr, s, run, found⟩ : ∃ (tr : _) (s : State Unit),
      Run ((machine fullWorld).restrict fun s c => decide (Guard fullWorld s.table c)) tr s ∧
        (decide (s.table.length = 6) && decide (Guard fullWorld s.table (sendCall 9))) = true :=
    Run.reaches (s := ⟨init fullWorld, false⟩) rfl
      [openCall 3, openCall 4, openCall 5, openCall 6, .closesocket 1 0 0, openCall 7,
        .accept 2 (plainNet true) (plainNet true) plenty 8, .bind 4 (plainNet true) 7 0 0,
        .connect (-1) (plainNet true) 0 0] _ (by decide)
  have guarded : RunWhere (machine fullWorld) (fun s c => Guard fullWorld s.table c) tr s :=
    RunWhere.ofRestrict (fun _ _ _ _ => of_decide_eq_true) run
  obtain ⟨length, guard⟩ := (Bool.and_eq_true _ _).mp found
  have safe := table_safe guarded
  exact ⟨s, of_decide_eq_true length, safe.1, (safe.2 _).mpr (of_decide_eq_true guard)⟩

def Unsafe (w : World Unit) (c : Call Unit) : Prop :=
  ∃ (tr : List Event) (s : State Unit), Run (machine w) tr s ∧ ¬Safe w s.table c (perform w s.table c)

/-- A descriptor is used after it is closed; an accept finds the interface gone down; a family has no
socket function; one fails to close. -/
theorem table_unsafe :
    Unsafe fullWorld (sendCall 0) ∧
      Unsafe fullWorld (.accept 0 (plainNet true) (plainNet false) plenty 4) ∧
      Unsafe (plainWorld (· ≠ .socket)) (openCall 3) ∧ Unsafe fullWorld (.closesocket 0 (-1) 0) := by
  refine ⟨?_, ?_, ?_, ?_⟩
  · obtain ⟨tr, s, run, found⟩ : ∃ (tr : _) (s : State Unit), Run (machine fullWorld) tr s ∧
        decide ((perform fullWorld s.table (sendCall 0)).outcome = .fault .emptySlot) = true :=
      Run.reaches (s := ⟨init fullWorld, false⟩) rfl [openCall 3, .closesocket 0 0 0] _ (by decide)
    exact ⟨tr, s, run, fun safe => safe.emptySlot (of_decide_eq_true found)⟩
  · obtain ⟨tr, s, run, found⟩ : ∃ (tr : _) (s : State Unit), Run (machine fullWorld) tr s ∧
        decide ((perform fullWorld s.table
          (.accept 0 (plainNet true) (plainNet false) plenty 4)).outcome = .fault .badMagic) = true :=
      Run.reaches (s := ⟨init fullWorld, false⟩) rfl [openCall 3] _ (by decide)
    exact ⟨tr, s, run, fun safe => safe.badMagic (of_decide_eq_true found)⟩
  · refine ⟨[], ⟨init _, false⟩, .start rfl, fun safe => ?_⟩
    obtain ⟨sock, here⟩ := (safe.unchanged (-1) (by decide) (by decide) 0).mp ⟨_, rfl⟩
    cases here
  · obtain ⟨tr, s, run, found⟩ : ∃ (tr : _) (s : State Unit), Run (machine fullWorld) tr s ∧
        (((s.table[0]?).join.isSome &&
          decide ((perform fullWorld s.table (.closesocket 0 (-1) 0)).outcome = .ret (-1))) &&
            ((perform fullWorld s.table (.closesocket 0 (-1) 0)).table[0]?).join.isNone) = true :=
      Run.reaches (s := ⟨init fullWorld, false⟩) rfl [openCall 3] _ (by decide)
    refine ⟨tr, s, run, fun safe => ?_⟩
    simp only [Bool.and_eq_true, decide_eq_true_eq] at found
    obtain ⟨sock, here⟩ := Option.isSome_iff_exists.mp found.1.1
    have occupied : Occupied s.table 0 := ⟨sock, Option.join_eq_some_iff.mp here⟩
    obtain ⟨after, there⟩ := (safe.unchanged (-1) (by decide) found.1.2 0).mpr occupied
    simp [there] at found

end RtThread.Sal

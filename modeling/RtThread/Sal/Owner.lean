import RtThread.Sal.Calls

/-! The numbers that the protocol families give out: each belongs to one socket, or has been closed. -/
namespace RtThread.Sal
open Transition

variable {D : Type} {w : World D} {st tb : Table D} {i : Nat} {sock : SalSocket D} {socket : Int} {c : Call D}
  {r : Result D} {d : D} {pf : ProtoFamily} {tr es : List Event} {e : Event} {f n : Int} {own : Int → Int → Nat}

def acquires (tr : List Event) (f n : Int) : Nat := tr.count (.acquired f n)
def closes (tr : List Event) (f n : Int) : Nat := tr.count (.closed f n)

/-- The socket has the number as its user_data, for the family of its interface. -/
def holds (w : World D) (f n : Int) (x : Option (SalSocket D)) : Bool :=
  x.any fun sock => (sock.netdev.bind w.pf).any (·.family = f) && sock.userData = n

def owners (w : World D) (st : Table D) (f n : Int) : Nat := st.countP (holds w f n)

/-- A number that is closed has been given out and not been closed since. -/
def Held (tr : List Event) : Event → Prop
  | .closed f n => closes tr f n < acquires tr f n
  | .acquired _ _ => True

/-- Each number given out is the user_data of one socket, or closed once. -/
structure Owned (w : World D) (tr : List Event) (st : Table D) : Prop where
  balance : ∀ f n, acquires tr f n = closes tr f n + owners w st f n
  once : ∀ f n, owners w st f n ≤ 1
  held : Each Held tr

/-- The layer over its protocol families, that give no number that is in use. -/
structure Backed (D : Type) where
  sal : State D
  lent : Int → Int → Bool

def serve (lent : Int → Int → Bool) : Event → Option (Int → Int → Bool)
  | .acquired f n => if lent f n then none else some (Function.update lent f (Function.update (lent f) n true))
  | .closed f n => some (Function.update lent f (Function.update (lent f) n false))

def stepBacked (w : World D) (s : Backed D) (c : Call D) : Option (Backed D × List Event) :=
  (step w s.sal c).bind fun r => (r.2.foldlM serve s.lent).map fun lent => (⟨r.1, lent⟩, r.2)

def backed (w : World D) : Machine (Backed D) (Call D) Event :=
  ⟨(· = ⟨⟨init w, false⟩, fun _ _ => false⟩), stepBacked w⟩

/-- The interface of the socket that an accept makes, where it makes one. -/
def home (w : World D) (st : Table D) (later : Net D) (memory : Memory) (sock : SalSocket D) : Option D :=
  if hasRoom w st memory then initNetdev w later sock.domain sock.type else none

/-- A socket is opened of an interface with a socket function, and the TLS layer does not fail; accept
gives no negative number but -1, and the socket it makes stays in the family; only a socket that has its
own descriptor for user_data is bound to another family, and there is one there; a socket that is
closed is closed by the TLS layer as well. -/
def Tidy (w : World D) (st : Table D) : Call D → Prop
  | .socket net domain type protocol memory lower tls => hasRoom w st memory = true →
      ∀ d ∈ initNetdev w net domain type, ∀ pf ∈ w.pf d,
        pf.ops .socket = true ∧ (0 ≤ lower → protoTlsValid w protocol .socket = true → tls ≠ 0)
  | .accept socket net later memory lower => ∀ x ∈ (enter w st socket (some net) .accept).toOption, lower ≠ -1 →
      (home w st later memory x.1 = none → (x.2.ops .closesocket = true ↔ 0 ≤ lower)) ∧
        ∀ d ∈ home w st later memory x.1, 0 ≤ lower ∧ ∀ pf ∈ w.pf d, pf.family = x.2.family
  | .bind socket net addr proto _ => ∀ sock ∈ (socketObjGet w st socket).toOption,
      ∀ m ∈ rebind w net addr sock, m.1.ops .closesocket = true →
        sock.userData = socket ∧ m.2.2.ops .socket = true ∧ 0 ≤ proto
  | .closesocket socket lower tls => ∀ x ∈ (enter w st socket none .closesocket).toOption,
      ¬(lower = 0 ∧ protoTlsValid w x.1.protocol .closesocket = true ∧ tls < 0)
  | _ => True

instance [DecidableEq D] (w : World D) (st : Table D) (c : Call D) : Decidable (Tidy w st c) := by
  unfold Tidy
  cases c <;> dsimp only <;> infer_instance

@[simp] theorem acquires_acquired (tr : List Event) (f n f' n' : Int) :
    acquires (tr ++ [.acquired f n]) f' n' = acquires tr f' n' + if f = f' ∧ n = n' then 1 else 0 := by
  simp [acquires, List.count_append, List.count_singleton]

@[simp] theorem acquires_closed (tr : List Event) (f n f' n' : Int) :
    acquires (tr ++ [.closed f n]) f' n' = acquires tr f' n' := by
  simp [acquires, List.count_append]

@[simp] theorem closes_acquired (tr : List Event) (f n f' n' : Int) :
    closes (tr ++ [.acquired f n]) f' n' = closes tr f' n' := by
  simp [closes, List.count_append]

@[simp] theorem closes_closed (tr : List Event) (f n f' n' : Int) :
    closes (tr ++ [.closed f n]) f' n' = closes tr f' n' + if f = f' ∧ n = n' then 1 else 0 := by
  simp [closes, List.count_append, List.count_singleton]

/-- Who owns what, as a history leaves it. -/
def Ledger (tr : List Event) (own : Int → Int → Nat) : Prop :=
  (∀ f n, acquires tr f n = closes tr f n + own f n) ∧ Each Held tr

theorem Ledger.acquire (ledger : Ledger tr own) (f n : Int) :
    Ledger (tr ++ [.acquired f n]) fun f' n' => own f' n' + if f = f' ∧ n = n' then 1 else 0 := by
  refine ⟨fun f' n' => ?_, .snoc ledger.2 trivial⟩
  simp only [acquires_acquired, closes_acquired, ledger.1]
  omega

theorem Ledger.close (ledger : Ledger tr own) {own' : Int → Int → Nat}
    (less : ∀ f' n', own' f' n' + (if f = f' ∧ n = n' then 1 else 0) = own f' n') :
    Ledger (tr ++ [.closed f n]) own' := by
  refine ⟨fun f' n' => ?_, .snoc ledger.2 ?_⟩
  · rw [acquires_closed, closes_closed, ledger.1, ← less]
    omega
  · have here := less f n
    have before := ledger.1 f n
    simp only [and_self, if_true] at here
    show closes tr f n < acquires tr f n
    omega

/-- What is lent is what has been given out and not closed. -/
def Served (tr : List Event) (lent : Int → Int → Bool) : Prop :=
  ∀ f n, acquires tr f n = closes tr f n + if lent f n then 1 else 0

theorem served_snoc {lent lent' : Int → Int → Bool} (served : Served tr lent) (right : Held tr e)
    (serves : serve lent e = some lent') : Served (tr ++ [e]) lent' := by
  intro f' n'
  have old := served f' n'
  cases e with
  | acquired f n =>
    rw [serve, Option.ite_none_left_eq_some] at serves
    obtain ⟨free, same⟩ := serves
    cases same
    rw [acquires_acquired, closes_acquired]
    by_cases hf : f' = f
    · subst hf
      by_cases hn : n' = n
      · subst hn
        simp only [free] at old
        simp [old]
      · simp [hn, Ne.symm hn, old]
    · simp [hf, Ne.symm hf, old]
  | closed f n =>
    cases serves
    rw [acquires_closed, closes_closed]
    by_cases hf : f' = f
    · subst hf
      by_cases hn : n' = n
      · subst hn
        have right : closes tr f' n' < acquires tr f' n' := right
        have bound : (if lent f' n' = true then 1 else 0) ≤ 1 := by split <;> decide
        simp only [and_self, if_true, Function.update_self, Bool.false_eq_true, if_false]
        omega
      · simp [hn, Ne.symm hn, old]
    · simp [hf, Ne.symm hf, old]

theorem served_append {lent lent' : Int → Int → Bool} (served : Served tr lent)
    (serves : es.foldlM serve lent = some lent') (each : Each Held (tr ++ es)) : Served (tr ++ es) lent' := by
  induction es generalizing tr lent with
  | nil =>
    cases serves
    simpa using served
  | cons e rest ih =>
    rw [List.foldlM_cons] at serves
    obtain ⟨mid, first, later⟩ := Option.bind_eq_some_iff.mp serves
    have longer : tr ++ e :: rest = (tr ++ [e]) ++ rest := by simp
    rw [longer] at each ⊢
    exact ih (served_snoc served (each_snoc.mp (each_append each)).2 first) later each

theorem Owned.of_ledger {lent : Int → Int → Bool} (ledger : Ledger tr (owners w st)) (served : Served tr lent) :
    Owned w tr st := by
  refine ⟨ledger.1, fun f n => ?_, ledger.2⟩
  have sum := ledger.1 f n
  have one := served f n
  have bound : (if lent f n = true then 1 else 0) ≤ 1 := by split <;> decide
  omega

theorem holds_some (netdev : sock.netdev = some d) (family : w.pf d = some pf) :
    holds w f n (some sock) = decide (pf.family = f ∧ sock.userData = n) := by
  simp [holds, netdev, family]

theorem holds_homeless (netdev : sock.netdev = none) : holds w f n (some sock) = false := by
  simp [holds, netdev]

theorem owners_grown (st : Table D) (k : Nat) : owners w (st ++ List.replicate k none) f n = owners w st f n := by
  simp [owners, holds, List.countP_append, List.countP_replicate]

theorem owners_set {x y : Option (SalSocket D)} (here : st[i]? = some x) :
    owners w (st.set i y) f n + (if holds w f n x then 1 else 0) =
      owners w st f n + if holds w f n y then 1 else 0 := by
  obtain ⟨low, same⟩ := List.getElem?_eq_some_iff.mp here
  have counted := List.countP_set (p := holds w f n) (a := y) low
  have positive : (if holds w f n st[i] = true then 1 else 0) ≤ st.countP (holds w f n) := by
    split
    · rename_i held
      exact List.countP_pos_iff.mpr ⟨_, List.getElem_mem low, held⟩
    · exact Nat.zero_le _
  rw [same] at counted positive
  rw [owners, counted, owners]
  omega

theorem Free.owners (free : Free st tb i) : owners w tb f n = owners w st f n := by
  obtain ⟨⟨k, rfl⟩, _⟩ := free
  exact owners_grown st k

theorem Free.owners_set (free : Free st tb i) (netdev : sock.netdev = some d) (family : w.pf d = some pf) :
    Sal.owners w (tb.set i (some sock)) f n =
      Sal.owners w st f n + if pf.family = f ∧ sock.userData = n then 1 else 0 := by
  have set := Sal.owners_set (w := w) (f := f) (n := n) (y := some sock) free.2
  rw [free.owners, holds_some netdev family] at set
  simpa [holds] using set

theorem Free.owners_homeless (free : Free st tb i) (netdev : sock.netdev = none) :
    Sal.owners w (tb.set i (some sock)) f n = Sal.owners w st f n := by
  have set := Sal.owners_set (w := w) (f := f) (n := n) (y := some sock) free.2
  rw [free.owners, holds_homeless netdev] at set
  simpa [holds] using set

theorem Ledger.congr {own' : Int → Int → Nat} (ledger : Ledger tr own) (same : ∀ f n, own' f n = own f n) :
    Ledger tr own' :=
  ⟨fun f n => by rw [same, ledger.1], ledger.2⟩

theorem Ledger.bounce (ledger : Ledger tr own) (f n : Int) : Ledger (tr ++ [.acquired f n, .closed f n]) own := by
  have both : tr ++ [.acquired f n, .closed f n] = tr ++ [.acquired f n] ++ [.closed f n] := by simp
  rw [both]
  exact (ledger.acquire f n).close fun _ _ => rfl

theorem Ledger.not_closed {own' : Int → Int → Nat} (ledger : Ledger tr own) (same : own' f n = own f n) :
    ¬Ledger (tr ++ [.closed f n]) own' := fun after => by
  have before := ledger.1 f n
  have sum := after.1 f n
  rw [acquires_closed, closes_closed, if_pos ⟨rfl, rfl⟩] at sum
  omega

theorem Ledger.not_acquired {own' : Int → Int → Nat} (ledger : Ledger tr own) (same : own' f n = own f n) :
    ¬Ledger (tr ++ [.acquired f n]) own' := fun after => by
  have before := ledger.1 f n
  have sum := after.1 f n
  rw [acquires_acquired, closes_acquired, if_pos ⟨rfl, rfl⟩] at sum
  omega

theorem Ledger.not_kept {own' : Int → Int → Nat} (ledger : Ledger tr own) (more : own f n < own' f n) :
    ¬Ledger (tr ++ []) own' := fun after => by
  have before := ledger.1 f n
  have sum := after.1 f n
  rw [List.append_nil] at sum
  omega

theorem socket_ledger {net : Net D} {domain type protocol : Int} {memory : Memory} {lower : Int} {tls : Nat}
    (ledger : Ledger tr (owners w st)) (opens : Opens w st net domain type protocol memory lower tls r) :
    Ledger (tr ++ r.events) (owners w r.table) ↔
      Tidy w st (.socket net domain type protocol memory lower tls) := by
  have quiet {tb : Table D} (same : ∀ f n, owners w tb f n = owners w st f n) :
      Ledger (tr ++ []) (owners w tb) := by
    rw [List.append_nil]
    exact ledger.congr same
  have tidy {d : D} {pf : ProtoFamily} (room : hasRoom w st memory = true)
      (found : initNetdev w net domain type = some d) (family : w.pf d = some pf) :
      Tidy w st (.socket net domain type protocol memory lower tls) ↔ pf.ops .socket = true ∧
        (0 ≤ lower → protoTlsValid w protocol .socket = true → tls ≠ 0) := by
    simp [Tidy, room, found, family]
  cases opens with
  | full k full =>
    exact iff_of_true (quiet fun _ _ => owners_grown st k) fun room => by simp [full] at room
  | homeless free room absent =>
    exact iff_of_true (quiet fun _ _ => free.owners) fun _ => by simp [absent]
  | unable free room found family unable =>
    rename_i i d pf
    rw [tidy room found family]
    refine iff_of_false (fun after => ?_) fun able => by simp [unable] at able
    refine ledger.not_kept (f := pf.family) (n := 0) ?_ after
    rw [free.owners_set rfl family]
    simp [initialized, blank, zeroed]
  | refused free room found family able negative =>
    rw [tidy room found family]
    exact iff_of_true (quiet fun _ _ => free.owners) ⟨able, fun lent => absurd negative (Int.not_lt.mpr lent)⟩
  | leaked free room found family able lent secure null =>
    rw [tidy room found family]
    exact iff_of_false (ledger.not_acquired free.owners) fun tidy => tidy.2 lent secure null
  | opened userDataTls free room found family able lent secure =>
    rw [tidy room found family]
    refine iff_of_true ((ledger.acquire _ _).congr fun f n => ?_) ⟨able, fun _ => secure⟩
    exact free.owners_set rfl family

theorem close_ledger {lower tls : Int} (ledger : Ledger tr (owners w st))
    (closes : Closes w st socket lower tls r) :
    Ledger (tr ++ r.events) (owners w r.table) ↔ Tidy w st (.closesocket socket lower tls) := by
  cases closes with
  | stopped stopped =>
    refine iff_of_true ?_ (by simp [Tidy, stopped, Except.toOption])
    rw [List.append_nil]
    exact ledger
  | stuck entered done secure negative =>
    refine iff_of_false (ledger.not_closed rfl) fun tidy => ?_
    exact tidy _ (by rw [entered]; rfl) ⟨done, secure, negative⟩
  | freed entered goes =>
    obtain ⟨got, valid⟩ := enter_ok entered
    obtain ⟨⟨d, netdev, family⟩, _⟩ := valid_ok valid
    obtain ⟨i, rfl, here⟩ := objGet_live got
    refine iff_of_true (ledger.close fun f n => ?_) (by simpa [Tidy, entered, Except.toOption] using goes)
    have set := owners_set (w := w) (f := f) (n := n) (y := none) here
    rw [holds_some netdev family] at set
    rw [write_natCast]
    simpa [holds] using set

theorem accept_ledger {net later : Net D} {memory : Memory} {lower : Int} (ledger : Ledger tr (owners w st))
    (accepts : Accepts w st socket net later memory lower r) :
    Ledger (tr ++ r.events) (owners w r.table) ↔ Tidy w st (.accept socket net later memory lower) := by
  have away {sock : SalSocket D} {pf : ProtoFamily}
      (entered : enter w st socket (some net) .accept = .ok (sock, pf)) (some_ : lower ≠ -1)
      (none_ : home w st later memory sock = none) :
      Tidy w st (.accept socket net later memory lower) ↔ (pf.ops .closesocket = true ↔ 0 ≤ lower) := by
    simp [Tidy, entered, Except.toOption, some_, none_]
  have bounced {tb : Table D} {f : Int} (same : ∀ f n, owners w tb f n = owners w st f n) :
      Ledger (tr ++ (given f lower ++ [.closed f lower])) (owners w tb) ↔ 0 ≤ lower := by
    rw [given]
    split
    · rename_i natural
      exact iff_of_true ((ledger.bounce f lower).congr same) natural
    · rename_i negative
      exact iff_of_false (ledger.not_closed (same f lower)) negative
  have lost {tb : Table D} {f : Int} (same : ∀ f n, owners w tb f n = owners w st f n) :
      Ledger (tr ++ given f lower) (owners w tb) ↔ ¬0 ≤ lower := by
    rw [given]
    split
    · rename_i natural
      exact iff_of_false (ledger.not_acquired (same f lower)) (not_not.mpr natural)
    · rename_i negative
      rw [List.append_nil]
      exact iff_of_true (ledger.congr same) negative
  cases accepts with
  | stopped stopped =>
    refine iff_of_true ?_ (by simp [Tidy, stopped, Except.toOption])
    rw [List.append_nil]
    exact ledger
  | refused entered none_ =>
    refine iff_of_true ?_ fun _ _ some_ => absurd none_ some_
    rw [List.append_nil]
    exact ledger
  | full k entered some_ full able =>
    rw [away entered some_ (by simp [home, full]), bounced fun _ _ => owners_grown st k]
    simp [able]
  | fullNull k entered some_ full unable =>
    rw [away entered some_ (by simp [home, full]), lost fun _ _ => owners_grown st k]
    simp [unable]
  | homeless entered some_ room free absent able =>
    rw [away entered some_ (by simp [home, room, absent]), bounced fun f n => ?_]
    · simp [able]
    · exact free.owners_homeless rfl
  | homelessNull entered some_ room free absent unable magic own netdev =>
    rw [away entered some_ (by simp [home, room, absent]), lost fun f n => ?_]
    · simp [unable]
    · exact free.owners_homeless netdev
  | accepted entered some_ room free found =>
    rename_i sock pf tb i d
    obtain ⟨mine, family⟩ := initNetdev_pf found
    have tidy : Tidy w st (.accept socket net later memory lower) ↔ 0 ≤ lower ∧ mine.family = pf.family := by
      simp [Tidy, entered, Except.toOption, some_, home, room, found, family]
    have made (f n : Int) : owners w (tb.set i (some
        { initialized (blank w i) sock.domain sock.type sock.protocol d with userData := lower })) f n =
          owners w st f n + if mine.family = f ∧ lower = n then 1 else 0 :=
      free.owners_set rfl family
    rw [tidy, given]
    split
    · rename_i natural
      by_cases same : mine.family = pf.family
      · exact iff_of_true ((ledger.acquire pf.family lower).congr (same ▸ made)) ⟨natural, same⟩
      · refine iff_of_false (ledger.not_acquired ?_) fun both => same both.2
        rw [made, if_neg fun both => same both.1, Nat.add_zero]
    · rename_i negative
      refine iff_of_false (ledger.not_kept (f := mine.family) (n := lower) ?_) fun both => negative both.1
      rw [made, if_pos ⟨rfl, rfl⟩]
      exact Nat.lt_succ_self _

theorem bind_ledger {net : Net D} {addr : Nat} {proto lower : Int} (ledger : Ledger tr (owners w st))
    (binds : Binds w st socket net addr proto lower r) :
    Ledger (tr ++ r.events) (owners w r.table) ↔ Tidy w st (.bind socket net addr proto lower) := by
  have tidy {sock : SalSocket D} {localPf inputPf : ProtoFamily} {d : D}
      (got : socketObjGet w st socket = .ok sock) (moves : rebind w net addr sock = some (localPf, d, inputPf)) :
      Tidy w st (.bind socket net addr proto lower) ↔ (localPf.ops .closesocket = true →
        sock.userData = socket ∧ inputPf.ops .socket = true ∧ 0 ≤ proto) := by
    simp [Tidy, got, Except.toOption, moves]
  have quiet : Ledger (tr ++ []) (owners w st) := by
    rw [List.append_nil]
    exact ledger
  cases binds with
  | stopped none_ => exact iff_of_true quiet (by simp [Tidy, none_, Except.toOption])
  | stayed got stays plain => exact iff_of_true quiet (by simp [Tidy, got, Except.toOption, stays])
  | noClose got moves unable =>
    rw [tidy got moves]
    exact iff_of_true quiet fun able => by simp [unable] at able
  | noSocket got moves able unable =>
    rw [tidy got moves]
    exact iff_of_false (ledger.not_closed rfl) fun all => by simpa [unable] using (all able).2.1
  | refused got moves able opens negative =>
    rw [tidy got moves]
    exact iff_of_false (ledger.not_closed rfl) fun all => absurd negative (Int.not_lt.mpr (all able).2.2)
  | moved got moves able opens natural =>
    rename_i sock localPf inputPf d
    rw [tidy got moves]
    obtain ⟨localValid, inputValid, other⟩ := rebind_some moves
    obtain ⟨⟨d', netdev, family⟩, _⟩ := valid_ok localValid
    obtain ⟨⟨d'', same, newFamily⟩, _⟩ := valid_ok inputValid
    cases same
    obtain ⟨i, rfl, here⟩ := objGet_live got
    have left (f n : Int) : owners w (st.set i none) f n +
        (if localPf.family = f ∧ sock.userData = n then 1 else 0) = owners w st f n := by
      have set := owners_set (w := w) (f := f) (n := n) (y := none) here
      rw [holds_some netdev family] at set
      simpa [holds] using set
    have emptied : Free (st.set i none) (st.set i none) i := by
      refine ⟨⟨0, by simp⟩, ?_⟩
      exact List.getElem?_set_self (List.getElem?_eq_some_iff.mp here).1
    have put (f n : Int) : owners w (st.set i (some { sock with netdev := some d, userData := proto })) f n =
        owners w (st.set i none) f n + if inputPf.family = f ∧ proto = n then 1 else 0 := by
      have set : owners w ((st.set i none).set i (some { sock with netdev := some d, userData := proto })) f n =
          owners w (st.set i none) f n + if inputPf.family = f ∧ proto = n then 1 else 0 :=
        emptied.owners_set rfl newFamily
      rwa [List.set_set] at set
    have both : tr ++ [.closed localPf.family (i + w.socketOffset), .acquired inputPf.family proto] =
        tr ++ [.closed localPf.family (i + w.socketOffset)] ++ [.acquired inputPf.family proto] := by simp
    simp only [write_natCast]
    rw [both]
    refine ⟨fun after _ => ⟨?_, opens, natural⟩, fun all => ?_⟩
    · by_contra apart
      have before := ledger.1 localPf.family sock.userData
      have sum := after.1 localPf.family sock.userData
      have gone := left localPf.family sock.userData
      rw [if_pos ⟨rfl, rfl⟩] at gone
      rw [acquires_acquired, closes_acquired, acquires_closed, closes_closed, put,
        if_neg (fun both => other both.1), if_neg (fun both => apart both.2.symm)] at sum
      omega
    · have mine := (all able).1
      rw [← mine]
      exact ((ledger.close left).acquire inputPf.family proto).congr put

theorem perform_ledger (ledger : Ledger tr (owners w st)) (c : Call D) :
    Ledger (tr ++ (perform w st c).events) (owners w (perform w st c).table) ↔ Tidy w st c := by
  have asked {socket : Int} (tidy : Tidy w st c) (asks : Asks w st socket (perform w st c)) :
      Ledger (tr ++ (perform w st c).events) (owners w (perform w st c).table) ↔ Tidy w st c := by
    refine iff_of_true ?_ tidy
    generalize perform w st c = r at asks
    cases asks with
    | stopped _ | plain _ _ =>
      rw [List.append_nil]
      exact ledger
  cases c with
  | socket net domain type protocol memory lower tls => exact socket_ledger ledger (salSocket_opens ..)
  | accept socket net later memory lower => exact accept_ledger ledger (salAccept_accepts ..)
  | bind socket net addr proto lower => exact bind_ledger ledger (salBind_binds ..)
  | closesocket socket lower tls => exact close_ledger ledger (salClosesocket_closes ..)
  | _ => exact asked trivial (perform_asks rfl)

/-- A step of the layer over its families is a call. -/
theorem stepBacked_call {s s' : Backed D} (taken : stepBacked w s c = some (s', es)) :
    es = (perform w s.sal.table c).events ∧ s'.sal.table = (perform w s.sal.table c).table ∧
      es.foldlM serve s.lent = some s'.lent := by
  obtain ⟨r, stepped, more⟩ := Option.bind_eq_some_iff.mp taken
  obtain ⟨lent, serves, same⟩ := Option.map_eq_some_iff.mp more
  obtain ⟨_, done⟩ := Option.ite_none_left_eq_some.mp stepped
  cases done
  cases same
  exact ⟨rfl, rfl, serves⟩

theorem step_owned {s s' : Backed D} (ledger : Ledger tr (owners w s.sal.table)) (served : Served tr s.lent)
    (taken : stepBacked w s c = some (s', es)) :
    Owned w (tr ++ es) s'.sal.table ↔ Tidy w s.sal.table c := by
  obtain ⟨rfl, table, serves⟩ := stepBacked_call taken
  have tidy := perform_ledger ledger c
  rw [← table] at tidy
  rw [← tidy]
  exact ⟨fun owned => ⟨owned.balance, owned.held⟩,
    fun after => .of_ledger after (served_append served serves after.2)⟩

theorem run_ledger {s : Backed D} (run : RunWhere (backed w) (fun s c => Tidy w s.sal.table c) tr s) :
    Ledger tr (owners w s.sal.table) ∧ Served tr s.lent := by
  refine run.invariant (I := fun tr s => Ledger tr (owners w s.sal.table) ∧ Served tr s.lent) (fun s start => ?_)
    fun tr s c s' es _ before tidy taken => ?_
  · cases start
    refine ⟨⟨fun f n => ?_, .nil⟩, fun f n => by simp [acquires, closes]⟩
    simp [acquires, closes, owners, init, holds, List.countP_replicate]
  · have owned := (step_owned before.1 before.2 taken).mpr tidy
    obtain ⟨_, _, serves⟩ := stepBacked_call taken
    exact ⟨⟨owned.balance, owned.held⟩, served_append before.2 serves owned.held⟩

/-- In every run of tidy calls each number has one owner or has been closed, and after the next call
that is so exactly when the call is tidy as well. -/
theorem numbers_owned {tr : List Event} {s : Backed D}
    (run : RunWhere (backed w) (fun s c => Tidy w s.sal.table c) tr s) :
    Owned w tr s.sal.table ∧ ∀ c s' es, stepBacked w s c = some (s', es) →
      (Owned w (tr ++ es) s'.sal.table ↔ Tidy w s.sal.table c) := by
  obtain ⟨ledger, served⟩ := run_ledger run
  exact ⟨.of_ledger ledger served, fun c s' es taken => step_owned ledger served taken⟩

/-- Two interfaces, of the families 2 and 45; the second takes sockets of 2 as well. -/
def twoWorld (ops : Op → Bool) (protoTls : Option (TlsOp → Bool)) : World Bool :=
  ⟨6, 0, fun d => some ⟨if d then 45 else 2, 2, ops⟩, true, protoTls⟩

def twoNet (default : Bool) : Net Bool := ⟨some default, [false, true], fun _ => true, fun d => if d then 8 else 7⟩

def tcp (lower : Int) : Call Bool := .socket (twoNet false) 2 1 0 ⟨true, true⟩ lower 0

/-- A number is used again after it was closed, and a socket changes over to the other family. -/
def ownedTrace : List Event :=
  [.acquired 2 0, .closed 2 0, .acquired 45 5, .acquired 2 1, .acquired 2 0, .closed 2 1, .acquired 2 1,
    .closed 45 5]

theorem numbers_owned_two : ∃ s : Backed Bool, Owned (twoWorld (fun _ => true) none) ownedTrace s.sal.table := by
  obtain ⟨s, run, _⟩ : ∃ s, Run ((backed (twoWorld (fun _ => true) none)).restrict fun s c =>
      decide (Tidy (twoWorld (fun _ => true) none) s.sal.table c)) ownedTrace s ∧ true = true :=
    Run.shows (s := ⟨⟨init _, false⟩, fun _ _ => false⟩) rfl
      [tcp 0, .bind 0 (twoNet false) 8 5 0, tcp 1, .accept 1 (twoNet false) (twoNet false) ⟨true, true⟩ 0,
        .closesocket 1 0 0, tcp 1, .closesocket 0 (-1) 0] _ (fun _ => true) (by decide)
  have guarded : RunWhere (backed (twoWorld (fun _ => true) none))
      (fun s c => Tidy (twoWorld (fun _ => true) none) s.sal.table c) ownedTrace s :=
    RunWhere.ofRestrict (fun _ _ _ _ => of_decide_eq_true) run
  exact ⟨s, (numbers_owned guarded).1⟩

/-- Some calls after which the numbers are not owned as they should. -/
def Disowned (w : World Bool) (tr : List Event) : Prop :=
  ∃ s : Backed Bool, Run (backed w) tr s ∧ ¬Owned w tr s.sal.table

theorem disowned_of {w : World Bool} {tr : List Event} (cs : List (Call Bool)) (f n : Int)
    (found : ((backed w).exec ⟨⟨init w, false⟩, fun _ _ => false⟩ cs).any (fun r => decide (r.2 = tr) &&
      decide (acquires tr f n ≠ closes tr f n + owners w r.1.sal.table f n)) = true) : Disowned w tr := by
  obtain ⟨s, run, apart⟩ := Run.shows (M := backed w) rfl cs tr
    (fun s => decide (acquires tr f n ≠ closes tr f n + owners w s.sal.table f n)) found
  exact ⟨s, run, fun owned => of_decide_eq_true apart (owned.balance f n)⟩

/-- The descriptor is closed in place of the number; the number is kept after it was closed; it goes to a
socket of another family; the TLS layer gives no socket, or fails to close one; a family has no socket
function; an accept gives -2. -/
theorem numbers_disowned :
    Disowned (twoWorld (fun _ => true) none) [.acquired 2 3, .closed 2 0, .acquired 45 5] ∧
      Disowned (twoWorld (fun _ => true) none) [.acquired 2 0, .closed 2 0, .closed 2 0] ∧
      Disowned (twoWorld (fun _ => true) none) [.acquired 2 3, .acquired 2 4, .closed 45 4] ∧
      Disowned (twoWorld (fun _ => true) (some fun _ => true)) [.acquired 2 3] ∧
      Disowned (twoWorld (fun _ => true) (some fun _ => true)) [.acquired 2 3, .closed 2 3, .closed 2 3] ∧
      Disowned (twoWorld (· ≠ .socket) none) [.closed 2 0] ∧
      Disowned (twoWorld (fun _ => true) none) [.acquired 2 3, .closed 2 (-2)] := by
  refine ⟨?_, ?_, ?_, ?_, ?_, ?_, ?_⟩
  · exact disowned_of [tcp 3, .bind 0 (twoNet false) 8 5 0] 2 0 (by decide)
  · exact disowned_of [tcp 0, .bind 0 (twoNet false) 8 (-1) 0, .closesocket 0 0 0] 2 0 (by decide)
  · exact disowned_of [tcp 3, .accept 0 (twoNet false) (twoNet true) ⟨true, true⟩ 4, .closesocket 1 0 0] 2 4
      (by decide)
  · exact disowned_of [.socket (twoNet false) 2 1 256 ⟨true, true⟩ 3 0] 2 3 (by decide)
  · exact disowned_of
      [.socket (twoNet false) 2 1 256 ⟨true, true⟩ 3 9, .closesocket 0 0 (-1), .closesocket 0 0 0] 2 3 (by decide)
  · exact disowned_of [tcp 3, .closesocket 0 0 0] 2 0 (by decide)
  · exact disowned_of [tcp 3, .accept 0 (twoNet false) (twoNet false) ⟨true, true⟩ (-2), .closesocket 1 0 0] 2 (-2)
      (by decide)

end RtThread.Sal

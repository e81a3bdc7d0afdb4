import RtThread.Sal

/-! What each call of the socket abstraction layer can do, path by path. -/
namespace RtThread.Sal
open Transition

variable {D : Type} {w : World D} {st tb : Table D} {i : Nat} {memory : Memory} {net later : Net D}
  {domain type protocol : Int} {d : D} {pf : ProtoFamily} {sock : SalSocket D} {socket : Int}
  {x : Option (SalSocket D)}

def Occupied (st : Table D) (i : Nat) : Prop := ∃ sock, st[i]? = some (some sock)

/-- "check socket structure valid or not". -/
def Wf (w : World D) (st : Table D) : Prop :=
  ∀ (i : Nat) (sock : SalSocket D), st[i]? = some (some sock) →
    sock.magic = salSocketMagic ∧ sock.socket = i + w.socketOffset

def live (w : World D) (st : Table D) (socket : Int) : Option (SalSocket D) := (slot w st socket).join

/-- socket_new finds a slot or makes one, and fills it. -/
def hasRoom (w : World D) (st : Table D) (memory : Memory) : Bool :=
  (st.any (·.isNone) || (st.length < w.socketsNum && memory.realloc)) && memory.calloc

/-- The interface that socket_init finds. -/
def initNetdev (w : World D) (net : Net D) (family type : Int) : Option D :=
  if family < 0 ∨ afMax < family ∨ type < 0 ∨ sockMax < type then none else socketNetdev w net family

/-- A table that has grown, with an empty slot. -/
def Free (st tb : Table D) (i : Nat) : Prop := (∃ k, tb = st ++ List.replicate k none) ∧ tb[i]? = some none

/-- The socket that socket_new makes. -/
def blank (w : World D) (i : Nat) : SalSocket D :=
  { (zeroed : SalSocket D) with socket := i + w.socketOffset, magic := salSocketMagic }

theorem blank_magic (w : World D) (i : Nat) : (blank w i).magic = salSocketMagic := rfl

theorem grown_occupied (st : Table D) (k i : Nat) : Occupied (st ++ List.replicate k none) i ↔ Occupied st i := by
  refine exists_congr fun sock => ?_
  rw [List.getElem?_append]
  split
  · rfl
  · rename_i beyond
    rw [List.getElem?_eq_none (Nat.not_lt.mp beyond), List.getElem?_replicate]
    split <;> simp

theorem Wf.grown (wf : Wf w st) (k : Nat) : Wf w (st ++ List.replicate k none) := by
  intro i sock here
  obtain ⟨old, there⟩ := (grown_occupied st k i).mp ⟨sock, here⟩
  have low := (List.getElem?_eq_some_iff.mp there).1
  rw [List.getElem?_append_left low] at here
  exact wf i sock here

theorem Free.wf (free : Free st tb i) (wf : Wf w st) : Wf w tb := by
  obtain ⟨⟨k, rfl⟩, _⟩ := free
  exact wf.grown k

theorem Free.occupied (free : Free st tb i) (j : Nat) : Occupied tb j ↔ Occupied st j := by
  obtain ⟨⟨k, rfl⟩, _⟩ := free
  exact grown_occupied st k j

theorem Free.lt (free : Free st tb i) : i < tb.length := (List.getElem?_eq_some_iff.mp free.2).1

theorem Free.set_none (free : Free st tb i) : tb.set i none = tb := by
  obtain ⟨low, here⟩ := List.getElem?_eq_some_iff.mp free.2
  rw [← here]
  exact List.set_getElem_self low

theorem Wf.set (wf : Wf w st) (good : ∀ sock ∈ x, sock.magic = salSocketMagic ∧ sock.socket = i + w.socketOffset) :
    Wf w (st.set i x) := by
  intro j sock here
  rw [List.getElem?_set] at here
  split at here
  · rename_i same
    subst same
    split at here
    · exact good sock (Option.some.inj here)
    · contradiction
  · exact wf j sock here

theorem slot_natCast (w : World D) (st : Table D) (i : Nat) : slot w st (i + w.socketOffset) = st[i]? := by
  have index : (i : Int) + w.socketOffset - w.socketOffset = i := Int.add_sub_cancel _ _
  rw [slot, index, if_neg (Int.not_lt.mpr (Int.natCast_nonneg i)), Int.toNat_natCast]

theorem write_natCast (w : World D) (st : Table D) (i : Nat) (x : Option (SalSocket D)) :
    write w st (i + w.socketOffset) x = st.set i x := by
  rw [write, Int.add_sub_cancel, Int.toNat_natCast]

theorem get_set (low : i < tb.length) (magic : sock.magic = salSocketMagic) :
    salGetSocket w (tb.set i (some sock)) (i + w.socketOffset) = .ok (some sock) := by
  rw [salGetSocket, slot_natCast, List.getElem?_set_self low]
  exact if_pos magic

theorem Free.delete (free : Free st tb i) (magic : sock.magic = salSocketMagic) :
    socketDelete w (tb.set i (some sock)) (i + w.socketOffset) = (tb, none) := by
  rw [socketDelete, get_set free.lt magic]
  simp only [write_natCast, List.set_set, free.set_none]

/-- What socket_alloc gives: its table, and where there is room an empty slot of it. -/
theorem socketAlloc_spec (w : World D) (st : Table D) (memory : Memory) :
    (hasRoom w st memory = false → ∃ k, socketAlloc w st memory =
        (st ++ List.replicate k none, (st ++ List.replicate k none).length)) ∧
      (hasRoom w st memory = true → ∃ tb i, Free st tb i ∧
        socketAlloc w st memory = (tb.set i (some zeroed), i)) := by
  have found : st.findIdx (·.isNone) < st.length ↔ st.any (·.isNone) = true := by
    rw [List.findIdx_lt_length, List.any_eq_true]
  simp only [socketAlloc, hasRoom]
  by_cases low : st.findIdx (·.isNone) < st.length
  · have empty : st[st.findIdx (·.isNone)]? = some none := by
      rw [List.getElem?_eq_getElem low]
      simpa using List.findIdx_getElem (w := low)
    have partial_ : ¬(st.findIdx (·.isNone) = st.length ∧ st.length < w.socketsNum) := fun both => by omega
    simp only [partial_, decide_false, Bool.false_and, Bool.false_eq_true, if_false, empty, found.mp low,
      Bool.true_or, Bool.true_and]
    refine ⟨fun spare => ⟨0, by simp [spare]⟩, fun spare => ⟨st, _, ⟨⟨0, by simp⟩, empty⟩, by simp [spare]⟩⟩
  · have last : st.findIdx (·.isNone) = st.length := Nat.le_antisymm List.findIdx_le_length (Nat.not_lt.mp low)
    have none_ : st.any (·.isNone) = false := Bool.eq_false_iff.mpr fun any => low (found.mpr any)
    simp only [last, none_, Bool.false_or, true_and]
    by_cases room : st.length < w.socketsNum
    · cases realloc : memory.realloc with
      | false => exact ⟨fun _ => ⟨0, by simp [room]⟩, fun spare => by simp [room] at spare⟩
      | true =>
        have more : 0 < min (st.length + socketTableStepLen) w.socketsNum - st.length := by
          simp only [socketTableStepLen]
          omega
        have empty : (st ++ List.replicate (min (st.length + socketTableStepLen) w.socketsNum - st.length)
            (none : Option (SalSocket D)))[st.length]? = some none := by
          rw [List.getElem?_append_right (Nat.le_refl _), Nat.sub_self, List.getElem?_replicate, if_pos more]
        simp only [room, decide_true, Bool.true_and, Bool.not_true, Bool.false_eq_true, if_false, if_true, empty]
        exact ⟨fun spare => ⟨min (st.length + socketTableStepLen) w.socketsNum - st.length, by simp [spare]⟩,
          fun spare => ⟨_, _, ⟨⟨_, rfl⟩, empty⟩, by simp [spare]⟩⟩
    · refine ⟨fun _ => ⟨0, ?_⟩, fun spare => by simp [room] at spare⟩
      simp [room]

theorem socketNew_full (full : hasRoom w st memory = false) :
    ∃ k, socketNew w st memory = (st ++ List.replicate k none, -1) := by
  obtain ⟨k, alloc⟩ := (socketAlloc_spec w st memory).1 full
  refine ⟨k, ?_⟩
  rw [socketNew, alloc]
  simp only [if_true, Prod.mk.injEq, true_and]
  omega

theorem socketNew_room (room : hasRoom w st memory = true) :
    ∃ tb i, Free st tb i ∧ socketNew w st memory = (tb.set i (some (blank w i)), (i : Int) + w.socketOffset) := by
  obtain ⟨tb, i, free, alloc⟩ := (socketAlloc_spec w st memory).2 room
  refine ⟨tb, i, free, ?_⟩
  have inside : i ≠ (tb.set i (some zeroed)).length := by
    rw [List.length_set]
    exact Nat.ne_of_lt free.lt
  rw [socketNew, alloc]
  simp only [if_neg inside, List.set_set, blank]

theorem socketNetdev_pf (found : socketNetdev w net domain = some d) : ∃ pf, w.pf d = some pf := by
  have any {p : ProtoFamily → Bool} (holds : (w.pf d).any p = true) : ∃ pf, w.pf d = some pf :=
    ((Option.any_eq_true _ _).mp holds).imp fun _ both => both.1
  have listed {p : ProtoFamily → Bool} (found : net.list.find? (fun d => (w.pf d).any p && net.up d) = some d) :
      ∃ pf, w.pf d = some pf := by
    have holds := List.find?_some found
    rw [Bool.and_eq_true] at holds
    exact any holds.1
  rw [socketNetdev, Option.or_eq_some_iff] at found
  obtain default | ⟨_, family⟩ := found
  · have holds := (Option.filter_eq_some_iff.mp default).2
    rw [Bool.and_eq_true] at holds
    exact any holds.2
  · rw [netdevGetByFamily, Option.or_eq_some_iff] at family
    exact family.elim listed fun both => listed both.2

theorem initNetdev_pf (found : initNetdev w net domain type = some d) : ∃ pf, w.pf d = some pf := by
  rw [initNetdev, Option.ite_none_left_eq_some] at found
  exact socketNetdev_pf found.2

theorem socketInit_none (protocol : Int) (absent : initNetdev w net domain type = none) (sock : SalSocket D) :
    ∃ made retval, socketInit w net domain type protocol sock = (made, retval) ∧ retval < 0 ∧
      made.magic = sock.magic ∧ made.socket = sock.socket ∧ made.netdev = sock.netdev := by
  rw [initNetdev] at absent
  rw [socketInit]
  split
  · exact ⟨sock, -1, rfl, by decide, rfl, rfl, rfl⟩
  · rename_i family
    split
    · exact ⟨sock, -2, rfl, by decide, rfl, rfl, rfl⟩
    · rename_i kind
      rw [if_neg (fun any => by tauto)] at absent
      simp only [absent]
      exact ⟨_, -3, rfl, by decide, rfl, rfl, rfl⟩

/-- What socket_init makes of a socket. -/
def initialized (sock : SalSocket D) (domain type protocol : Int) (d : D) : SalSocket D :=
  { sock with domain := domain, type := type, protocol := protocol, netdev := some d }

theorem socketInit_some (found : initNetdev w net domain type = some d) (sock : SalSocket D) :
    socketInit w net domain type protocol sock = (initialized sock domain type protocol d, 0) := by
  rw [initNetdev, Option.ite_none_left_eq_some] at found
  obtain ⟨valid, found⟩ := found
  rw [socketInit, if_neg (fun any => valid (by tauto)), if_neg (fun any => valid (by tauto))]
  simp only [found, initialized]

/-- What sal_socket can do. -/
inductive Opens (w : World D) (st : Table D) (net : Net D) (domain type protocol : Int) (memory : Memory)
    (lower : Int) (tls : Nat) : Result D → Prop where
  | full (k : Nat) : hasRoom w st memory = false →
      Opens w st net domain type protocol memory lower tls ⟨st ++ List.replicate k none, [], .ret (-1)⟩
  | homeless {tb : Table D} {i : Nat} : Free st tb i → hasRoom w st memory = true →
      initNetdev w net domain type = none →
      Opens w st net domain type protocol memory lower tls ⟨tb, [], .ret (-1)⟩
  | unable {tb : Table D} {i : Nat} {d : D} {pf : ProtoFamily} : Free st tb i → hasRoom w st memory = true →
      initNetdev w net domain type = some d → w.pf d = some pf → pf.ops .socket = false →
      Opens w st net domain type protocol memory lower tls
        ⟨tb.set i (some (initialized (blank w i) domain type protocol d)), [], .ret (-1)⟩
  | refused {tb : Table D} {i : Nat} {d : D} {pf : ProtoFamily} : Free st tb i → hasRoom w st memory = true →
      initNetdev w net domain type = some d → w.pf d = some pf → pf.ops .socket = true → lower < 0 →
      Opens w st net domain type protocol memory lower tls ⟨tb, [], .ret (-1)⟩
  | leaked {tb : Table D} {i : Nat} {d : D} {pf : ProtoFamily} : Free st tb i → hasRoom w st memory = true →
      initNetdev w net domain type = some d → w.pf d = some pf → pf.ops .socket = true → 0 ≤ lower →
      protoTlsValid w protocol .socket = true → tls = 0 →
      Opens w st net domain type protocol memory lower tls ⟨tb, [.acquired pf.family lower], .ret (-1)⟩
  | opened {tb : Table D} {i : Nat} {d : D} {pf : ProtoFamily} (userDataTls : Nat) : Free st tb i →
      hasRoom w st memory = true → initNetdev w net domain type = some d → w.pf d = some pf →
      pf.ops .socket = true → 0 ≤ lower → (protoTlsValid w protocol .socket = true → tls ≠ 0) →
      Opens w st net domain type protocol memory lower tls
        ⟨tb.set i (some { initialized (blank w i) domain type protocol d with
          userData := lower, userDataTls := userDataTls }), [.acquired pf.family lower], .ret (i + w.socketOffset)⟩

theorem salSocket_opens (w : World D) (st : Table D) (net : Net D) (domain type protocol : Int) (memory : Memory)
    (lower : Int) (tls : Nat) :
    Opens w st net domain type protocol memory lower tls
      (salSocket w st net domain type protocol memory lower tls) := by
  cases room : hasRoom w st memory with
  | false =>
    obtain ⟨k, new⟩ := socketNew_full room
    rw [salSocket, new]
    exact .full k room
  | true =>
    obtain ⟨tb, i, free, new⟩ := socketNew_room room
    have low := free.lt
    have natural : ¬(i : Int) + w.socketOffset < 0 := by omega
    have delete (sock : SalSocket D) (magic : sock.magic = salSocketMagic) :=
      free.delete (w := w) magic
    have stored (sock : SalSocket D) (sock' : Option (SalSocket D)) :
        write w (tb.set i (some sock)) (i + w.socketOffset) sock' = tb.set i sock' := by
      rw [write_natCast, List.set_set]
    rw [salSocket, new]
    simp only [if_neg natural, get_set (w := w) low (blank_magic w i), delete (blank w i) rfl]
    cases found : initNetdev w net domain type with
    | none =>
      obtain ⟨made, retval, init, negative, _⟩ := socketInit_none protocol found (blank w i)
      simp only [init, if_pos negative]
      exact .homeless free room found
    | some d =>
      obtain ⟨pf, family⟩ := initNetdev_pf found
      simp only [socketInit_some found, Int.lt_irrefl, if_false]
      cases able : pf.ops .socket with
      | false =>
        have invalid : netdevSocketopsValid w (some d) .socket = .error (.ret (-1)) := by
          simp [netdevSocketopsValid, family, able]
        simp only [initialized, invalid, stored]
        exact .unable free room found family able
      | true =>
        have valid : netdevSocketopsValid w (some d) .socket = .ok pf := by
          simp [netdevSocketopsValid, family, able]
        simp only [initialized, valid, stored]
        by_cases lent : 0 ≤ lower
        · simp only [given, if_pos lent]
          cases secure : protoTlsValid w protocol .socket with
          | false =>
            exact .opened 0 free room found family able lent (by simp [secure])
          | true =>
            simp only [if_true]
            split
            · rename_i null
              exact .leaked free room found family able lent secure null
            · rename_i set
              exact .opened tls free room found family able lent fun _ => set
        · simp only [if_neg lent]
          exact .refused free room found family able (Int.not_le.mp lent)

theorem objGet_ok (got : socketObjGet w st socket = .ok sock) :
    slot w st socket = some (some sock) ∧ salGetSocket w st socket = .ok (some sock) := by
  simp only [socketObjGet] at got
  split at got
  · contradiction
  · contradiction
  · rename_i found
    cases got
    refine ⟨?_, found⟩
    simp only [salGetSocket] at found
    split at found
    · cases found
    · cases found
    · rename_i here
      split at found
      · cases found
        exact here
      · cases found

theorem objGet_live (got : socketObjGet w st socket = .ok sock) :
    ∃ i : Nat, socket = i + w.socketOffset ∧ st[i]? = some (some sock) := by
  have here := (objGet_ok got).1
  rw [slot, Option.ite_none_left_eq_some] at here
  refine ⟨(socket - w.socketOffset).toNat, ?_, here.2⟩
  omega

theorem objGet_slot (wf : Wf w st) (socket : Int) :
    socketObjGet w st socket =
      match slot w st socket with
      | none => .error (.ret (-1))
      | some none => .error (.fault .emptySlot)
      | some (some sock) => .ok sock := by
  rw [socketObjGet, salGetSocket]
  cases here : slot w st socket with
  | none => rfl
  | some x =>
    cases x with
    | none => rfl
    | some sock =>
      have magic : sock.magic = salSocketMagic := by
        rw [slot, Option.ite_none_left_eq_some] at here
        exact (wf _ sock here.2).1
      simp only [if_pos magic]

theorem valid_ok {netdev : Option D} {op : Op} (valid : netdevSocketopsValid w netdev op = .ok pf) :
    (∃ d, netdev = some d ∧ w.pf d = some pf) ∧ pf.ops op = true := by
  simp only [netdevSocketopsValid] at valid
  split at valid
  · contradiction
  · rename_i family found
    split at valid
    · rename_i able
      cases valid
      exact ⟨Option.bind_eq_some_iff.mp found, able⟩
    · contradiction

theorem enter_ok {op : Op} {n : Option (Net D)} (entered : enter w st socket n op = .ok (sock, pf)) :
    socketObjGet w st socket = .ok sock ∧ netdevSocketopsValid w sock.netdev op = .ok pf := by
  simp only [enter, bind, Except.bind, pure, Except.pure] at entered
  split at entered
  · contradiction
  · rename_i got
    split at entered
    · contradiction
    · split at entered
      · contradiction
      · rename_i valid
        cases entered
        exact ⟨got, valid⟩

/-- Past sal_get_socket a call that goes no further returns -1, or has met a null pointer. -/
def Plain (out : Outcome) : Prop := (∃ v, out = .ret v) ∨ out = .fault .nullPointer

theorem valid_error {netdev : Option D} {op : Op} {out : Outcome}
    (invalid : netdevSocketopsValid w netdev op = .error out) : Plain out := by
  simp only [netdevSocketopsValid] at invalid
  split at invalid
  · cases invalid
    exact .inr rfl
  · split at invalid
    · contradiction
    · cases invalid
      exact .inl ⟨-1, rfl⟩

theorem enter_error {op : Op} {n : Option (Net D)} {out : Outcome}
    (stopped : enter w st socket n op = .error out) :
    socketObjGet w st socket = .error out ∨ (∃ sock, socketObjGet w st socket = .ok sock) ∧ Plain out := by
  simp only [enter, bind, Except.bind, pure, Except.pure] at stopped
  split at stopped
  · rename_i got
    cases stopped
    exact .inl got
  · rename_i sock got
    refine .inr ⟨⟨sock, got⟩, ?_⟩
    split at stopped
    · rename_i down
      cases stopped
      simp only [netdevIsUp] at down
      split at down
      · contradiction
      · cases down
        exact .inr rfl
      · split at down
        · contradiction
        · cases down
          exact .inl ⟨-1, rfl⟩
    · split at stopped
      · rename_i invalid
        cases stopped
        exact valid_error invalid
      · contradiction

/-- What sal_accept can do. -/
inductive Accepts (w : World D) (st : Table D) (socket : Int) (net later : Net D) (memory : Memory)
    (lower : Int) : Result D → Prop where
  | stopped {out : Outcome} : enter w st socket (some net) .accept = .error out →
      Accepts w st socket net later memory lower ⟨st, [], out⟩
  | refused {sock : SalSocket D} {pf : ProtoFamily} : enter w st socket (some net) .accept = .ok (sock, pf) →
      lower = -1 → Accepts w st socket net later memory lower ⟨st, [], .ret (-1)⟩
  | full {sock : SalSocket D} {pf : ProtoFamily} (k : Nat) :
      enter w st socket (some net) .accept = .ok (sock, pf) → lower ≠ -1 → hasRoom w st memory = false →
      pf.ops .closesocket = true → Accepts w st socket net later memory lower
        ⟨st ++ List.replicate k none, given pf.family lower ++ [.closed pf.family lower], .ret (-1)⟩
  | fullNull {sock : SalSocket D} {pf : ProtoFamily} (k : Nat) :
      enter w st socket (some net) .accept = .ok (sock, pf) → lower ≠ -1 → hasRoom w st memory = false →
      pf.ops .closesocket = false → Accepts w st socket net later memory lower
        ⟨st ++ List.replicate k none, given pf.family lower, .fault .nullPointer⟩
  | homeless {sock : SalSocket D} {pf : ProtoFamily} {tb : Table D} {i : Nat} :
      enter w st socket (some net) .accept = .ok (sock, pf) → lower ≠ -1 → hasRoom w st memory = true →
      Free st tb i → initNetdev w later sock.domain sock.type = none → pf.ops .closesocket = true →
      Accepts w st socket net later memory lower
        ⟨tb.set i (some zeroed), given pf.family lower ++ [.closed pf.family lower], .fault .badMagic⟩
  | homelessNull {sock made : SalSocket D} {pf : ProtoFamily} {tb : Table D} {i : Nat} :
      enter w st socket (some net) .accept = .ok (sock, pf) → lower ≠ -1 → hasRoom w st memory = true →
      Free st tb i → initNetdev w later sock.domain sock.type = none → pf.ops .closesocket = false →
      made.magic = salSocketMagic → made.socket = i + w.socketOffset → made.netdev = none →
      Accepts w st socket net later memory lower
        ⟨tb.set i (some made), given pf.family lower, .fault .nullPointer⟩
  | accepted {sock : SalSocket D} {pf : ProtoFamily} {tb : Table D} {i : Nat} {d : D} :
      enter w st socket (some net) .accept = .ok (sock, pf) → lower ≠ -1 → hasRoom w st memory = true →
      Free st tb i → initNetdev w later sock.domain sock.type = some d →
      Accepts w st socket net later memory lower
        ⟨tb.set i (some { initialized (blank w i) sock.domain sock.type sock.protocol d with userData := lower }),
          given pf.family lower, .ret (i + w.socketOffset)⟩

theorem salAccept_accepts (w : World D) (st : Table D) (socket : Int) (net later : Net D) (memory : Memory)
    (lower : Int) :
    Accepts w st socket net later memory lower (salAccept w st socket net later memory lower) := by
  rw [salAccept]
  cases entered : enter w st socket (some net) .accept with
  | error out => exact .stopped entered
  | ok both =>
    obtain ⟨sock, pf⟩ := both
    by_cases none_ : lower = -1
    · simp only [if_pos none_]
      exact .refused entered none_
    · simp only [if_neg none_]
      cases room : hasRoom w st memory with
      | false =>
        obtain ⟨k, new⟩ := socketNew_full room
        have outside : salGetSocket w (st ++ List.replicate k none) (-1) = .ok none := by
          rw [salGetSocket, slot, if_pos (by omega)]
        simp only [new, outside]
        cases able : pf.ops .closesocket with
        | true => exact .full k entered none_ room able
        | false => exact .fullNull k entered none_ room able
      | true =>
        obtain ⟨tb, i, free, new⟩ := socketNew_room room
        have low := free.lt
        have stored (sock : SalSocket D) (sock' : Option (SalSocket D)) :
            write w (tb.set i (some sock)) (i + w.socketOffset) sock' = tb.set i sock' := by
          rw [write_natCast, List.set_set]
        simp only [new, get_set (w := w) low (blank_magic w i)]
        cases found : initNetdev w later sock.domain sock.type with
        | none =>
          obtain ⟨made, retval, init, negative, magic, own, netdev⟩ :=
            socketInit_none sock.protocol found (blank w i)
          simp only [init, if_pos negative, stored]
          cases able : pf.ops .closesocket with
          | true =>
            have tripped : socketDelete w (tb.set i (some zeroed)) (i + w.socketOffset) =
                (tb.set i (some zeroed), some .badMagic) := by
              rw [socketDelete, salGetSocket, slot_natCast, List.getElem?_set_self low]
              rfl
            simp only [tripped, if_true]
            exact .homeless entered none_ room free found able
          | false => exact .homelessNull entered none_ room free found able magic own netdev
        | some d =>
          simp only [socketInit_some found, Int.lt_irrefl, if_false, stored]
          exact .accepted entered none_ room free found

/-- The two families and the interface, where sal_bind goes over to another family. -/
def rebind (w : World D) (net : Net D) (addr : Nat) (sock : SalSocket D) :
    Option (ProtoFamily × D × ProtoFamily) :=
  if addr = 0 then none
  else
    match netdevGetByIpaddr net addr with
    | none => none
    | some newNetdev =>
      match netdevSocketopsValid w sock.netdev .bind, netdevSocketopsValid w (some newNetdev) .bind with
      | .ok localPf, .ok inputPf =>
        if inputPf.family = localPf.family then none else some (localPf, newNetdev, inputPf)
      | _, _ => none

/-- What sal_bind can do. -/
inductive Binds (w : World D) (st : Table D) (socket : Int) (net : Net D) (addr : Nat) (proto lower : Int) :
    Result D → Prop where
  | stopped {out : Outcome} : socketObjGet w st socket = .error out →
      Binds w st socket net addr proto lower ⟨st, [], out⟩
  | stayed {sock : SalSocket D} {out : Outcome} : socketObjGet w st socket = .ok sock →
      rebind w net addr sock = none → Plain out → Binds w st socket net addr proto lower ⟨st, [], out⟩
  | noClose {sock : SalSocket D} {localPf inputPf : ProtoFamily} {d : D} : socketObjGet w st socket = .ok sock →
      rebind w net addr sock = some (localPf, d, inputPf) → localPf.ops .closesocket = false →
      Binds w st socket net addr proto lower ⟨st, [], .fault .nullPointer⟩
  | noSocket {sock : SalSocket D} {localPf inputPf : ProtoFamily} {d : D} : socketObjGet w st socket = .ok sock →
      rebind w net addr sock = some (localPf, d, inputPf) → localPf.ops .closesocket = true →
      inputPf.ops .socket = false →
      Binds w st socket net addr proto lower ⟨st, [.closed localPf.family socket], .fault .nullPointer⟩
  | refused {sock : SalSocket D} {localPf inputPf : ProtoFamily} {d : D} : socketObjGet w st socket = .ok sock →
      rebind w net addr sock = some (localPf, d, inputPf) → localPf.ops .closesocket = true →
      inputPf.ops .socket = true → proto < 0 →
      Binds w st socket net addr proto lower ⟨st, [.closed localPf.family socket], .ret (-1)⟩
  | moved {sock : SalSocket D} {localPf inputPf : ProtoFamily} {d : D} : socketObjGet w st socket = .ok sock →
      rebind w net addr sock = some (localPf, d, inputPf) → localPf.ops .closesocket = true →
      inputPf.ops .socket = true → 0 ≤ proto →
      Binds w st socket net addr proto lower
        ⟨write w st socket (some { sock with netdev := some d, userData := proto }),
          [.closed localPf.family socket, .acquired inputPf.family proto], .ret lower⟩

theorem rebind_some {addr : Nat} {localPf inputPf : ProtoFamily}
    (moves : rebind w net addr sock = some (localPf, d, inputPf)) :
    netdevSocketopsValid w sock.netdev .bind = .ok localPf ∧
      netdevSocketopsValid w (some d) .bind = .ok inputPf ∧ inputPf.family ≠ localPf.family := by
  rw [rebind, Option.ite_none_left_eq_some] at moves
  obtain ⟨_, moves⟩ := moves
  split at moves
  · contradiction
  · split at moves
    · rename_i localValid inputValid
      rw [Option.ite_none_left_eq_some] at moves
      obtain ⟨other, same⟩ := moves
      cases same
      exact ⟨localValid, inputValid, other⟩
    · contradiction

theorem bindLower_plain (w : World D) (st : Table D) (netdev : Option D) (lower : Int) :
    ∃ out, bindLower w st [] netdev lower = ⟨st, [], out⟩ ∧ Plain out := by
  rw [bindLower]
  split
  · rename_i invalid
    exact ⟨_, rfl, valid_error invalid⟩
  · exact ⟨_, rfl, .inl ⟨lower, rfl⟩⟩

theorem salBind_binds (w : World D) (st : Table D) (socket : Int) (net : Net D) (addr : Nat) (proto lower : Int) :
    Binds w st socket net addr proto lower (salBind w st socket net addr proto lower) := by
  rw [salBind]
  cases got : socketObjGet w st socket with
  | error out => exact .stopped got
  | ok sock =>
    obtain ⟨out, stays, plain⟩ := bindLower_plain w st sock.netdev lower
    have minus : Plain (.ret (-1)) := .inl ⟨-1, rfl⟩
    by_cases any : addr = 0
    · simp only [if_pos any, stays]
      exact .stayed got (by rw [rebind, if_pos any]) plain
    · simp only [if_neg any]
      cases interface : netdevGetByIpaddr net addr with
      | none => exact .stayed got (by simp only [rebind, if_neg any, interface]) minus
      | some d =>
        cases localValid : netdevSocketopsValid w sock.netdev .bind with
        | error out =>
          exact .stayed got (by simp only [rebind, if_neg any, interface, localValid]) (valid_error localValid)
        | ok localPf =>
          cases inputValid : netdevSocketopsValid w (some d) .bind with
          | error out =>
            have stay : rebind w net addr sock = none := by
              simp only [rebind, if_neg any, interface, localValid, inputValid]
            simp only [inputValid]
            exact .stayed got stay (valid_error inputValid)
          | ok inputPf =>
            by_cases same : inputPf.family = localPf.family
            · have stay : rebind w net addr sock = none := by
                simp only [rebind, if_neg any, interface, localValid, inputValid, if_pos same]
              simp only [inputValid, if_pos same, stays]
              exact .stayed got stay plain
            · have moves : rebind w net addr sock = some (localPf, d, inputPf) := by
                simp only [rebind, if_neg any, interface, localValid, inputValid, if_neg same]
              simp only [inputValid, if_neg same]
              cases closes : localPf.ops .closesocket with
              | false => exact .noClose got moves closes
              | true =>
                cases opens : inputPf.ops .socket with
                | false => exact .noSocket got moves closes opens
                | true =>
                  by_cases negative : proto < 0
                  · simp only [if_pos negative]
                    exact .refused got moves closes opens negative
                  · have natural : 0 ≤ proto := Int.not_lt.mp negative
                    simp only [if_neg negative, bindLower, inputValid, given, if_pos natural]
                    exact .moved got moves closes opens natural

/-- What sal_closesocket can do. -/
inductive Closes (w : World D) (st : Table D) (socket lower tls : Int) : Result D → Prop where
  | stopped {out : Outcome} : enter w st socket none .closesocket = .error out →
      Closes w st socket lower tls ⟨st, [], out⟩
  | stuck {sock : SalSocket D} {pf : ProtoFamily} : enter w st socket none .closesocket = .ok (sock, pf) →
      lower = 0 → protoTlsValid w sock.protocol .closesocket = true → tls < 0 →
      Closes w st socket lower tls ⟨st, [.closed pf.family sock.userData], .ret (-1)⟩
  | freed {sock : SalSocket D} {pf : ProtoFamily} : enter w st socket none .closesocket = .ok (sock, pf) →
      ¬(lower = 0 ∧ protoTlsValid w sock.protocol .closesocket = true ∧ tls < 0) →
      Closes w st socket lower tls ⟨write w st socket none, [.closed pf.family sock.userData],
        .ret (if lower = 0 then 0 else -1)⟩

theorem salClosesocket_closes (w : World D) (st : Table D) (socket lower tls : Int) :
    Closes w st socket lower tls (salClosesocket w st socket lower tls) := by
  rw [salClosesocket]
  cases entered : enter w st socket none .closesocket with
  | error out => exact .stopped entered
  | ok both =>
    obtain ⟨sock, pf⟩ := both
    have got := (objGet_ok (enter_ok entered).1).2
    simp only [socketDelete, got]
    split
    · rename_i stuck
      exact .stuck entered stuck.1 stuck.2.1 stuck.2.2
    · rename_i freed
      exact .freed entered freed

/-- What the calls can do that only ask. -/
inductive Asks (w : World D) (st : Table D) (socket : Int) : Result D → Prop where
  | stopped {out : Outcome} : socketObjGet w st socket = .error out → Asks w st socket ⟨st, [], out⟩
  | plain {sock : SalSocket D} {out : Outcome} : socketObjGet w st socket = .ok sock → Plain out →
      Asks w st socket ⟨st, [], out⟩

theorem ask_asks (w : World D) (st : Table D) (socket : Int) (net : Option (Net D)) (op : Op)
    (answer : SalSocket D → Int) : Asks w st socket (ask w st socket net op answer) := by
  rw [ask]
  split
  · rename_i out stopped
    obtain none_ | ⟨⟨sock, got⟩, plain⟩ := enter_error stopped
    · exact .stopped none_
    · exact .plain got plain
  · rename_i sock pf entered
    exact .plain (enter_ok entered).1 (.inl ⟨answer sock, rfl⟩)

/-- The descriptor of a call that only asks. -/
def Call.asking : Call D → Option Int
  | .shutdown socket .. | .getpeername socket .. | .getsockname socket .. | .getsockopt socket ..
  | .setsockopt socket .. | .connect socket .. | .listen socket .. | .recvfrom socket .. | .sendto socket ..
  | .ioctlsocket socket .. | .poll socket .. => some socket
  | .socket .. | .accept .. | .bind .. | .closesocket .. => none

theorem perform_asks {c : Call D} (asking : c.asking = some socket) : Asks w st socket (perform w st c) := by
  cases c <;> cases asking <;> exact ask_asks ..

end RtThread.Sal

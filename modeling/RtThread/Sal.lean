import RtThread.Run
import Mathlib.Data.List.Basic

/-! The socket abstraction layer: a growing table of sockets over network interfaces whose protocol
families do the work, and the calls on descriptors. -/
namespace RtThread.Sal
open Transition

/-- What a protocol family may have a function for. -/
inductive Op where
  | socket | closesocket | bind | listen | connect | accept | sendto | recvfrom | getsockopt | setsockopt
  | shutdown | getpeername | getsockname | ioctlsocket | poll
  deriving DecidableEq

inductive TlsOp where
  | socket | connect | send | recv | closesocket | setCretList | setCiphersurite | setPeerVerify | setDtlsRole

structure ProtoFamily where
  family : Int
  secFamily : Int
  ops : Op → Bool

/-- The configuration, and what has been registered: `pf` is the sal_user_data of an interface, `none`
without it or its skt_ops. -/
structure World (D : Type) where
  socketsNum : Nat
  socketOffset : Nat
  pf : D → Option ProtoFamily
  usingTls : Bool
  protoTls : Option (TlsOp → Bool)

/-- The network interfaces as a call finds them; the address 0 is that of any. -/
structure Net (D : Type) where
  default : Option D
  list : List D
  up : D → Bool
  ipAddr : D → Nat

/-- What rt_realloc and rt_calloc have to give. -/
structure Memory where
  realloc : Bool
  calloc : Bool

structure SalSocket (D : Type) where
  magic : Nat
  socket : Int
  domain : Int
  type : Int
  protocol : Int
  netdev : Option D
  userData : Int
  userDataTls : Nat
  deriving DecidableEq

/-- A null slot is read by sal_get_socket; its assertion fails; another null pointer is used. -/
inductive Fault where
  | emptySlot
  | badMagic
  | nullPointer
  deriving DecidableEq

inductive Outcome where
  | ret (value : Int)
  | fault (f : Fault)
  deriving DecidableEq

/-- A protocol family has given out a number, or is asked to close one. -/
inductive Event where
  | acquired (family number : Int)
  | closed (family number : Int)
  deriving DecidableEq

/-- socket_table; max_socket is its length. -/
abbrev Table (D : Type) := List (Option (SalSocket D))

structure Result (D : Type) where
  table : Table D
  events : List Event
  outcome : Outcome

def socketTableStepLen : Nat := 4
def salSocketMagic : Nat := 0x5A10
def afMax : Int := 47
def sockMax : Int := 4

variable {D : Type}

/-- After sal_init. -/
def init (w : World D) : Table D := List.replicate (min socketTableStepLen w.socketsNum) none

def slot (w : World D) (st : Table D) (socket : Int) : Option (Option (SalSocket D)) :=
  if socket - w.socketOffset < 0 then none else st[(socket - w.socketOffset).toNat]?

def salGetSocket (w : World D) (st : Table D) (socket : Int) : Except Fault (Option (SalSocket D)) :=
  match slot w st socket with
  | none => .ok none
  | some none => .error .emptySlot
  | some (some sock) => if sock.magic = salSocketMagic then .ok (some sock) else .error .badMagic

def write (w : World D) (st : Table D) (socket : Int) (sock : Option (SalSocket D)) : Table D :=
  st.set (socket - w.socketOffset).toNat sock

/-- All of rt_calloc and rt_memset. -/
def zeroed : SalSocket D := ⟨0, 0, 0, 0, 0, none, 0, 0⟩

/-- `f_socket` is 0 in the one call. -/
def socketAlloc (w : World D) (st : Table D) (memory : Memory) : Table D × Nat :=
  let idx := st.findIdx (·.isNone)
  let full := decide (idx = st.length ∧ st.length < w.socketsNum)
  if full && !memory.realloc then (st, idx)
  else
    let cnt := min (st.length + socketTableStepLen) w.socketsNum
    let st := if full then st ++ List.replicate (cnt - st.length) none else st
    match st[idx]? with
    | some none => if memory.calloc then (st.set idx (some zeroed), idx) else (st, st.length)
    | _ => (st, idx)

def socketNew (w : World D) (st : Table D) (memory : Memory) : Table D × Int :=
  match socketAlloc w st memory with
  | (st, idx) =>
    if idx = st.length then (st, -(1 + w.socketOffset) + w.socketOffset)
    else
      (st.set idx (some { (zeroed : SalSocket D) with
        socket := idx + w.socketOffset, magic := salSocketMagic }), idx + w.socketOffset)

def socketDelete (w : World D) (st : Table D) (socket : Int) : Table D × Option Fault :=
  match salGetSocket w st socket with
  | .ok none => (st, none)
  | .ok (some _) => (write w st socket none, none)
  | .error f => (st, some f)

def netdevGetByFamily (w : World D) (net : Net D) (family : Int) : Option D :=
  (net.list.find? fun d => (w.pf d).any (·.family = family) && net.up d).or
    (net.list.find? fun d => (w.pf d).any (·.secFamily = family) && net.up d)

def netdevGetByIpaddr (net : Net D) (addr : Nat) : Option D := net.list.find? (net.ipAddr · = addr)

/-- The default interface, if it is of the family, or else one that is. -/
def socketNetdev (w : World D) (net : Net D) (family : Int) : Option D :=
  (net.default.filter fun d => net.up d && (w.pf d).any fun pf => pf.family = family || pf.secFamily = family).or
    (netdevGetByFamily w net family)

def socketInit (w : World D) (net : Net D) (family type protocol : Int) (sock : SalSocket D) :
    SalSocket D × Int :=
  if family < 0 ∨ afMax < family then (sock, -1)
  else if type < 0 ∨ sockMax < type then (sock, -2)
  else
    let sock := { sock with domain := family, type := type, protocol := protocol }
    match socketNetdev w net family with
    | none => (sock, -3)
    | some netdev => ({ sock with netdev := some netdev }, 0)

def protoTlsValid (w : World D) (protocol : Int) (op : TlsOp) : Bool :=
  w.usingTls && w.protoTls.any (· op) && (protocol = 256 || protocol = 257)

def socketObjGet (w : World D) (st : Table D) (socket : Int) : Except Outcome (SalSocket D) :=
  match salGetSocket w st socket with
  | .error f => .error (.fault f)
  | .ok none => .error (.ret (-1))
  | .ok (some sock) => .ok sock

/-- SAL_NETDEV_IS_UP, left out by the calls that have no `net`. -/
def netdevIsUp (net : Option (Net D)) (netdev : Option D) : Except Outcome Unit :=
  match net, netdev with
  | none, _ => .ok ()
  | some _, none => .error (.fault .nullPointer)
  | some net, some d => if net.up d then .ok () else .error (.ret (-1))

def netdevSocketopsValid (w : World D) (netdev : Option D) (op : Op) : Except Outcome ProtoFamily :=
  match netdev.bind w.pf with
  | none => .error (.fault .nullPointer)
  | some pf => if pf.ops op then .ok pf else .error (.ret (-1))

/-- What the calls on a descriptor begin with. -/
def enter (w : World D) (st : Table D) (socket : Int) (net : Option (Net D)) (op : Op) :
    Except Outcome (SalSocket D × ProtoFamily) := do
  let sock ← socketObjGet w st socket
  netdevIsUp net sock.netdev
  let pf ← netdevSocketopsValid w sock.netdev op
  return (sock, pf)

def given (family number : Int) : List Event := if 0 ≤ number then [.acquired family number] else []

def salSocket (w : World D) (st : Table D) (net : Net D) (domain type protocol : Int) (memory : Memory)
    (lower : Int) (tls : Nat) : Result D :=
  match socketNew w st memory with
  | (st, socket) =>
    if socket < 0 then ⟨st, [], .ret (-1)⟩
    else
      let delete (es : List Event) : Result D :=
        match socketDelete w st socket with
        | (st, none) => ⟨st, es, .ret (-1)⟩
        | (st, some f) => ⟨st, es, .fault f⟩
      match salGetSocket w st socket with
      | .error f => ⟨st, [], .fault f⟩
      | .ok none => delete []
      | .ok (some sock) =>
        match socketInit w net domain type protocol sock with
        | (sock, retval) =>
          if retval < 0 then delete []
          else
            match netdevSocketopsValid w sock.netdev .socket with
            | .error out => ⟨write w st socket (some sock), [], out⟩
            | .ok pf =>
              if 0 ≤ lower then
                if protoTlsValid w sock.protocol .socket then
                  if tls = 0 then delete (given pf.family lower)
                  else ⟨write w st socket (some { sock with userDataTls := tls, userData := lower }),
                    given pf.family lower, .ret sock.socket⟩
                else ⟨write w st socket (some { sock with userData := lower }), given pf.family lower,
                  .ret sock.socket⟩
              else delete []

/-- `later` are the interfaces when the accept of the family has returned. -/
def salAccept (w : World D) (st : Table D) (socket : Int) (net later : Net D) (memory : Memory) (lower : Int) :
    Result D :=
  match enter w st socket (some net) .accept with
  | .error out => ⟨st, [], out⟩
  | .ok (sock, pf) =>
    if lower = -1 then ⟨st, [], .ret (-1)⟩
    else
      let acquired := given pf.family lower
      match socketNew w st memory with
      | (st, newSalSocket) =>
        match salGetSocket w st newSalSocket with
        | .error f => ⟨st, acquired, .fault f⟩
        | .ok none =>
          if pf.ops .closesocket then ⟨st, acquired ++ [.closed pf.family lower], .ret (-1)⟩
          else ⟨st, acquired, .fault .nullPointer⟩
        | .ok (some newSock) =>
          match socketInit w later sock.domain sock.type sock.protocol newSock with
          | (newSock, retval) =>
            if retval < 0 then
              if pf.ops .closesocket then
                match socketDelete w (write w st newSalSocket (some zeroed)) newSalSocket with
                | (st, none) => ⟨st, acquired ++ [.closed pf.family lower], .ret (-1)⟩
                | (st, some f) => ⟨st, acquired ++ [.closed pf.family lower], .fault f⟩
              else ⟨write w st newSalSocket (some newSock), acquired, .fault .nullPointer⟩
            else ⟨write w st newSalSocket (some { newSock with userData := lower }), acquired, .ret newSalSocket⟩

/-- The end of sal_bind. -/
def bindLower (w : World D) (st : Table D) (es : List Event) (netdev : Option D) (lower : Int) : Result D :=
  match netdevSocketopsValid w netdev .bind with
  | .error out => ⟨st, es, out⟩
  | .ok _ => ⟨st, es, .ret lower⟩

/-- `proto` is what the socket function of the other family returns. -/
def salBind (w : World D) (st : Table D) (socket : Int) (net : Net D) (addr : Nat) (proto lower : Int) :
    Result D :=
  match socketObjGet w st socket with
  | .error out => ⟨st, [], out⟩
  | .ok sock =>
    if addr = 0 then bindLower w st [] sock.netdev lower
    else
      match netdevGetByIpaddr net addr with
      | none => ⟨st, [], .ret (-1)⟩
      | some newNetdev =>
        match netdevSocketopsValid w sock.netdev .bind with
        | .error out => ⟨st, [], out⟩
        | .ok localPf =>
          match netdevSocketopsValid w (some newNetdev) .bind with
          | .error out => ⟨st, [], out⟩
          | .ok inputPf =>
            if inputPf.family = localPf.family then bindLower w st [] sock.netdev lower
            else if !localPf.ops .closesocket then ⟨st, [], .fault .nullPointer⟩
            else if !inputPf.ops .socket then ⟨st, [.closed localPf.family socket], .fault .nullPointer⟩
            else if proto < 0 then ⟨st, [.closed localPf.family socket], .ret (-1)⟩
            else
              bindLower w (write w st socket (some { sock with netdev := some newNetdev, userData := proto }))
                (.closed localPf.family socket :: given inputPf.family proto) (some newNetdev) lower

def salClosesocket (w : World D) (st : Table D) (socket lower tls : Int) : Result D :=
  match enter w st socket none .closesocket with
  | .error out => ⟨st, [], out⟩
  | .ok (sock, pf) =>
    let closed := [.closed pf.family sock.userData]
    if lower = 0 ∧ protoTlsValid w sock.protocol .closesocket = true ∧ tls < 0 then ⟨st, closed, .ret (-1)⟩
    else
      match socketDelete w st socket with
      | (st, none) => ⟨st, closed, .ret (if lower = 0 then 0 else -1)⟩
      | (st, some f) => ⟨st, closed, .fault f⟩

/-- The calls that leave the table alone: they ask the family, or the TLS layer. -/
def ask (w : World D) (st : Table D) (socket : Int) (net : Option (Net D)) (op : Op)
    (answer : SalSocket D → Int) : Result D :=
  match enter w st socket net op with
  | .error out => ⟨st, [], out⟩
  | .ok (sock, _) => ⟨st, [], .ret (answer sock)⟩

def salShutdown (w : World D) (st : Table D) (socket lower tls : Int) : Result D :=
  ask w st socket none .shutdown fun sock =>
    if lower = 0 then if protoTlsValid w sock.protocol .closesocket ∧ tls < 0 then -1 else 0 else -1

def salGetpeername (w : World D) (st : Table D) (socket lower : Int) : Result D :=
  ask w st socket none .getpeername fun _ => lower

def salGetsockname (w : World D) (st : Table D) (socket lower : Int) : Result D :=
  ask w st socket none .getsockname fun _ => lower

def salGetsockopt (w : World D) (st : Table D) (socket lower : Int) : Result D :=
  ask w st socket none .getsockopt fun _ => lower

/-- The options of level SOL_TLS. -/
def tlsOption (optname : Int) : Option TlsOp :=
  if optname = 1 then some .setCretList
  else if optname = 2 then some .setCiphersurite
  else if optname = 3 then some .setPeerVerify
  else if optname = 4 then some .setDtlsRole
  else none

def salSetsockopt (w : World D) (st : Table D) (socket level optname lower tls : Int) : Result D :=
  ask w st socket none .setsockopt fun sock =>
    if w.usingTls ∧ level = 282 then
      match tlsOption optname with
      | none => -1
      | some op => if protoTlsValid w sock.protocol op then tls else 0
    else lower

def salConnect (w : World D) (st : Table D) (socket : Int) (net : Net D) (lower tls : Int) : Result D :=
  ask w st socket (some net) .connect fun sock =>
    if 0 ≤ lower ∧ protoTlsValid w sock.protocol .connect ∧ tls < 0 then -1 else lower

def salListen (w : World D) (st : Table D) (socket lower : Int) : Result D :=
  ask w st socket none .listen fun _ => lower

def salRecvfrom (w : World D) (st : Table D) (socket : Int) (net : Net D) (lower tls : Int) : Result D :=
  ask w st socket (some net) .recvfrom fun sock =>
    if protoTlsValid w sock.protocol .recv then if tls < 0 then -1 else tls else lower

def salSendto (w : World D) (st : Table D) (socket : Int) (net : Net D) (lower tls : Int) : Result D :=
  ask w st socket (some net) .sendto fun sock =>
    if protoTlsValid w sock.protocol .send then if tls < 0 then -1 else tls else lower

def salIoctlsocket (w : World D) (st : Table D) (socket lower : Int) : Result D :=
  ask w st socket none .ioctlsocket fun _ => lower

def salPoll (w : World D) (st : Table D) (socket : Int) (net : Net D) (lower : Int) : Result D :=
  ask w st socket (some net) .poll fun _ => lower

/-- A call, with what it finds and what it is answered: `lower` by the protocol family, `tls` by the TLS
layer. -/
inductive Call (D : Type) where
  | socket (net : Net D) (domain type protocol : Int) (memory : Memory) (lower : Int) (tls : Nat)
  | accept (socket : Int) (net later : Net D) (memory : Memory) (lower : Int)
  | bind (socket : Int) (net : Net D) (addr : Nat) (proto lower : Int)
  | closesocket (socket lower tls : Int)
  | shutdown (socket lower tls : Int)
  | getpeername (socket lower : Int)
  | getsockname (socket lower : Int)
  | getsockopt (socket lower : Int)
  | setsockopt (socket level optname lower tls : Int)
  | connect (socket : Int) (net : Net D) (lower tls : Int)
  | listen (socket lower : Int)
  | recvfrom (socket : Int) (net : Net D) (lower tls : Int)
  | sendto (socket : Int) (net : Net D) (lower tls : Int)
  | ioctlsocket (socket lower : Int)
  | poll (socket : Int) (net : Net D) (lower : Int)

def perform (w : World D) (st : Table D) : Call D → Result D
  | .socket net domain type protocol memory lower tls =>
    salSocket w st net domain type protocol memory lower tls
  | .accept socket net later memory lower => salAccept w st socket net later memory lower
  | .bind socket net addr proto lower => salBind w st socket net addr proto lower
  | .closesocket socket lower tls => salClosesocket w st socket lower tls
  | .shutdown socket lower tls => salShutdown w st socket lower tls
  | .getpeername socket lower => salGetpeername w st socket lower
  | .getsockname socket lower => salGetsockname w st socket lower
  | .getsockopt socket lower => salGetsockopt w st socket lower
  | .setsockopt socket level optname lower tls => salSetsockopt w st socket level optname lower tls
  | .connect socket net lower tls => salConnect w st socket net lower tls
  | .listen socket lower => salListen w st socket lower
  | .recvfrom socket net lower tls => salRecvfrom w st socket net lower tls
  | .sendto socket net lower tls => salSendto w st socket net lower tls
  | .ioctlsocket socket lower => salIoctlsocket w st socket lower
  | .poll socket net lower => salPoll w st socket net lower

/-- After a fault nothing more is done. -/
structure State (D : Type) where
  table : Table D
  halted : Bool

def Outcome.halts : Outcome → Bool
  | .ret _ => false
  | .fault _ => true

def step (w : World D) (s : State D) (c : Call D) : Option (State D × List Event) :=
  if s.halted then none
  else some (⟨(perform w s.table c).table, (perform w s.table c).outcome.halts⟩, (perform w s.table c).events)

def machine (w : World D) : Machine (State D) (Call D) Event := ⟨(· = ⟨init w, false⟩), step w⟩

end RtThread.Sal

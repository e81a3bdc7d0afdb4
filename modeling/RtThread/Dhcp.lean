import RtThread.Run
import Mathlib.Data.List.Nodup
import Mathlib.Algebra.Group.Nat.Even

/-! The DHCP server: dhcp_server_recv with its list of leases. Addresses are numbers in host
order; the settings of the server that every reply has are left out. -/
namespace RtThread.Dhcp
open Transition

def bootRequest : UInt8 := 1
def discover : UInt8 := 1
def request : UInt8 := 3
def release : UInt8 := 7
def optionRequestedIp : UInt8 := 50
def optionMessageType : UInt8 := 53
def optionEnd : UInt8 := 255
def magicCookie : Nat := 0x63825363
def maxHlen : Nat := 6

abbrev Mac := List UInt8

/-- struct dhcp_client_node; nothing reads its lease_end. -/
structure Node where
  chaddr : Mac
  ipaddr : Nat
  deriving DecidableEq

/-- What dhcp_server_start gets; dhcpd_start gives it the addresses 2 and 254 of one network. -/
structure Range where
  first : Nat
  last : Nat
  ordered : first ≤ last
  below : last + 1 < 2 ^ 32

/-- `down` is after a read through NULL. -/
structure Server where
  nodes : List Node
  current : Nat
  down : Bool

/-- A message that was received. Its options are `length` bytes of memory. -/
structure Message where
  op : UInt8
  cookie : Nat
  hlen : Nat
  chaddr : List UInt8
  options : Nat → UInt8
  length : Nat

/-- `released` tells the list of leases before and after. -/
inductive Event where
  | offered (chaddr : Mac) (ip : Nat)
  | acked (chaddr : Mac) (ip : Nat)
  | refused (chaddr : Mac)
  | released (chaddr : Mac) (before after : List Node)
  | fault
  deriving DecidableEq

/-- The loop of dhcp_server_option_find, which goes on by two bytes at least. -/
def optionFind (options : Nat → UInt8) (length : Nat) (option : UInt8) : Nat → Nat → Option Nat
  | 0, _ => none
  | fuel + 1, i =>
    if i < length ∧ options i ≠ optionEnd then
      if options i = option then some i
      else optionFind options length option fuel (i + ((options (i + 1)).toNat + 2))
    else none

def dhcpServerOptionFind (msg : Message) (option : UInt8) : Option Nat :=
  optionFind msg.options msg.length option msg.length 0

def Message.type (msg : Message) : Option UInt8 :=
  (dhcpServerOptionFind msg optionMessageType).map (fun i => msg.options (i + 2))

def addressAt (options : Nat → UInt8) (i : Nat) : Nat :=
  (((options i).toNat * 256 + (options (i + 1)).toNat) * 256 + (options (i + 2)).toNat) * 256 +
    (options (i + 3)).toNat

def Message.requested (msg : Message) : Option Nat :=
  (dhcpServerOptionFind msg optionRequestedIp).map (fun i => addressAt msg.options (i + 2))

def sameClient (msg : Message) (node : Node) : Bool :=
  node.chaddr.take msg.hlen = msg.chaddr.take msg.hlen

def dhcpClientFindByMac (nodes : List Node) (msg : Message) : Option Node := nodes.find? (sameClient msg)

def dhcpClientFindByIp (nodes : List Node) (ip : Nat) : Option Node := nodes.find? (fun node => node.ipaddr = ip)

def dhcpClientFind (nodes : List Node) (msg : Message) : Option Node :=
  match dhcpClientFindByMac nodes msg with
  | some node => some node
  | none => msg.requested.bind (dhcpClientFindByIp nodes)

/-- The address after `current`. -/
def Range.next (r : Range) (current : Nat) : Nat :=
  let ipaddr := (current + 1) % 2 ^ 32
  if ipaddr > r.last then r.first else ipaddr

/-- The loop at dhcp_alloc_again, `none` where it has not left after so many turns. -/
def dhcpAllocAgain (r : Range) (nodes : List Node) : Nat → Nat → Option Nat
  | 0, _ => none
  | turns + 1, current =>
    match dhcpClientFindByIp nodes current with
    | some _ => dhcpAllocAgain r nodes turns (r.next current)
    | none => some current

/-- There are no other addresses than these to be tried. -/
def Range.size (r : Range) : Nat := r.last - r.first + 1

/-- `memory` tells whether mem_malloc has some; it is `none` where the loop does not end. -/
def dhcpClientAlloc (r : Range) (memory : Bool) (s : Server) (msg : Message) : Option (Server × Option Node) :=
  match dhcpClientFind s.nodes msg with
  | some node => some (s, some node)
  | none => (dhcpAllocAgain r s.nodes r.size s.current).map (fun current =>
      let s := { s with current := current }
      if memory then
        let node : Node := ⟨msg.chaddr.take msg.hlen, current⟩
        ({ s with nodes := node :: s.nodes }, some node)
      else (s, none))

/-- The loop of a DHCP_RELEASE, after a turn for `prev`: the list from `prev` on. Each turn goes
on to the next node but one, and unlinks with the node before that as node_prev. `none` is a
read through NULL. -/
def releaseAfter (msg : Message) (prev : Node) : List Node → Option (List Node)
  | [] => none
  | [skipped] => some [prev, skipped]
  | skipped :: node :: rest =>
    if sameClient msg node then some (prev :: rest)
    else (releaseAfter msg node rest).map (fun tail => prev :: skipped :: tail)

def dhcpRelease (msg : Message) : List Node → Option (List Node)
  | [] => some []
  | node :: rest => if sameClient msg node then some rest else releaseAfter msg node rest

def Message.client (msg : Message) : Mac := msg.chaddr.take msg.hlen

def recvDiscover (r : Range) (memory : Bool) (s : Server) (msg : Message) : Option (Server × List Event) :=
  (dhcpClientAlloc r memory s msg).map (fun p =>
    (p.1, p.2.toList.map (fun node => .offered msg.client node.ipaddr)))

def recvRequest (s : Server) (msg : Message) : List Event :=
  match dhcpClientFind s.nodes msg with
  | some node => [.acked msg.client node.ipaddr]
  | none => [.refused msg.client]

def recvRelease (s : Server) (msg : Message) : Server × List Event :=
  match dhcpRelease msg s.nodes with
  | some after => ({ s with nodes := after }, [.released msg.client s.nodes after])
  | none => ({ s with down := true }, [.fault])

def dhcpServerRecv (r : Range) (memory : Bool) (s : Server) (msg : Message) : Option (Server × List Event) :=
  if msg.op ≠ bootRequest then some (s, [])
  else if msg.cookie ≠ magicCookie then some (s, [])
  else if msg.hlen > maxHlen then some (s, [])
  else
    match msg.type with
    | none => some (s, [])
    | some type =>
      if type = discover then recvDiscover r memory s msg
      else if type = request then some (s, recvRequest s msg)
      else if type = release then some (recvRelease s msg)
      else some (s, [])

structure Action where
  msg : Message
  memory : Bool

/-- The clients have hardware addresses of six bytes. -/
def step (r : Range) (s : Server) (a : Action) : Option (Server × List Event) :=
  if a.msg.hlen = maxHlen ∧ s.down = false then dhcpServerRecv r a.memory s a.msg else none

/-- After dhcp_server_start. -/
def start (r : Range) : Server := ⟨[], r.first, false⟩

def machine (r : Range) : Machine Server Action Event where
  start := (· = start r)
  step := step r

/-- An address given to a client. -/
abbrev Given := List (Mac × Nat)

def Given.grant (r : Range) (given : Given) (chaddr : Mac) (ip : Nat) : Option Given :=
  if (r.first ≤ ip ∧ ip ≤ r.last) ∧ ∀ p ∈ given, p.2 = ip → p.1 = chaddr then some ((chaddr, ip) :: given)
  else none

/-- The addresses given out while their leases last. `none` where one is outside of the range or
given to two clients, where a release removes anything but the leases of the client, or where
the server is down. -/
def Event.apply (r : Range) : Event → Given → Option Given
  | .offered chaddr ip, given => given.grant r chaddr ip
  | .acked chaddr ip, given => given.grant r chaddr ip
  | .refused _, given => some given
  | .released chaddr before after, given =>
    if after = before.filter (fun node => node.chaddr ≠ chaddr) then
      some (given.filter (fun p => p.2 ∈ after.map Node.ipaddr))
    else none
  | .fault, _ => none

def replay (r : Range) (tr : List Event) : Option Given := tr.foldlM (fun given e => e.apply r given) []

/-- A client without a lease does not ask for an address that another one has; and a lease
that is released is the first of the list, or there is none and the list is of even length. -/
def Guard (s : Server) (a : Action) : Prop :=
  (a.msg.type = some discover ∨ a.msg.type = some request → dhcpClientFindByMac s.nodes a.msg = none →
    ∀ ip, a.msg.requested = some ip → dhcpClientFindByIp s.nodes ip = none) ∧
  (a.msg.type = some release → (∃ node, s.nodes.head? = some node ∧ sameClient a.msg node = true) ∨
    dhcpClientFindByMac s.nodes a.msg = none ∧ Even s.nodes.length)

section Allocation
variable {r : Range} {nodes : List Node} {current ip : Nat}

theorem findByIp_none : dhcpClientFindByIp nodes ip = none ↔ ip ∉ nodes.map Node.ipaddr := by
  rw [dhcpClientFindByIp, List.find?_eq_none, List.mem_map]
  simp

theorem next_offset {m : Nat} (inside : m < r.size) : r.next (r.first + m) = r.first + (m + 1) % r.size := by
  have ordered := r.ordered
  have below := r.below
  rw [Range.size] at inside
  have small : r.first + m + 1 < 2 ^ 32 := by lia
  rw [Range.next, Range.size, Nat.mod_eq_of_lt small]
  split
  · have last : m + 1 = r.last - r.first + 1 := by lia
    rw [last, Nat.mod_self, Nat.add_zero]
  · rw [Nat.mod_eq_of_lt (by lia)]
    lia

theorem allocAgain_some {turns m : Nat} (inside : m < r.size)
    (found : dhcpAllocAgain r nodes turns (r.first + m) = some ip) :
    ip ∉ nodes.map Node.ipaddr ∧ r.first ≤ ip ∧ ip ≤ r.last := by
  induction turns generalizing m with
  | zero => contradiction
  | succ turns ih =>
    rw [dhcpAllocAgain] at found
    split at found
    · rw [next_offset inside] at found
      exact ih (Nat.mod_lt _ (by rw [Range.size]; lia)) found
    · rename_i free
      cases found
      refine ⟨findByIp_none.mp free, ?_⟩
      have ordered := r.ordered
      rw [Range.size] at inside
      lia

theorem allocAgain_none {turns m : Nat} (inside : m < r.size) :
    dhcpAllocAgain r nodes turns (r.first + m) = none ↔
      ∀ k < turns, r.first + (m + k) % r.size ∈ nodes.map Node.ipaddr := by
  induction turns generalizing m with
  | zero => simp [dhcpAllocAgain]
  | succ turns ih =>
    have here : (m + 0) % r.size = m := Nat.mod_eq_of_lt inside
    have later (k : Nat) : ((m + 1) % r.size + k) % r.size = (m + (k + 1)) % r.size := by
      rw [Nat.mod_add_mod]
      congr 1
      lia
    rw [dhcpAllocAgain]
    split
    · rename_i node taken
      have leased : r.first + m ∈ nodes.map Node.ipaddr := by
        by_contra free
        rw [findByIp_none.mpr free] at taken
        contradiction
      rw [next_offset inside, ih (Nat.mod_lt _ (by lia))]
      constructor
      · intro rest k early
        cases k with
        | zero => rwa [here]
        | succ k =>
          rw [← later]
          exact rest k (by lia)
      · intro all k early
        rw [later]
        exact all (k + 1) (by lia)
    · rename_i free
      constructor
      · intro impossible
        contradiction
      · intro all
        have first := all 0 (by lia)
        rw [here] at first
        exact absurd first (findByIp_none.mp free)

/-- The loop ends unless every address is leased, and then however long it goes on. -/
theorem allocAgain_never (low : r.first ≤ current) (high : current ≤ r.last) :
    dhcpAllocAgain r nodes r.size current = none ↔ ∀ turns, dhcpAllocAgain r nodes turns current = none := by
  have size : r.size = r.last - r.first + 1 := rfl
  obtain ⟨m, rfl⟩ := Nat.exists_eq_add_of_le low
  have inside : m < r.size := by lia
  constructor
  · intro full turns
    rw [allocAgain_none inside] at full ⊢
    intro k _
    -- the address of turn `k` was passed in the first round already
    have round := full (k % r.size) (Nat.mod_lt _ (by lia))
    rwa [Nat.add_mod_mod] at round
  · exact fun never => never r.size

end Allocation

section Release
variable {msg : Message}

theorem releaseAfter_absent {prev : Node} {rest : List Node} (none_here : ∀ n ∈ rest, sameClient msg n = false)
    (odd : rest.length % 2 = 1) : releaseAfter msg prev rest = some (prev :: rest) := by
  induction prev, rest using releaseAfter.induct msg with
  | case1 prev => contradiction
  | case2 prev skipped => rfl
  | case3 prev skipped node rest found =>
    rw [none_here node (by simp)] at found
    contradiction
  | case4 prev skipped node rest differs ih =>
    rw [releaseAfter, if_neg differs, ih ?_ ?_]
    · rfl
    · exact fun n inside => none_here n (by simp [inside])
    · simp only [List.length_cons] at odd
      lia

theorem filter_absent {nodes : List Node} (sizes : ∀ n ∈ nodes, n.chaddr.length ≤ msg.hlen)
    (none_here : ∀ n ∈ nodes, sameClient msg n = false) :
    nodes.filter (fun n => n.chaddr ≠ msg.client) = nodes := by
  rw [List.filter_eq_self]
  intro n inside
  have differs := none_here n inside
  simp only [sameClient, List.take_of_length_le (sizes n inside), decide_eq_false_iff_not] at differs
  exact decide_eq_true differs

theorem dhcpRelease_exact {nodes : List Node} (sizes : ∀ n ∈ nodes, n.chaddr.length ≤ msg.hlen)
    (macs : (nodes.map Node.chaddr).Nodup)
    (placed : (∃ node, nodes.head? = some node ∧ sameClient msg node = true) ∨
      dhcpClientFindByMac nodes msg = none ∧ Even nodes.length) :
    dhcpRelease msg nodes = some (nodes.filter (fun n => n.chaddr ≠ msg.client)) := by
  cases nodes with
  | nil => rfl
  | cons first rest =>
    rcases placed with ⟨node, head, same⟩ | ⟨absent, even⟩
    · cases head
      rw [dhcpRelease, if_pos same]
      simp only [sameClient, List.take_of_length_le (sizes first List.mem_cons_self), decide_eq_true_eq] at same
      rw [List.map_cons, List.nodup_cons] at macs
      have others : rest.filter (fun n => n.chaddr ≠ msg.client) = rest := by
        rw [List.filter_eq_self]
        intro n inside
        refine decide_eq_true ?_
        rintro equal
        exact macs.1 (List.mem_map.mpr ⟨n, inside, equal.trans same.symm⟩)
      rw [List.filter_cons, others]
      simp [same, Message.client]
    · have none_here : ∀ n ∈ first :: rest, sameClient msg n = false := by
        intro n inside
        exact Bool.eq_false_iff.mpr (List.find?_eq_none.mp absent n inside)
      have odd : rest.length % 2 = 1 := by
        rw [List.length_cons, Nat.even_iff] at even
        lia
      have rest_absent : ∀ n ∈ rest, sameClient msg n = false :=
        fun n inside => none_here n (List.mem_cons_of_mem _ inside)
      rw [filter_absent sizes none_here, dhcpRelease, none_here first List.mem_cons_self,
        if_neg Bool.false_ne_true, releaseAfter_absent rest_absent odd]

end Release

structure Inv (r : Range) (tr : List Event) (s : Server) (given : Given) : Prop where
  shown : replay r tr = some given
  up : s.down = false
  low : r.first ≤ s.current
  high : s.current ≤ r.last
  macs : (s.nodes.map Node.chaddr).Nodup
  ips : (s.nodes.map Node.ipaddr).Nodup
  inside : ∀ n ∈ s.nodes, r.first ≤ n.ipaddr ∧ n.ipaddr ≤ r.last
  sizes : ∀ n ∈ s.nodes, n.chaddr.length ≤ maxHlen
  leased : ∀ p ∈ given, ⟨p.1, p.2⟩ ∈ s.nodes

section Steps
variable {r : Range} {s s' : Server} {given : Given} {tr es : List Event} {msg : Message}

theorem replay_append {after : Given} (shown : replay r tr = some given)
    (applied : es.foldlM (fun given e => e.apply r given) given = some after) :
    replay r (tr ++ es) = some after := by
  exact (replay_on shown es).trans applied

theorem inv_start (r : Range) : Inv r [] (start r) [] := by
  constructor
  case high => exact r.ordered
  all_goals simp [replay, start]

theorem Inv.grant {node : Node} (inv : Inv r tr s given) (leased : node ∈ s.nodes) :
    given.grant r node.chaddr node.ipaddr = some ((node.chaddr, node.ipaddr) :: given) := by
  rw [Given.grant, if_pos]
  refine ⟨inv.inside node leased, ?_⟩
  intro p before same
  have other := inv.leased p before
  have equal : (⟨p.1, p.2⟩ : Node) = node := List.inj_on_of_nodup_map inv.ips other leased same
  rw [← equal]

theorem Inv.granted {node : Node} {e : Event} (inv : Inv r tr s given) (leased : node ∈ s.nodes)
    (grants : e.apply r given = given.grant r node.chaddr node.ipaddr) :
    Inv r (tr ++ [e]) s ((node.chaddr, node.ipaddr) :: given) := by
  refine { inv with shown := replay_append inv.shown ?_, leased := ?_ }
  · simp [grants, inv.grant leased]
  · intro p before
    rcases List.mem_cons.mp before with rfl | before
    · exact leased
    · exact inv.leased p before

theorem sameClient_eq {node : Node} (size : node.chaddr.length ≤ msg.hlen) :
    sameClient msg node = true ↔ node.chaddr = msg.client := by
  rw [sameClient, List.take_of_length_le size, decide_eq_true_eq, Message.client]

theorem find_own (asks : dhcpClientFindByMac s.nodes msg = none → ∀ ip, msg.requested = some ip →
    dhcpClientFindByIp s.nodes ip = none) : dhcpClientFind s.nodes msg = dhcpClientFindByMac s.nodes msg := by
  rw [dhcpClientFind]
  split
  · rename_i found
    exact found.symm
  · rename_i absent
    rw [absent]
    cases asked : msg.requested with
    | none => rfl
    | some ip => exact asks absent ip asked

theorem Inv.request (inv : Inv r tr s given) (six : msg.hlen = maxHlen)
    (asks : dhcpClientFindByMac s.nodes msg = none → ∀ ip, msg.requested = some ip →
      dhcpClientFindByIp s.nodes ip = none) : ∃ after, Inv r (tr ++ recvRequest s msg) s after := by
  rw [recvRequest, find_own asks]
  cases found : dhcpClientFindByMac s.nodes msg with
  | none =>
    exact ⟨given, { inv with shown := replay_append inv.shown rfl }⟩
  | some node =>
    have leased := List.mem_of_find?_eq_some found
    have own := (sameClient_eq (six ▸ inv.sizes node leased)).mp (List.find?_some found)
    exact ⟨_, inv.granted leased (by rw [own]; rfl)⟩

theorem Inv.leases {ip : Nat} (inv : Inv r tr s given) (six : msg.hlen = maxHlen)
    (absent : dhcpClientFindByMac s.nodes msg = none)
    (free : ip ∉ s.nodes.map Node.ipaddr ∧ r.first ≤ ip ∧ ip ≤ r.last) :
    Inv r tr { s with current := ip, nodes := ⟨msg.client, ip⟩ :: s.nodes } given := by
  refine { inv with
    low := free.2.1, high := free.2.2, macs := ?_, ips := ?_, inside := ?_, sizes := ?_, leased := ?_ }
  · rw [List.map_cons, List.nodup_cons]
    refine ⟨?_, inv.macs⟩
    intro known
    obtain ⟨node, leased, own⟩ := List.mem_map.mp known
    have differs := List.find?_eq_none.mp absent node leased
    exact differs ((sameClient_eq (six ▸ inv.sizes node leased)).mpr own)
  · exact List.nodup_cons.mpr ⟨free.1, inv.ips⟩
  · exact List.forall_mem_cons.mpr ⟨free.2, inv.inside⟩
  · refine List.forall_mem_cons.mpr ⟨?_, inv.sizes⟩
    rw [Message.client, List.length_take, six]
    exact Nat.min_le_left _ _
  · exact fun p before => List.mem_cons_of_mem _ (inv.leased p before)

theorem Inv.discover {memory : Bool} (inv : Inv r tr s given) (six : msg.hlen = maxHlen)
    (asks : dhcpClientFindByMac s.nodes msg = none → ∀ ip, msg.requested = some ip →
      dhcpClientFindByIp s.nodes ip = none)
    (taken : recvDiscover r memory s msg = some (s', es)) : ∃ after, Inv r (tr ++ es) s' after := by
  obtain ⟨⟨t, offered⟩, allocated, same⟩ := Option.map_eq_some_iff.mp taken
  cases same
  rw [dhcpClientAlloc, find_own asks] at allocated
  cases found : dhcpClientFindByMac s.nodes msg with
  | some node =>
    rw [found] at allocated
    cases allocated
    have leased := List.mem_of_find?_eq_some found
    have own := (sameClient_eq (six ▸ inv.sizes node leased)).mp (List.find?_some found)
    exact ⟨_, inv.granted leased (by rw [own]; rfl)⟩
  | none =>
    rw [found] at allocated
    obtain ⟨ip, left, same⟩ := Option.map_eq_some_iff.mp allocated
    obtain ⟨m, place⟩ := Nat.exists_eq_add_of_le inv.low
    have high := inv.high
    rw [place] at left
    have free := allocAgain_some (by rw [Range.size]; lia) left
    cases memory with
    | false =>
      cases same
      refine ⟨given, ?_⟩
      simp only [Option.toList_none, List.map_nil, List.append_nil]
      exact { inv with low := free.2.1, high := free.2.2 }
    | true =>
      cases same
      exact ⟨_, (inv.leases six found free).granted List.mem_cons_self rfl⟩

theorem Inv.release (inv : Inv r tr s given) (six : msg.hlen = maxHlen)
    (placed : (∃ node, s.nodes.head? = some node ∧ sameClient msg node = true) ∨
      dhcpClientFindByMac s.nodes msg = none ∧ Even s.nodes.length) :
    ∃ after, Inv r (tr ++ (recvRelease s msg).2) (recvRelease s msg).1 after := by
  have exact_list := dhcpRelease_exact (six ▸ inv.sizes) inv.macs placed
  rw [recvRelease, exact_list]
  have fewer : (s.nodes.filter (fun n => n.chaddr ≠ msg.client)).Sublist s.nodes := List.filter_sublist
  refine ⟨given.filter
    (fun p => p.2 ∈ (s.nodes.filter (fun n => n.chaddr ≠ msg.client)).map Node.ipaddr), ?_⟩
  refine { inv with
    shown := replay_append inv.shown ?_, macs := ?_, ips := ?_, inside := ?_, sizes := ?_, leased := ?_ }
  · rw [List.foldlM_cons, Event.apply, if_pos rfl]
    rfl
  · exact inv.macs.sublist (fewer.map _)
  · exact inv.ips.sublist (fewer.map _)
  · exact fun n kept => inv.inside n (fewer.subset kept)
  · exact fun n kept => inv.sizes n (fewer.subset kept)
  · intro p kept
    obtain ⟨before, still⟩ := List.mem_filter.mp kept
    obtain ⟨node, left, same⟩ := List.mem_map.mp (of_decide_eq_true still)
    have equal : (⟨p.1, p.2⟩ : Node) = node :=
      List.inj_on_of_nodup_map inv.ips (inv.leased p before) (fewer.subset left) same.symm
    rw [equal]
    exact left

theorem inv_step {a : Action} (inv : Inv r tr s given) (guard : Guard s a)
    (taken : (machine r).step s a = some (s', es)) : ∃ after, Inv r (tr ++ es) s' after := by
  have quiet (same : some (s, ([] : List Event)) = some (s', es)) : ∃ after, Inv r (tr ++ es) s' after := by
    cases same
    exact ⟨given, by rwa [List.append_nil]⟩
  simp only [machine, step] at taken
  split at taken
  · rename_i six
    simp only [dhcpServerRecv] at taken
    split at taken
    · exact quiet taken
    · split at taken
      · exact quiet taken
      · split at taken
        · exact quiet taken
        · split at taken
          · exact quiet taken
          · rename_i type kind
            split at taken
            · rename_i discover
              exact inv.discover six.1 (guard.1 (.inl (discover ▸ kind))) taken
            · split at taken
              · rename_i request
                cases taken
                exact inv.request six.1 (guard.1 (.inr (request ▸ kind)))
              · split at taken
                · rename_i release
                  have released := inv.release six.1 (guard.2 (release ▸ kind))
                  rwa [Option.some.inj taken] at released
                · exact quiet taken
  · contradiction

/-- No address is given to two clients and none outside of the range, and a release removes the
lease of its client alone. -/
theorem leases_unique (run : RunWhere (machine r) Guard tr s) : ∃ given, replay r tr = some given := by
  have kept : ∃ given, Inv r tr s given := by
    refine run.invariant (I := fun tr s => ∃ given, Inv r tr s given) ?_ ?_
    · rintro s rfl
      exact ⟨[], inv_start r⟩
    · rintro tr s a s' es _ ⟨given, inv⟩ guard taken
      exact inv_step inv guard taken
  obtain ⟨given, inv⟩ := kept
  exact ⟨given, inv.shown⟩

end Steps

def guardChecked (s : Server) (a : Action) : Bool :=
  (!decide (a.msg.type = some discover ∨ a.msg.type = some request) ||
    (dhcpClientFindByMac s.nodes a.msg).isSome ||
    a.msg.requested.all (fun ip => (dhcpClientFindByIp s.nodes ip).isNone)) &&
  (!decide (a.msg.type = some release) || s.nodes.head?.any (sameClient a.msg) ||
    (dhcpClientFindByMac s.nodes a.msg).isNone && decide (s.nodes.length % 2 = 0))

theorem guardChecked_sound {s : Server} {a : Action} (checked : guardChecked s a = true) : Guard s a := by
  simp only [guardChecked, Bool.and_eq_true, Bool.or_eq_true, Bool.not_eq_true',
    decide_eq_false_iff_not] at checked
  constructor
  · intro kind absent ip asked
    rcases checked.1 with (other | known) | free
    · exact absurd kind other
    · rw [absent] at known
      contradiction
    · rw [asked, Option.all_some, Option.isNone_iff_eq_none] at free
      exact free
  · intro kind
    rcases checked.2 with (other | first) | even
    · exact absurd kind other
    · exact .inl ((Option.any_eq_true _ _).mp first)
    · exact .inr ⟨Option.isNone_iff_eq_none.mp even.1, Nat.even_iff.mpr (of_decide_eq_true even.2)⟩

def message (type client : UInt8) (more : List UInt8) : Action where
  memory := true
  msg := {
    op := bootRequest
    cookie := magicCookie
    hlen := maxHlen
    chaddr := [0, 0, 0, 0, 0, client]
    options := fun i => ([optionMessageType, 1, type] ++ more ++ [optionEnd]).getD i 0
    length := 4 + more.length }

def dhcpdRange : Range := ⟨0xC0A8A902, 0xC0A8A9FE, by decide, by decide⟩

def twoClients : List Event :=
  [.offered [0, 0, 0, 0, 0, 1] 0xC0A8A902, .acked [0, 0, 0, 0, 0, 1] 0xC0A8A902,
    .offered [0, 0, 0, 0, 0, 2] 0xC0A8A903,
    .released [0, 0, 0, 0, 0, 2] [⟨[0, 0, 0, 0, 0, 2], 0xC0A8A903⟩, ⟨[0, 0, 0, 0, 0, 1], 0xC0A8A902⟩]
      [⟨[0, 0, 0, 0, 0, 1], 0xC0A8A902⟩]]

theorem leases_unique_two : ∃ given, replay dhcpdRange twoClients = some given := by
  obtain ⟨s, run, _⟩ := Run.shows (M := (machine dhcpdRange).restrict guardChecked) rfl
    [message discover 1 [], message request 1 [optionRequestedIp, 4, 192, 168, 169, 2], message discover 2 [],
      message release 2 []] twoClients (fun _ => true) (by decide)
  exact leases_unique (RunWhere.ofRestrict (fun _ _ _ _ => guardChecked_sound) run)

/-- Three clients get theirs; the release of the first takes the lease of the second as well. -/
def threeClients : List Event :=
  [.offered [0, 0, 0, 0, 0, 1] 0xC0A8A902, .offered [0, 0, 0, 0, 0, 2] 0xC0A8A903,
    .offered [0, 0, 0, 0, 0, 3] 0xC0A8A904,
    .released [0, 0, 0, 0, 0, 1]
      [⟨[0, 0, 0, 0, 0, 3], 0xC0A8A904⟩, ⟨[0, 0, 0, 0, 0, 2], 0xC0A8A903⟩, ⟨[0, 0, 0, 0, 0, 1], 0xC0A8A902⟩]
      [⟨[0, 0, 0, 0, 0, 3], 0xC0A8A904⟩]]

/-- The second client asks for the address of the first. -/
def askedFor : List Event := [.offered [0, 0, 0, 0, 0, 1] 0xC0A8A902, .offered [0, 0, 0, 0, 0, 2] 0xC0A8A902]

theorem leases_not_unique :
    (replay dhcpdRange threeClients = none ∧ ∃ s, Run (machine dhcpdRange) threeClients s) ∧
    (replay dhcpdRange askedFor = none ∧ ∃ s, Run (machine dhcpdRange) askedFor s) := by
  refine ⟨⟨by decide, ?_⟩, ⟨by decide, ?_⟩⟩
  · obtain ⟨s, run, _⟩ := Run.shows (M := machine dhcpdRange) rfl
      [message discover 1 [], message discover 2 [], message discover 3 [], message release 1 []] threeClients
      (fun _ => true) (by decide)
    exact ⟨s, run⟩
  · obtain ⟨s, run, _⟩ := Run.shows (M := machine dhcpdRange) rfl
      [message discover 1 [], message discover 2 [optionRequestedIp, 4, 192, 168, 169, 2]] askedFor
      (fun _ => true) (by decide)
    exact ⟨s, run⟩

end RtThread.Dhcp

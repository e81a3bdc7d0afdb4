import RtThread.Dhcp
import RtThread.FirstHit

/-! dhcp_client_alloc for a range that may end at any address, with a bound of the turns of its loop
that the caller of the model gives. -/
namespace RtThread.DhcpAlloc
open Dhcp FirstHit

/-- The range of a server, up to 255.255.255.255. -/
structure Pool where
  first : Nat
  last : Nat
  ordered : first ≤ last
  fits : last < 2 ^ 32

def Pool.next (p : Pool) (current : Nat) : Nat :=
  let ipaddr := (current + 1) % 2 ^ 32
  if ipaddr > p.last then p.first else ipaddr

/-- The loop at dhcp_alloc_again, `none` where it has not left after so many turns. -/
def dhcpAllocAgain (p : Pool) (nodes : List Node) : Nat → Nat → Option Nat
  | 0, _ => none
  | turns + 1, current =>
    match dhcpClientFindByIp nodes current with
    | some _ => dhcpAllocAgain p nodes turns (p.next current)
    | none => some current

/-- `memory` tells whether mem_malloc has some. -/
def dhcpClientAlloc (p : Pool) (turns : Nat) (memory : Bool) (s : Server) (msg : Message) :
    Option (Server × Option Node) :=
  match dhcpClientFind s.nodes msg with
  | some node => some (s, some node)
  | none => (dhcpAllocAgain p s.nodes turns s.current).map (fun current =>
      let s := { s with current := current }
      if memory then
        let node : Node := ⟨msg.client, current⟩
        ({ s with nodes := node :: s.nodes }, some node)
      else (s, none))

/-- The range that dhcpd_start gives, whose end is not the last address there is. -/
def ofRange (r : Range) : Pool := ⟨r.first, r.last, r.ordered, by have below := r.below; lia⟩

theorem allocAgain_range (r : Range) (nodes : List Node) (turns current : Nat) :
    dhcpAllocAgain (ofRange r) nodes turns current = Dhcp.dhcpAllocAgain r nodes turns current := by
  induction turns generalizing current with
  | zero => rfl
  | succ turns ih =>
    rw [dhcpAllocAgain, Dhcp.dhcpAllocAgain]
    cases dhcpClientFindByIp nodes current with
    | none => rfl
    | some node => exact ih _

theorem dhcpClientAlloc_range (r : Range) (memory : Bool) (s : Server) (msg : Message) :
    dhcpClientAlloc (ofRange r) r.size memory s msg = Dhcp.dhcpClientAlloc r memory s msg := by
  rw [dhcpClientAlloc, Dhcp.dhcpClientAlloc, allocAgain_range]
  rfl

def Free (nodes : List Node) (ip : Nat) : Prop := ip ∉ nodes.map Node.ipaddr

instance (nodes : List Node) : DecidablePred (Free nodes) := fun ip => inferInstanceAs (Decidable (ip ∉ _))

def Pool.Has (p : Pool) (ip : Nat) : Prop := p.first ≤ ip ∧ ip ≤ p.last

section Loop
variable {p : Pool} {nodes : List Node} {current ip : Nat}

theorem allocAgain_search (turns : Nat) :
    dhcpAllocAgain p nodes turns current = search p.next (Free nodes) turns current := by
  induction turns generalizing current with
  | zero => rfl
  | succ turns ih =>
    rw [dhcpAllocAgain, search]
    split
    · rename_i node taken
      have leased : ¬ Free nodes current := by
        intro free
        rw [findByIp_none.mpr free] at taken
        contradiction
      rw [if_neg leased, ih]
    · rename_i none
      exact (if_pos (findByIp_none.mp none)).symm

theorem next_below (below : p.last + 1 < 2 ^ 32) {m : Nat} (inside : m < p.last - p.first + 1) (k : Nat) :
    p.next^[k] (p.first + m) = p.first + (m + k) % (p.last - p.first + 1) := by
  have ordered := p.ordered
  induction k with
  | zero => rw [Nat.add_zero, Nat.mod_eq_of_lt inside, Function.iterate_zero_apply]
  | succ k ih =>
    have bound := Nat.mod_lt (m + k) (show 0 < p.last - p.first + 1 by lia)
    have later : (m + (k + 1)) % (p.last - p.first + 1) =
        ((m + k) % (p.last - p.first + 1) + 1) % (p.last - p.first + 1) := by
      rw [Nat.mod_add_mod]
      rfl
    rw [Function.iterate_succ_apply', ih, Pool.next, later]
    generalize (m + k) % (p.last - p.first + 1) = x at bound
    have small : p.first + x + 1 < 2 ^ 32 := by lia
    rw [Nat.mod_eq_of_lt small]
    split
    · have round : x + 1 = p.last - p.first + 1 := by lia
      rw [round, Nat.mod_self, Nat.add_zero]
    · have within : x + 1 < p.last - p.first + 1 := by lia
      rw [Nat.mod_eq_of_lt within, Nat.add_assoc]

theorem next_last (last : p.last + 1 = 2 ^ 32) (low : current < 2 ^ 32) (k : Nat) :
    p.next^[k] current = (current + k) % 2 ^ 32 := by
  induction k with
  | zero => exact (Nat.mod_eq_of_lt low).symm
  | succ k ih =>
    have bound := Nat.mod_lt ((current + k) % 2 ^ 32 + 1) (Nat.two_pow_pos 32)
    rw [Function.iterate_succ_apply', ih, Pool.next, if_neg (by lia), Nat.mod_add_mod]
    rfl

theorem loop_hit : (∃ turns, dhcpAllocAgain p nodes turns current = some ip) ↔
    ∃ k, ip = p.next^[k] current ∧ HitAt p.next (Free nodes) current k := by
  simp only [allocAgain_search]
  exact search_iff

/-- Where the range ends before the last address, the loop comes to a free address of the range, and
ends where there is one. -/
theorem loop_below (below : p.last + 1 < 2 ^ 32) (inside : p.Has current) :
    ((∃ ip, p.Has ip ∧ Free nodes ip) → ∃ ip turns, dhcpAllocAgain p nodes turns current = some ip) ∧
      ∀ ip, (∃ turns, dhcpAllocAgain p nodes turns current = some ip) → p.Has ip ∧ Free nodes ip := by
  obtain ⟨m, rfl⟩ := Nat.exists_eq_add_of_le inside.1
  have m_inside : m < p.last - p.first + 1 := by have high := inside.2; lia
  have positive : 0 < p.last - p.first + 1 := by lia
  constructor
  · rintro ⟨ip, has, free⟩
    have place : p.next^[p.last - p.first + 1 + (ip - p.first) - m] (p.first + m) = ip := by
      have low := has.1
      have high := has.2
      rw [next_below below m_inside,
        show m + (p.last - p.first + 1 + (ip - p.first) - m) = ip - p.first + (p.last - p.first + 1) by lia,
        Nat.add_mod_right, Nat.mod_eq_of_lt (by lia)]
      lia
    obtain ⟨k, _, hit⟩ := hitAt_of_free (show Free nodes (p.next^[_] (p.first + m)) by rw [place]; exact free)
    exact ⟨_, loop_hit.mpr ⟨k, rfl, hit⟩⟩
  · intro ip found
    obtain ⟨k, rfl, hit⟩ := loop_hit.mp found
    refine ⟨?_, hit.1⟩
    have bound := Nat.mod_lt (m + k) positive
    have ordered := p.ordered
    rw [next_below below m_inside]
    exact ⟨by lia, by lia⟩

/-- Where the range ends at the last address, the loop ends at the first free address from the cursor on,
in the order in which 255.255.255.255 is followed by 0.0.0.0. -/
theorem loop_last (last : p.last + 1 = 2 ^ 32) (low : current < 2 ^ 32) :
    (∃ turns, dhcpAllocAgain p nodes turns current = some ip) ↔
      ip < 2 ^ 32 ∧ Free nodes ip ∧ ∀ j < (ip + 2 ^ 32 - current) % 2 ^ 32, ¬ Free nodes ((current + j) % 2 ^ 32) := by
  rw [loop_hit]
  simp only [HitAt, next_last last low]
  constructor
  · rintro ⟨k, rfl, free, before⟩
    refine ⟨Nat.mod_lt _ (by decide), free, fun j early => before j ?_⟩
    have steps : ((current + k) % 2 ^ 32 + 2 ^ 32 - current) % 2 ^ 32 = k % 2 ^ 32 := by lia
    rw [steps] at early
    exact Nat.lt_of_lt_of_le early (Nat.mod_le k _)
  · rintro ⟨bound, free, before⟩
    have place : (current + (ip + 2 ^ 32 - current) % 2 ^ 32) % 2 ^ 32 = ip := by lia
    exact ⟨(ip + 2 ^ 32 - current) % 2 ^ 32, place.symm, by rwa [place], before⟩

end Loop

/-- A lease of the client itself or a new one of a free address of the range; without one, the list is as
it was, and no address of the range was free unless there was no memory. -/
def Served (p : Pool) (memory : Bool) (s : Server) (msg : Message) (s' : Server) : Option Node → Prop
  | some node => (node ∈ s.nodes ∧ sameClient msg node = true) ∨ (p.Has node.ipaddr ∧ Free s.nodes node.ipaddr)
  | none => s'.nodes = s.nodes ∧ (memory = true → ∀ ip, p.Has ip → ¬ Free s.nodes ip)

def Allocates (p : Pool) (memory : Bool) (s : Server) (msg : Message) : Prop :=
  ∃ turns s' node, dhcpClientAlloc p turns memory s msg = some (s', node) ∧ Served p memory s msg s' node

/-- There is a free address that the cursor comes to before it leaves the range. A range that ends at the
last address is left after it, for the addresses below the first; without memory they serve as well. -/
def Reaches (p : Pool) (memory : Bool) (s : Server) : Prop :=
  (∃ ip, p.Has ip ∧ Free s.nodes ip ∧
    (p.last + 1 = 2 ^ 32 → ip < s.current → ∀ low < p.first, ¬ Free s.nodes low)) ∨
  (memory = false ∧ p.last + 1 = 2 ^ 32 ∧ ∃ ip < 2 ^ 32, Free s.nodes ip)

/-- The client has a lease, or it asks for no address that is leased, and there is one to be found. -/
def Allocatable (p : Pool) (memory : Bool) (s : Server) (msg : Message) : Prop :=
  (∃ node, dhcpClientFindByMac s.nodes msg = some node) ∨
    (∀ ip, msg.requested = some ip → Free s.nodes ip) ∧ Reaches p memory s

section Calls
variable {p : Pool} {memory : Bool} {s : Server} {msg : Message}

theorem find_none (absent : dhcpClientFindByMac s.nodes msg = none)
    (asks : ∀ ip, msg.requested = some ip → Free s.nodes ip) : dhcpClientFind s.nodes msg = none := by
  rw [dhcpClientFind, absent]
  cases asked : msg.requested with
  | none => rfl
  | some ip => exact findByIp_none.mpr (asks ip asked)

theorem find_other {ip : Nat} (absent : dhcpClientFindByMac s.nodes msg = none)
    (asked : msg.requested = some ip) (leased : ¬ Free s.nodes ip) :
    ∃ node, dhcpClientFind s.nodes msg = some node ∧ sameClient msg node = false ∧
      ¬ Free s.nodes node.ipaddr := by
  cases found : dhcpClientFindByIp s.nodes ip with
  | none => exact absurd (findByIp_none.mp found) leased
  | some node =>
    have member := List.mem_of_find?_eq_some found
    refine ⟨node, ?_, Bool.eq_false_iff.mpr (List.find?_eq_none.mp absent node member), ?_⟩
    · rw [dhcpClientFind, absent, asked]
      exact found
    · exact fun free => free (List.mem_map_of_mem member)

theorem allocates_loop (absent : dhcpClientFind s.nodes msg = none)
    (unknown : dhcpClientFindByMac s.nodes msg = none) :
    Allocates p memory s msg ↔ ∃ ip, (∃ turns, dhcpAllocAgain p s.nodes turns s.current = some ip) ∧
      (memory = true → p.Has ip ∧ Free s.nodes ip) := by
  constructor
  · rintro ⟨turns, s', node, result, served⟩
    rw [dhcpClientAlloc, absent] at result
    obtain ⟨ip, found, same⟩ := Option.map_eq_some_iff.mp result
    refine ⟨ip, ⟨turns, found⟩, ?_⟩
    rintro rfl
    cases same
    rcases served with ⟨leased, own⟩ | new
    · exact absurd own (List.find?_eq_none.mp unknown _ leased)
    · exact new
  · rintro ⟨ip, ⟨turns, found⟩, new⟩
    cases memory with
    | true =>
      refine ⟨turns, { s with current := ip, nodes := ⟨msg.client, ip⟩ :: s.nodes }, some ⟨msg.client, ip⟩, ?_,
        .inr (new rfl)⟩
      rw [dhcpClientAlloc, absent]
      exact congrArg (Option.map _) found
    | false =>
      refine ⟨turns, { s with current := ip }, none, ?_, rfl, fun impossible => by contradiction⟩
      rw [dhcpClientAlloc, absent]
      exact congrArg (Option.map _) found

theorem loop_ends {ip : Nat} (last : p.last + 1 = 2 ^ 32) (low : s.current < 2 ^ 32) (bound : ip < 2 ^ 32)
    (free : Free s.nodes ip) : ∃ found turns, dhcpAllocAgain p s.nodes turns s.current = some found := by
  have place : p.next^[ip + 2 ^ 32 - s.current] s.current = ip := by
    rw [next_last last low]
    lia
  obtain ⟨k, _, hit⟩ := hitAt_of_free (show Free s.nodes (p.next^[_] s.current) by rw [place]; exact free)
  exact ⟨_, loop_hit.mpr ⟨k, rfl, hit⟩⟩

theorem reaches_last (last : p.last + 1 = 2 ^ 32) (inside : p.Has s.current) :
    (∃ ip, (∃ turns, dhcpAllocAgain p s.nodes turns s.current = some ip) ∧
      (memory = true → p.Has ip ∧ Free s.nodes ip)) ↔ Reaches p memory s := by
  have low : s.current < 2 ^ 32 := by have high := inside.2; lia
  have from_first := inside.1
  constructor
  · rintro ⟨ip, found, new⟩
    obtain ⟨bound, free, before⟩ := (loop_last last low).mp found
    cases memory with
    | false => exact .inr ⟨rfl, last, ip, bound, free⟩
    | true =>
      refine .inl ⟨ip, (new rfl).1, free, ?_⟩
      intro _ behind l below
      have from_ip := (new rfl).1.1
      have passed := before (l + 2 ^ 32 - s.current) (by lia)
      rwa [show (s.current + (l + 2 ^ 32 - s.current)) % 2 ^ 32 = l by lia] at passed
  · rintro (⟨ip, has, free, skipped⟩ | ⟨none, _, ip, bound, free⟩)
    · have high := has.2
      obtain ⟨found, turns, result⟩ := loop_ends last low (show ip < 2 ^ 32 by lia) free
      obtain ⟨bound, found_free, before⟩ := (loop_last last low).mp ⟨turns, result⟩
      refine ⟨found, ⟨turns, result⟩, fun _ => ⟨⟨?_, by lia⟩, found_free⟩⟩
      by_contra below
      by_cases behind : ip < s.current
      · exact skipped last behind found (by lia) found_free
      · refine before (ip - s.current) (by lia) ?_
        rwa [show (s.current + (ip - s.current)) % 2 ^ 32 = ip by lia]
    · obtain ⟨found, turns, result⟩ := loop_ends last low bound free
      exact ⟨found, ⟨turns, result⟩, fun some_memory => by rw [none] at some_memory; contradiction⟩

theorem reaches_loop (inside : p.Has s.current) :
    (∃ ip, (∃ turns, dhcpAllocAgain p s.nodes turns s.current = some ip) ∧
      (memory = true → p.Has ip ∧ Free s.nodes ip)) ↔ Reaches p memory s := by
  by_cases last : p.last + 1 = 2 ^ 32
  · exact reaches_last last inside
  have below : p.last + 1 < 2 ^ 32 := by have fits := p.fits; lia
  obtain ⟨ends, sound⟩ := @loop_below p s.nodes s.current below inside
  constructor
  · rintro ⟨ip, found, _⟩
    obtain ⟨has, free⟩ := sound ip found
    exact .inl ⟨ip, has, free, fun at_last => absurd at_last last⟩
  · rintro (⟨ip, has, free, _⟩ | ⟨_, at_last, _⟩)
    · obtain ⟨found, result⟩ := ends ⟨ip, has, free⟩
      exact ⟨found, result, fun _ => sound found result⟩
    · exact absurd at_last last

theorem allocates_iff (inside : p.Has s.current) : Allocates p memory s msg ↔ Allocatable p memory s msg := by
  cases own : dhcpClientFindByMac s.nodes msg with
  | some node =>
    have found : dhcpClientFind s.nodes msg = some node := by rw [dhcpClientFind, own]
    have served : Allocates p memory s msg := by
      refine ⟨0, s, some node, by rw [dhcpClientAlloc, found], .inl ⟨List.mem_of_find?_eq_some own, ?_⟩⟩
      exact List.find?_some own
    exact ⟨fun _ => .inl ⟨node, own⟩, fun _ => served⟩
  | none =>
    by_cases asks : ∀ ip, msg.requested = some ip → Free s.nodes ip
    · rw [allocates_loop (find_none own asks) own, reaches_loop inside]
      constructor
      · exact fun reaches => .inr ⟨asks, reaches⟩
      · rintro (⟨node, known⟩ | ⟨_, reaches⟩)
        · rw [own] at known
          contradiction
        · exact reaches
    · simp only [not_forall] at asks
      obtain ⟨ip, asked, leased⟩ := asks
      obtain ⟨other, found, differs, taken⟩ := find_other own asked leased
      constructor
      · rintro ⟨turns, s', node, result, served⟩
        rw [dhcpClientAlloc, found] at result
        cases result
        rcases served with ⟨_, same⟩ | ⟨_, free⟩
        · rw [differs] at same
          contradiction
        · exact absurd free taken
      · rintro (⟨node, known⟩ | ⟨asks, _⟩)
        · rw [own] at known
          contradiction
        · exact absurd (asks ip asked) leased

/-- With every address of the range leased the loop goes round for ever. -/
theorem full_never (below : p.last + 1 < 2 ^ 32) (inside : p.Has s.current)
    (full : ∀ ip, p.Has ip → ¬ Free s.nodes ip) (absent : dhcpClientFind s.nodes msg = none) (turns : Nat) :
    dhcpClientAlloc p turns memory s msg = none := by
  have never : dhcpAllocAgain p s.nodes turns s.current = none := by
    cases found : dhcpAllocAgain p s.nodes turns s.current with
    | none => rfl
    | some ip =>
      obtain ⟨has, free⟩ := (loop_below below inside).2 ip ⟨turns, found⟩
      exact absurd free (full ip has)
  rw [dhcpClientAlloc, absent]
  exact congrArg (Option.map _) never

end Calls

/-- 192.168.169.2 alone. -/
def onePool : Pool := ⟨0xC0A8A902, 0xC0A8A902, by decide, by decide⟩

def oneLease : Server := ⟨[⟨[0, 0, 0, 0, 0, 1], 0xC0A8A902⟩], 0xC0A8A902, false⟩

theorem allocates_iff_own : Allocates onePool true oneLease (message discover 1 []).msg :=
  (allocates_iff ⟨by decide, by decide⟩).mpr (.inl ⟨⟨[0, 0, 0, 0, 0, 1], 0xC0A8A902⟩, by decide⟩)

/-- A second client. -/
theorem not_allocates : ¬ Allocates onePool true oneLease (message discover 2 []).msg := by
  rintro ⟨turns, s', node, result, _⟩
  have full : ∀ ip, onePool.Has ip → ¬ Free oneLease.nodes ip := by
    intro ip has free
    have only : ip = 0xC0A8A902 := Nat.le_antisymm has.2 has.1
    exact free (by rw [only]; decide)
  have never := @full_never onePool true oneLease (message discover 2 []).msg (by decide) ⟨by decide, by decide⟩
    full (by decide) turns
  rw [never] at result
  contradiction

end RtThread.DhcpAlloc

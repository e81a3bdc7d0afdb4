import RtThread.Dhcp

/-! The options of a DHCP message: what dhcp_server_option_find reads of them, and what
dhcp_server_recv reads of the values. -/
namespace RtThread.DhcpOptions
open Dhcp

def optionPad : UInt8 := 0

/-- What dhcp_server_option_find has done: the places its pointer was at, the places it has read, and
the one it returns. -/
structure Walk where
  stops : List Nat
  reads : List Nat
  found : Option Nat

/-- The loop of dhcp_server_option_find from place `i`. -/
def walk (options : Nat → UInt8) (length : Nat) (option : UInt8) (i : Nat) : Walk :=
  if i < length then
    if options i = optionEnd then ⟨[i], [i], none⟩
    else if options i = option then ⟨[i], [i], some i⟩
    else
      let rest := walk options length option (i + ((options (i + 1)).toNat + 2))
      ⟨i :: rest.stops, i :: (i + 1) :: rest.reads, rest.found⟩
  else ⟨[i], [], none⟩
termination_by length - i

/-- An area, and the memory behind it. -/
def bytes (area : List UInt8) (behind : Nat → UInt8) (i : Nat) : UInt8 := area.getD i (behind i)

/-- The walk reads the area alone, goes one place on from a pad, and ends at an option that is whole. -/
structure Within (area : List UInt8) (behind : Nat → UInt8) (w : Walk) : Prop where
  reads : ∀ a ∈ w.reads, a < area.length
  pads : w.stops.IsChain (fun i j => bytes area behind i = optionPad → j = i + 1)
  whole : ∀ i, w.found = some i →
    i + 1 < area.length ∧ i + 2 + (bytes area behind (i + 1)).toNat ≤ area.length

section Find
variable {area : List UInt8} {behind : Nat → UInt8} {option code len : UInt8} {i : Nat} {rest : List UInt8}

theorem walk_beyond {options : Nat → UInt8} {length : Nat} (beyond : length ≤ i) :
    walk options length option i = ⟨[i], [], none⟩ := by
  rw [walk, if_neg (Nat.not_lt.mpr beyond)]

end Find

def dhcpOptionsOfs : Nat := 240
def dhcpMinRequestLen : Nat := 44
/-- The size of the pbuf that a packet is copied to. -/
def pbufLen : Nat := 1500
def optionsLen : Nat := pbufLen - dhcpOptionsOfs

/-- A packet as it comes to dhcp_server_recv; `len` are the bytes of its first pbuf. -/
structure Packet where
  bytes : List UInt8
  len : Nat
  len_le : len ≤ bytes.length

/-- The message in the pbuf, at its offsets of struct dhcp_msg. `stale` is what the pbuf held before. -/
def Packet.message (p : Packet) (stale : Nat → UInt8) : Message :=
  let payload := DhcpOptions.bytes p.bytes stale
  { op := payload 0
    cookie := addressAt payload 236
    hlen := (payload 2).toNat
    chaddr := (List.range 16).map (fun i => payload (28 + i))
    options := fun i => payload (dhcpOptionsOfs + i)
    length := optionsLen }

def find (msg : Message) (option : UInt8) : Option Nat := (walk msg.options msg.length option 0).found

/-- A walk over what has been received of the options, with `room` bytes of the pbuf from there on, comes
to the end mark, to the end of the pbuf, or to an option with `size` bytes of its value received. -/
def Contained (option : UInt8) (size : Nat) : Nat → List UInt8 → Prop
  | room, [] => room = 0
  | room, [code] => code = optionEnd ∨ code ≠ option ∧ room ≤ 2
  | room, code :: length :: rest =>
    code = optionEnd ∨ code = option ∧ size ≤ rest.length ∨
      code ≠ option ∧ Contained option size (room - (length.toNat + 2)) (rest.drop length.toNat)
termination_by _ area => area.length
decreasing_by
  rw [List.length_drop, List.length_cons, List.length_cons]
  lia

def valueOf (option : UInt8) : List UInt8 → Option UInt8
  | code :: length :: rest =>
    if code = optionEnd then none
    else if code = option then rest.head?
    else valueOf option (rest.drop length.toNat)
  | _ => none
termination_by area => area.length
decreasing_by
  rw [List.length_drop, List.length_cons, List.length_cons]
  lia

def Packet.options (p : Packet) : List UInt8 := p.bytes.drop dhcpOptionsOfs

def cookieBytes : List UInt8 := [0x63, 0x82, 0x53, 0x63]

/-- The message type is received with its value, and so is the address asked for where it is looked at. -/
def Packet.Sound (nodes : List Node) (p : Packet) : Prop :=
  Contained optionMessageType 1 optionsLen p.options ∧
    ((valueOf optionMessageType p.options = some discover ∨ valueOf optionMessageType p.options = some request) →
      dhcpClientFindByMac nodes (p.message (fun _ => 0)) = none →
      Contained optionRequestedIp 4 optionsLen p.options)

section Values
variable {area : List UInt8} {option : UInt8} {size i : Nat}

end Values

section Packets
variable {nodes : List Node} {p : Packet} {stale : Nat → UInt8}

theorem received (stale : Nat → UInt8) {i : Nat} (inside : i < p.bytes.length) :
    p.bytes[i]? = some (bytes p.bytes stale i) := by
  rw [bytes, List.getD_eq_getElem?_getD, List.getElem?_eq_getElem inside, Option.getD_some]

/-- The checks of dhcp_server_recv before it looks at the options. -/
def Checked (p : Packet) (stale : Nat → UInt8) : Prop :=
  ¬ p.len < dhcpMinRequestLen ∧ ¬ pbufLen < p.bytes.length ∧ (p.message stale).op = bootRequest ∧
    (p.message stale).cookie = magicCookie ∧ ¬ (p.message stale).hlen > maxHlen

end Packets

/-- The walk returns what the loop with a bound of its turns does. -/
theorem walk_found (options : Nat → UInt8) (length : Nat) (option : UInt8) (turns i : Nat)
    (enough : length ≤ i + 2 * turns) :
    optionFind options length option turns i = (walk options length option i).found := by
  induction turns generalizing i with
  | zero => rw [optionFind, walk_beyond (by lia)]
  | succ turns ih =>
    rw [optionFind, walk]
    by_cases inside : i < length
    · by_cases mark : options i = optionEnd
      · simp [inside, mark]
      · by_cases same : options i = option
        · rw [same] at mark
          simp [inside, mark, same]
        · simp [inside, mark, same, ih (i + ((options (i + 1)).toNat + 2)) (by lia)]
    · simp [inside]

theorem find_dhcp (msg : Message) (option : UInt8) : find msg option = dhcpServerOptionFind msg option :=
  (walk_found msg.options msg.length option msg.length 0 (by lia)).symm

/-- A message of a client with the hardware address 0, up to its options. -/
def header : List UInt8 := [bootRequest, 1, 6, 0] ++ List.replicate 232 0 ++ cookieBytes

theorem header_length : header.length = 240 := by
  rw [header, List.length_append, List.length_append, List.length_replicate]
  rfl

def packet (options : List UInt8) : Packet where
  bytes := header ++ options
  len := 240
  len_le := by rw [List.length_append, header_length]; lia

end RtThread.DhcpOptions

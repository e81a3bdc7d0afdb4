import Mathlib.Algebra.Order.Ring.Int
import Mathlib.Data.List.Basic

/-! Little-endian bytes of a word, and a memory of bytes at addresses that wrap. -/
namespace Bytes

abbrev Byte := BitVec 8

variable {w : Nat}

/-- The `n` low bytes of a word, the lowest first. -/
def toBytes : Nat → BitVec w → List Byte
  | 0, _ => []
  | n + 1, v => v.setWidth 8 :: toBytes n (v >>> 8)

def ofBytes (w : Nat) : List Byte → BitVec w
  | [] => 0
  | b :: rest => b.setWidth w ||| ofBytes w rest <<< 8

@[simp] theorem length_toBytes (n : Nat) (v : BitVec w) : (toBytes n v).length = n := by
  induction n generalizing v with
  | zero => rfl
  | succ n ih => simp [toBytes, ih]

theorem getLsbD_ofBytes_toBytes (n : Nat) (v : BitVec w) (i : Nat) :
    (ofBytes w (toBytes n v)).getLsbD i = (decide (i < 8 * n) && v.getLsbD i) := by
  induction n generalizing v i with
  | zero => simp [toBytes, ofBytes]
  | succ n ih =>
    by_cases inside : i < w
    · by_cases low : i < 8
      · have within : i < 8 * (n + 1) := by lia
        simp [toBytes, ofBytes, inside, low, within]
      · have shifted : i - 8 < w := by lia
        have bound : i - 8 < 8 * n ↔ i < 8 * (n + 1) := by lia
        have back : 8 + (i - 8) = i := by lia
        have rest : (ofBytes w (toBytes n (v >>> 8)))[i - 8] = (decide (i < 8 * (n + 1)) && v[i]) := by
          rw [← BitVec.getLsbD_eq_getElem shifted, ih, BitVec.getLsbD_ushiftRight, back,
            BitVec.getLsbD_eq_getElem inside, decide_eq_decide.mpr bound]
        simp [toBytes, ofBytes, inside, low, rest]
    · rw [BitVec.getLsbD_of_ge _ _ (by lia), BitVec.getLsbD_of_ge _ _ (by lia), Bool.and_false]

theorem ofBytes_toBytes {n : Nat} (wide : w ≤ 8 * n) (v : BitVec w) :
    ofBytes w (toBytes n v) = v := by
  apply BitVec.eq_of_getLsbD_eq
  intro i inside
  have bound : i < 8 * n := by lia
  simp [getLsbD_ofBytes_toBytes, bound]

/-- The `n` low bytes are the same. -/
def SameLow (n : Nat) (a b : BitVec w) : Prop := ∀ i < 8 * n, a.getLsbD i = b.getLsbD i

theorem SameLow.refl (n : Nat) (a : BitVec w) : SameLow n a a := fun _ _ => rfl

theorem SameLow.mono {n k : Nat} {a b : BitVec w} (same : SameLow n a b) (fewer : k ≤ n) :
    SameLow k a b :=
  fun i low => same i (by lia)

theorem SameLow.eq {n : Nat} {a b : BitVec w} (same : SameLow n a b) (wide : w ≤ 8 * n) : a = b :=
  BitVec.eq_of_getLsbD_eq (fun i inside => same i (by lia))

theorem SameLow.setWidth {n k : Nat} {a b : BitVec w} (same : SameLow n a b) (narrow : k ≤ 8 * n) :
    a.setWidth k = b.setWidth k := by
  apply BitVec.eq_of_getLsbD_eq
  intro i inside
  rw [BitVec.getLsbD_setWidth, BitVec.getLsbD_setWidth, same i (by lia)]

theorem sameLow_iff {n : Nat} {a b : BitVec w} :
    SameLow n a b ↔ a.setWidth (8 * n) = b.setWidth (8 * n) := by
  constructor
  · intro same
    exact same.setWidth (Nat.le_refl _)
  · intro same i low
    have bit := congrArg (fun c => c.getLsbD i) same
    simpa [low] using bit

section arithmetic
variable {n : Nat} {a a' b b' : BitVec w} (left : SameLow n a a') (right : SameLow n b b')
include left

theorem SameLow.shiftLeft (k : Nat) : SameLow n (a <<< k) (a' <<< k) := by
  intro i low
  rw [BitVec.getLsbD_shiftLeft, BitVec.getLsbD_shiftLeft, left (i - k) (by lia)]

theorem SameLow.not : SameLow n (~~~a) (~~~a') := by
  intro i low
  rw [BitVec.getLsbD_not, BitVec.getLsbD_not, left i low]

include right

theorem SameLow.add (narrow : 8 * n ≤ w) : SameLow n (a + b) (a' + b') := by
  rw [sameLow_iff] at left right ⊢
  rw [BitVec.setWidth_add _ _ narrow, BitVec.setWidth_add _ _ narrow, left, right]

theorem SameLow.mul (narrow : 8 * n ≤ w) : SameLow n (a * b) (a' * b') := by
  rw [sameLow_iff] at left right ⊢
  rw [BitVec.setWidth_mul _ _ narrow, BitVec.setWidth_mul _ _ narrow, left, right]

theorem SameLow.sub (narrow : 8 * n ≤ w) : SameLow n (a - b) (a' - b') := by
  have negated : SameLow n (-b) (-b') := by
    rw [sameLow_iff] at right ⊢
    rw [BitVec.setWidth_neg_of_le narrow, BitVec.setWidth_neg_of_le narrow, right]
  rw [BitVec.sub_eq_add_neg, BitVec.sub_eq_add_neg]
  exact left.add negated narrow

theorem SameLow.and : SameLow n (a &&& b) (a' &&& b') := by
  intro i low
  rw [BitVec.getLsbD_and, BitVec.getLsbD_and, left i low, right i low]

theorem SameLow.or : SameLow n (a ||| b) (a' ||| b') := by
  intro i low
  rw [BitVec.getLsbD_or, BitVec.getLsbD_or, left i low, right i low]

theorem SameLow.xor : SameLow n (a ^^^ b) (a' ^^^ b') := by
  intro i low
  rw [BitVec.getLsbD_xor, BitVec.getLsbD_xor, left i low, right i low]

end arithmetic

theorem SameLow.toBytes {n : Nat} {a b : BitVec w} (same : SameLow n a b) : toBytes n a = toBytes n b := by
  induction n generalizing a b with
  | zero => rfl
  | succ n ih =>
    have rest : SameLow n (a >>> 8) (b >>> 8) := by
      intro i low
      rw [BitVec.getLsbD_ushiftRight, BitVec.getLsbD_ushiftRight, same (8 + i) (by lia)]
    rw [Bytes.toBytes, Bytes.toBytes, same.setWidth (by lia), ih rest]

abbrev Memory (w : Nat) := BitVec w → Byte

def read (m : Memory w) (a : BitVec w) (n : Nat) : List Byte :=
  (List.range n).map (fun i => m (a + BitVec.ofNat w i))

def write (m : Memory w) (a : BitVec w) (bs : List Byte) : Memory w :=
  fun x => (bs[(x - a).toNat]?).getD (m x)

@[simp] theorem length_read (m : Memory w) (a : BitVec w) (n : Nat) : (read m a n).length = n := by
  simp [read]

theorem read_write {bs : List Byte} (short : bs.length ≤ 2 ^ w) (m : Memory w) (a : BitVec w) :
    read (write m a bs) a bs.length = bs := by
  apply List.ext_getElem (by simp)
  intro i _ inside
  have offset : (a + BitVec.ofNat w i - a).toNat = i := by
    rw [BitVec.add_comm, BitVec.add_sub_cancel, BitVec.toNat_ofNat, Nat.mod_eq_of_lt (by lia)]
  simp only [read, write, List.getElem_map, List.getElem_range, offset,
    List.getElem?_eq_getElem inside, Option.getD_some]

def Apart (a : BitVec w) (n : Nat) (b : BitVec w) (k : Nat) : Prop :=
  ∀ i < k, n ≤ (b + BitVec.ofNat w i - a).toNat

theorem read_write_apart {a b : BitVec w} {bs : List Byte} {k : Nat}
    (apart : Apart a bs.length b k) (m : Memory w) :
    read (write m a bs) b k = read m b k := by
  apply List.map_congr_left
  intro i member
  have beyond := apart i (List.mem_range.mp member)
  simp only [write, List.getElem?_eq_none beyond, Option.getD_none]

theorem Apart.ofNat {a n b k : Nat} (first : a + n ≤ 2 ^ w) (second : b + k ≤ 2 ^ w)
    (order : a + n ≤ b ∨ b + k ≤ a) : Apart (BitVec.ofNat w a) n (BitVec.ofNat w b) k := by
  intro i inside
  rcases Nat.eq_zero_or_pos n with rfl | some
  · exact Nat.zero_le _
  have base : a % 2 ^ w = a := Nat.mod_eq_of_lt (by lia)
  have place : (b + i) % 2 ^ w = b + i := Nat.mod_eq_of_lt (by lia)
  rw [← BitVec.ofNat_add, BitVec.toNat_sub, BitVec.toNat_ofNat, BitVec.toNat_ofNat, base, place]
  rcases order with below | above
  · rw [show 2 ^ w - a + (b + i) = b + i - a + 2 ^ w by lia, Nat.add_mod_right,
      Nat.mod_eq_of_lt (by lia)]
    lia
  · rw [Nat.mod_eq_of_lt (by lia)]
    lia

section Copy
variable (m : Memory w) (dst src x : BitVec w) {k n lo hi : Nat}

theorem getElem?_read (a : BitVec w) (n i : Nat) :
    (read m a n)[i]? = if i < n then some (m (a + BitVec.ofNat w i)) else none := by
  by_cases inside : i < n
  · simp [read, inside]
  · simp [read, inside]

/-- The memory after the bytes `lo` up to `hi` of an area at `src` have come to `dst`. -/
def copied (lo hi : Nat) : Memory w := fun x =>
  if lo ≤ (x - dst).toNat ∧ (x - dst).toNat < hi then m (src + (x - dst)) else m x

theorem toNat_sub_ofNat (d : BitVec w) (k : Nat) (fits : k < 2 ^ w) :
    (d - BitVec.ofNat w k).toNat = if k ≤ d.toNat then d.toNat - k else d.toNat + 2 ^ w - k := by
  have bound := d.isLt
  rw [BitVec.toNat_sub, BitVec.toNat_ofNat, Nat.mod_eq_of_lt fits]
  split
  · rw [show 2 ^ w - k + d.toNat = d.toNat - k + 2 ^ w by lia, Nat.add_mod_right, Nat.mod_eq_of_lt (by lia)]
  · rw [Nat.mod_eq_of_lt (by lia)]
    lia

theorem ofNat_sub_add (d : BitVec w) {k : Nat} (above : k ≤ d.toNat) :
    src + BitVec.ofNat w k + BitVec.ofNat w (d.toNat - k) = src + d := by
  rw [BitVec.add_assoc, ← BitVec.ofNat_add, Nat.add_sub_cancel' above, BitVec.ofNat_toNat, BitVec.setWidth_eq]

theorem write_read (inside : k + n ≤ 2 ^ w) :
    write m (dst + BitVec.ofNat w k) (read m (src + BitVec.ofNat w k) n) = copied m dst src k (k + n) := by
  funext x
  have bound := (x - dst).isLt
  rcases Nat.eq_zero_or_pos n with rfl | some
  · have none : ¬ (k ≤ (x - dst).toNat ∧ (x - dst).toNat < k + 0) := by lia
    rw [copied, if_neg none]
    rfl
  have offset := toNat_sub_ofNat (x - dst) k (by lia)
  rw [write, ← BitVec.sub_sub, offset, getElem?_read, copied]
  by_cases above : k ≤ (x - dst).toNat
  · rw [if_pos above]
    by_cases below : (x - dst).toNat < k + n
    · rw [if_pos (by lia), if_pos ⟨above, below⟩, ofNat_sub_add src (x - dst) above, Option.getD_some]
    · rw [if_neg (by lia), if_neg (fun h => below h.2), Option.getD_none]
  · rw [if_neg above, if_neg (by lia), if_neg (fun h => above h.1), Option.getD_none]

theorem copied_none : copied m dst src k k = m := by
  funext x
  exact if_neg (fun h => by lia)

theorem copied_append {lo k hi : Nat} (ordered : lo ≤ k) (rest : k ≤ hi)
    (unread : ∀ d : BitVec w, k ≤ d.toNat → d.toNat < hi →
      ¬ (lo ≤ (src + d - dst).toNat ∧ (src + d - dst).toNat < k)) :
    copied (copied m dst src lo k) dst src k hi = copied m dst src lo hi := by
  funext x
  by_cases later : k ≤ (x - dst).toNat ∧ (x - dst).toNat < hi
  · have both : lo ≤ (x - dst).toNat ∧ (x - dst).toNat < hi := ⟨by lia, later.2⟩
    rw [copied, if_pos later, copied, if_neg (unread _ later.1 later.2), copied, if_pos both]
  · have same : (lo ≤ (x - dst).toNat ∧ (x - dst).toNat < k) ↔
        lo ≤ (x - dst).toNat ∧ (x - dst).toNat < hi := by lia
    rw [copied, if_neg later, copied, copied, if_congr same rfl rfl]

theorem copied_prepend {lo k hi : Nat} (ordered : lo ≤ k) (rest : k ≤ hi)
    (unread : ∀ d : BitVec w, lo ≤ d.toNat → d.toNat < k →
      ¬ (k ≤ (src + d - dst).toNat ∧ (src + d - dst).toNat < hi)) :
    copied (copied m dst src k hi) dst src lo k = copied m dst src lo hi := by
  funext x
  by_cases later : lo ≤ (x - dst).toNat ∧ (x - dst).toNat < k
  · have both : lo ≤ (x - dst).toNat ∧ (x - dst).toNat < hi := ⟨later.1, by lia⟩
    rw [copied, if_pos later, copied, if_neg (unread _ later.1 later.2), copied, if_pos both]
  · have same : (k ≤ (x - dst).toNat ∧ (x - dst).toNat < hi) ↔
        lo ≤ (x - dst).toNat ∧ (x - dst).toNat < hi := by lia
    rw [copied, if_neg later, copied, copied, if_congr same rfl rfl]

end Copy
end Bytes

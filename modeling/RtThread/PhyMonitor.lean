import Mathlib.Data.BitVec
import Mathlib.Data.List.Chain
import Mathlib.Data.List.TakeWhile

/-! The link monitor of the Ethernet driver (drv_eth.c): the main loop of its thread, over
any sequence of values read from the basic status and the basic control register. -/
namespace RtThread.PhyMonitor

def phyLinkedStatusMask : BitVec 32 := 1 <<< 2
def phyAutonegoCompleteMask : BitVec 32 := 1 <<< 5

def phyLinkMask : BitVec 8 := 1 <<< 0
def phy100mMask : BitVec 8 := 1 <<< 1
def phyDuplexMask : BitVec 8 := 1 <<< 2

/-- What one pass of the loop reads. `bcr` is looked at only if `status` calls for it. -/
structure Reading where
  status : BitVec 32
  bcr : BitVec 32

/-- A call of eth_device_linkchange, with the control register it was decided on. -/
structure Linkchange where
  up : Bool
  bcr : BitVec 32

def speedBits (bcr : BitVec 32) : BitVec 8 :=
  let phySpeedNew := phyLinkMask
  let phySpeedNew := phySpeedNew ||| phy100mMask
  let phySpeedNew := if bcr &&& (1 <<< 13) = 0x2000 then phySpeedNew ||| phy100mMask else phySpeedNew
  if bcr &&& (1 <<< 8) = 0x100 then phySpeedNew ||| phyDuplexMask else phySpeedNew

/-- A pass of the loop; `phySpeed` is the word it compares with. -/
def iteration (phySpeed : BitVec 8) (r : Reading) : BitVec 8 × List Linkchange :=
  if r.status &&& (phyAutonegoCompleteMask ||| phyLinkedStatusMask) ≠ 0 then
    let phySpeedNew := speedBits r.bcr
    if phySpeedNew ≠ phySpeed then
      (phySpeedNew, [⟨if phySpeedNew &&& phyLinkMask ≠ 0 then true else false, r.bcr⟩])
    else (phySpeed, [])
  else (phySpeed, [])

def monitorLoop (rs : List Reading) : BitVec 8 × List Linkchange :=
  rs.foldl (fun s r => ((iteration s.1 r).1, s.2 ++ (iteration s.1 r).2)) (0, [])

/-- The value sent last; before the first one the link counts as down. -/
def lastSent (sent : List Linkchange) : Bool := (sent.getLast?.map Linkchange.up).getD false

def Reading.linked (r : Reading) : Bool := r.status &&& phyLinkedStatusMask ≠ 0

def Reading.active (r : Reading) : Bool :=
  r.status &&& (phyAutonegoCompleteMask ||| phyLinkedStatusMask) ≠ 0

/-- The bits of a control register that select speed and duplex mode. -/
def mode (bcr : BitVec 32) : BitVec 32 × BitVec 32 := (bcr &&& (1 <<< 13), bcr &&& (1 <<< 8))

/-- The reports follow the link, and a value is repeated only for another mode. -/
structure Follows (rs : List Reading) : Prop where
  link : ∀ before r, before ++ [r] <+: rs → lastSent (monitorLoop (before ++ [r])).2 = r.linked
  changed : (monitorLoop rs).2.IsChain (fun a b => a.up = b.up → mode a.bcr ≠ mode b.bcr)

/-- At first nothing to act on, then the link is up and stays up. -/
def NeverLost (rs : List Reading) : Prop :=
  ∃ quiet up, rs = quiet ++ up ∧ (∀ r ∈ quiet, r.active = false) ∧ ∀ r ∈ up, r.linked = true

/-- What phy_speed is after the notifications `sent`. -/
def lastSpeed (sent : List Linkchange) : BitVec 8 := (sent.getLast?.map (fun n => speedBits n.bcr)).getD 0

variable {rs : List Reading} {r : Reading}

theorem monitorLoop_snoc (rs : List Reading) (r : Reading) : monitorLoop (rs ++ [r]) =
    ((iteration (monitorLoop rs).1 r).1, (monitorLoop rs).2 ++ (iteration (monitorLoop rs).1 r).2) := by
  simp [monitorLoop]

theorem speedBits_mode {a b : BitVec 32} (same : mode a = mode b) : speedBits a = speedBits b := by
  obtain ⟨speed, duplex⟩ := Prod.mk.inj same
  simp only [speedBits, speed, duplex]

theorem speedBits_link (bcr : BitVec 32) : speedBits bcr &&& phyLinkMask ≠ 0 := by
  simp only [speedBits]
  split <;> split <;> decide

theorem speedBits_ne_zero (bcr : BitVec 32) : speedBits bcr ≠ 0 := by
  intro zero
  exact speedBits_link bcr (by simp [zero])

theorem linked_active (linked : r.linked = true) : r.active = true := by
  simp only [Reading.linked, Reading.active, decide_eq_true_eq] at linked ⊢
  intro none
  apply linked
  have whole : phyLinkedStatusMask = (phyAutonegoCompleteMask ||| phyLinkedStatusMask) &&& phyLinkedStatusMask := by
    decide
  rw [whole, ← BitVec.and_assoc, none]
  exact BitVec.zero_and

theorem iteration_quiet {speed : BitVec 8} (quiet : r.active = false) : iteration speed r = (speed, []) := by
  have idle : ¬ r.status &&& (phyAutonegoCompleteMask ||| phyLinkedStatusMask) ≠ 0 := by
    simpa [Reading.active] using quiet
  rw [iteration, if_neg idle]

theorem iteration_active {speed : BitVec 8} (active : r.active = true) : iteration speed r =
    if speedBits r.bcr ≠ speed then (speedBits r.bcr, [⟨true, r.bcr⟩]) else (speed, []) := by
  have acts : r.status &&& (phyAutonegoCompleteMask ||| phyLinkedStatusMask) ≠ 0 := by
    simpa [Reading.active] using active
  rw [iteration, if_pos acts]
  simp only [if_pos (speedBits_link r.bcr)]

/-- The word compared with is that of the last report, and every report says up. -/
structure Kept (s : BitVec 8 × List Linkchange) : Prop where
  speed : s.1 = lastSpeed s.2
  up : ∀ n ∈ s.2, n.up = true
  changed : s.2.IsChain (fun a b => a.up = b.up → mode a.bcr ≠ mode b.bcr)

theorem monitorLoop_kept (rs : List Reading) : Kept (monitorLoop rs) := by
  induction rs using List.reverseRecOn with
  | nil => exact ⟨rfl, by simp [monitorLoop], .nil⟩
  | append_singleton rs r ih =>
    rw [monitorLoop_snoc]
    cases active : r.active with
    | false => simpa [iteration_quiet active] using ih
    | true =>
      rw [iteration_active active]
      split
      · rename_i differs
        refine ⟨by simp [lastSpeed], ?_, ?_⟩
        · intro n here
          rcases List.mem_append.mp here with old | new
          · exact ih.up n old
          · rw [List.mem_singleton.mp new]
        · refine List.isChain_append.mpr ⟨ih.changed, .singleton _, ?_⟩
          intro last isLast new isNew _ same
          cases Option.mem_some.mp isNew
          apply differs
          have kept : (monitorLoop rs).1 = speedBits last.bcr := by
            rw [ih.speed, lastSpeed, Option.mem_def.mp isLast]
            rfl
          rw [kept, speedBits_mode same]
      · simpa using ih

theorem lastSent_eq_any (rs : List Reading) : lastSent (monitorLoop rs).2 = rs.any Reading.active := by
  induction rs using List.reverseRecOn with
  | nil => rfl
  | append_singleton rs r ih =>
    rw [monitorLoop_snoc, List.any_append, ← ih]
    cases active : r.active with
    | false => simp [iteration_quiet active, active]
    | true =>
      rw [iteration_active active]
      split
      · simp [lastSent, active]
      · rename_i same
        have kept := monitorLoop_kept rs
        have speed := kept.speed
        cases last : (monitorLoop rs).2.getLast? with
        | none =>
          simp only [lastSpeed, last, Option.map_none, Option.getD_none] at speed
          exact absurd (speed ▸ not_not.mp same) (speedBits_ne_zero r.bcr)
        | some n =>
          have up := kept.up n (List.mem_of_getLast? last)
          simp [lastSent, last, up]

/-- The reports follow the link exactly where it is never lost. -/
theorem reports_follow (rs : List Reading) : Follows rs ↔ NeverLost rs := by
  constructor
  · intro follows
    refine ⟨rs.takeWhile (fun r => !r.active), rs.dropWhile (fun r => !r.active),
      List.takeWhile_append_dropWhile.symm, ?_, ?_⟩
    · intro r here
      simpa using List.mem_takeWhile_imp here
    · intro r here
      obtain ⟨front, rest, parts⟩ := List.append_of_mem here
      have whole : rs.takeWhile (fun r => !r.active) ++ front ++ [r] <+: rs := by
        refine ⟨rest, ?_⟩
        calc rs.takeWhile (fun r => !r.active) ++ front ++ [r] ++ rest
            = rs.takeWhile (fun r => !r.active) ++ (front ++ r :: rest) := by simp
          _ = rs := by rw [← parts, List.takeWhile_append_dropWhile]
      rw [← follows.link _ r whole, lastSent_eq_any]
      have some : rs.dropWhile (fun r => !r.active) ≠ [] := by simp [parts]
      have head := List.head_dropWhile_not _ some
      simp only [parts, Bool.not_eq_false'] at head
      cases front with
      | nil =>
        have acts : r.active = true := by simpa using head
        simp [acts]
      | cons first front =>
        have acts : first.active = true := by simpa using head
        simp [acts]
  · rintro ⟨quiet, up, rfl, idle, linked⟩
    refine ⟨?_, (monitorLoop_kept _).changed⟩
    intro before r part
    rw [lastSent_eq_any]
    cases isLinked : r.linked with
    | true => simp [linked_active isLinked]
    | false =>
      have early : before ++ [r] <+: quiet := by
        rcases List.prefix_or_prefix_of_prefix part (List.prefix_append quiet up) with inside | ⟨u, beyond⟩
        · exact inside
        · rw [← beyond] at part
          have rest : u <+: up := (List.prefix_append_right_inj quiet).mp part
          rcases List.eq_nil_or_concat u with none | ⟨front, last, more⟩
          · simp [← beyond, none]
          · have same : last = r := by
              rw [more, List.concat_eq_append, ← List.append_assoc] at beyond
              exact List.singleton_inj.mp (List.append_inj' beyond rfl).2
            have here : r ∈ up := rest.subset (by simp [more, same])
            rw [linked r here] at isLinked
            cases isLinked
      refine List.any_eq_false.mpr ?_
      intro q here
      simp [idle q (early.subset here)]

/-- The link is lost after it was up, and nothing is sent. -/
theorem link_loss_unreported : ¬ ∀ rs, Follows rs := by
  intro follows
  have told := (follows [⟨0x24, 0⟩, ⟨0, 0⟩]).link [⟨0x24, 0⟩] ⟨0, 0⟩ (by simp)
  exact absurd told (by decide)

end RtThread.PhyMonitor

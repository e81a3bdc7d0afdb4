import Mathlib.Data.List.Nodup
import RtThread.Kernel
import RtThread.Run
import RtThread.Time

/-! The alarms of the RTC. Each function runs under the mutex; alarm_set succeeds and leaves the set
time as it is, so only the choice of `_container.current` is left of it. -/
namespace RtThread.Alarm
open Kernel Time Transition

def rtAlarmDelay : Nat := 2
def rtAlarmTmNow : Int := -1
def rtRtcYearsMax : Int := 137

/-- `flag & 0xFF00`; `other` are the values that alarm_setup refuses. -/
inductive Kind where
  | oneshot
  | daily
  | weekly
  | monthly
  | yearly
  | other
  deriving DecidableEq

/-- `id` is the address; `callback` says that there is one. -/
structure RtAlarm where
  id : Nat
  kind : Kind
  inited : Bool
  start : Bool
  callback : Bool
  wktime : Tm
  deriving DecidableEq

def alarmMkdaysec (t : Tm) : Nat := ((t.tmSec + t.tmMin * 60 + t.tmHour * 3600) % 2 ^ 32).toNat

/-- `sec_now` is in the delay behind `sec_alarm`, both rt_uint32_t. -/
def lately (secAlarm secNow : Nat) : Bool := sub32 secNow secAlarm ≤ rtAlarmDelay && secAlarm ≤ secNow

/-- What alarm_wakeup tests. mktime also writes to the tm_wday of a one-shot alarm, which has no use. -/
def due (a : RtAlarm) (now : Tm) : Bool :=
  let secAlarm := alarmMkdaysec a.wktime
  let secNow := alarmMkdaysec now
  match a.kind with
  | .oneshot => lately (mktime a.wktime % 2 ^ 32).toNat (mktime now % 2 ^ 32).toNat
  | .daily => lately secAlarm secNow
  | .weekly =>
    lately (((secAlarm + a.wktime.tmWday * 24 * 3600) % 2 ^ 32).toNat)
      (((secNow + now.tmWday * 24 * 3600) % 2 ^ 32).toNat)
  | .monthly => decide (a.wktime.tmMday = now.tmMday) && decide (sub32 secNow secAlarm ≤ rtAlarmDelay)
  | .yearly =>
    decide (a.wktime.tmMday = now.tmMday) && decide (a.wktime.tmMon = now.tmMon) &&
      decide (sub32 secNow secAlarm ≤ rtAlarmDelay)
  | .other => false

/-- The alarm afterwards, and whether its callback is called. -/
def alarmWakeup (a : RtAlarm) (now : Tm) : RtAlarm × Bool :=
  if a.start ∧ due a now then ({ a with start := decide (a.kind ≠ .oneshot) }, a.callback) else (a, false)

structure Pick where
  secNext : Int
  almNext : Option Nat
  secPrev : Int
  almPrev : Option Nat

def pickStep (current : Option Nat) (secNow : Int) (p : Pick) (a : RtAlarm) : Pick :=
  let secTmp := (alarmMkdaysec a.wktime : Int) - secNow
  if a.start ∧ current ≠ some a.id then
    if 0 < secTmp then
      if secTmp < p.secNext then { p with secNext := secTmp, almNext := some a.id } else p
    else if secTmp < p.secPrev then { p with secPrev := secTmp, almPrev := some a.id }
    else p
  else p

/-- The second loop of alarm_update and what follows it. -/
def pickCurrent (alarms : List RtAlarm) (current : Option Nat) (secNow : Int) : Option Nat :=
  let p := alarms.foldl (pickStep current secNow) ⟨24 * 3600, none, 0, none⟩
  if p.secNext < 24 * 3600 then p.almNext
  else if p.secPrev < 0 then p.almPrev
  else current

/-- `now` is the last reading of the clock; the functions take theirs as arguments. -/
structure Container where
  alarms : List RtAlarm
  current : Option Nat
  now : Nat

inductive Event where
  | called (id t : Nat)
  deriving DecidableEq

def alarmUpdate (s : Container) (t1 t2 : Nat) : Container × List Event :=
  if s.alarms = [] then (s, [])
  else
    let woken := s.alarms.map (fun a => alarmWakeup a (gmtimeR t1))
    let alarms := woken.map Prod.fst
    ({ alarms := alarms, current := pickCurrent alarms s.current (alarmMkdaysec (gmtimeR t2)), now := t2 },
      (woken.filter Prod.snd).map (fun r => .called r.1.id t1))

def daysOfYearMonth (tmYear tmMon : Int) : Int :=
  let year := tmYear + 1900
  if tmMon = 1 then
    28 + if (year % 4 = 0 ∧ year % 100 ≠ 0) ∨ year % 400 = 0 then 1 else 0
  else if (tmMon ≤ 6 ∧ tmMon % 2 = 0) ∨ (6 < tmMon ∧ tmMon % 2 = 1) then 31
  else 30

def isValidDate (date : Tm) : Bool :=
  if date.tmYear < 0 ∨ rtRtcYearsMax < date.tmYear then false
  else if date.tmMon < 0 ∨ 11 < date.tmMon then false
  else if date.tmMday < 1 ∨ daysOfYearMonth date.tmYear date.tmMon < date.tmMday then false
  else true

/-- A "don't care" value is set to now. -/
def orNow (low high value now : Int) : Int := if high < value ∨ value < low then now else value

/-- The switch of alarm_setup. -/
def setupDate (kind : Kind) (setup now : Tm) : Tm × Bool :=
  match kind with
  | .daily => (setup, true)
  | .oneshot =>
    let setup : Tm := { setup with
      tmYear := if setup.tmYear = rtAlarmTmNow then now.tmYear else setup.tmYear
      tmMon := if setup.tmMon = rtAlarmTmNow then now.tmMon else setup.tmMon
      tmMday := if setup.tmMday = rtAlarmTmNow then now.tmMday else setup.tmMday }
    (setup, isValidDate setup)
  | .weekly => ({ setup with tmWday := orNow 0 6 setup.tmWday now.tmWday }, true)
  | .monthly => ({ setup with tmMday := orNow 1 31 setup.tmMday now.tmMday }, true)
  | .yearly =>
    let setup : Tm := { setup with tmMon := orNow 0 11 setup.tmMon now.tmMon }
    let last : Int :=
      if setup.tmMon = 1 then 29
      else if (setup.tmMon ≤ 6 ∧ setup.tmMon % 2 = 0) ∨ (6 < setup.tmMon ∧ setup.tmMon % 2 = 1) then 31
      else 30
    ({ setup with tmMday := orNow 1 last setup.tmMday now.tmMday }, true)
  | .other => (setup, false)

def setupTime (setup now : Tm) : Tm :=
  { setup with
    tmSec := orNow 0 59 setup.tmSec now.tmSec
    tmMin := orNow 0 59 setup.tmMin now.tmMin
    tmHour := orNow 0 23 setup.tmHour now.tmHour }

/-- The alarm, and whether alarm_setup returns RT_EOK. -/
def alarmSetup (a : RtAlarm) (now : Tm) : RtAlarm × Bool :=
  let (setup, valid) := setupDate a.kind (setupTime a.wktime now) now
  if valid then
    let early := setup.tmHour = 23 ∧ setup.tmMin = 59 ∧ setup.tmSec = 59
    ({ a with
      wktime := if early then { setup with tmSec := 60 - (rtAlarmDelay : Int) } else setup
      inited := true }, true)
  else ({ a with wktime := setup }, false)

def lookup (alarms : List RtAlarm) (id : Nat) : Option RtAlarm := alarms.find? (fun a => a.id = id)

def store (alarms : List RtAlarm) (a : RtAlarm) : List RtAlarm :=
  alarms.map (fun b => if b.id = a.id then a else b)

/-- The three cases in which rt_alarm_start sets the new alarm. -/
def comesFirst (secNew secOld secNow : Nat) : Bool :=
  (secNew < secOld && secNow < secNew) || (secNow < secNew && secOld < secNow) ||
    (secNew < secOld && secOld < secNow)

def secOf (a : RtAlarm) : Nat := alarmMkdaysec a.wktime

/-- What rt_alarm_start makes current. -/
def startCurrent (alarms : List RtAlarm) (current : Option Nat) (a : RtAlarm) (t2 : Nat) : Option Nat :=
  if (match current.bind (lookup alarms) with
    | none => true
    | some c => comesFirst (secOf a) (secOf c) (alarmMkdaysec (gmtimeR t2))) then some a.id
  else current

/-- What alarm_setup makes of an alarm that is to be started, where it has not been set up. -/
def setUp (a : RtAlarm) (t1 : Nat) : RtAlarm × Bool :=
  if a.inited then (a, true) else alarmSetup a (gmtimeR t1)

/-- `t1` is the time that alarm_setup reads. -/
def rtAlarmStart (s : Container) (id t1 t2 : Nat) : Option Container :=
  (lookup s.alarms id).map (fun a =>
    let (a, valid) := setUp a t1
    if !valid ∨ a.start then { s with alarms := store s.alarms a }
    else
      let a := { a with start := true }
      let alarms := store s.alarms a
      { alarms := alarms, current := startCurrent alarms s.current a t2, now := t2 })

def rtAlarmStop (s : Container) (id t1 t2 : Nat) : Option (Container × List Event) :=
  (lookup s.alarms id).map (fun a =>
    if !a.start then (s, [])
    else
      let s := { s with alarms := store s.alarms { a with start := false } }
      if s.current = some id then alarmUpdate { s with current := none } t1 t2 else (s, []))

def rtAlarmDelete (s : Container) (id t1 t2 : Nat) : Option (Container × List Event) :=
  (lookup s.alarms id).map (fun a =>
    let s := { s with alarms := store s.alarms { a with start := false } }
    let r := if s.current = some id then alarmUpdate { s with current := none } t1 t2 else (s, [])
    ({ r.1 with alarms := r.1.alarms.filter (fun b => b.id ≠ id) }, r.2))

/-- `id` is what rt_malloc gives. -/
def rtAlarmCreate (s : Container) (id : Nat) (kind : Kind) (callback : Bool) (wktime : Tm) :
    Option Container :=
  if (lookup s.alarms id).isSome then none
  else some { s with alarms := ⟨id, kind, false, false, callback, wktime⟩ :: s.alarms }

inductive Action where
  | create (id : Nat) (kind : Kind) (callback : Bool) (wktime : Tm)
  | start (id t1 t2 : Nat)
  | stop (id t1 t2 : Nat)
  | delete (id t1 t2 : Nat)
  | update (t1 t2 : Nat)

def inOrder (s : Container) (t1 t2 : Nat) : Bool := s.now ≤ t1 && t1 ≤ t2

def step (s : Container) : Action → Option (Container × List Event)
  | .create id kind callback wktime => (rtAlarmCreate s id kind callback wktime).map (fun s => (s, []))
  | .start id t1 t2 => if inOrder s t1 t2 then (rtAlarmStart s id t1 t2).map (fun s => (s, [])) else none
  | .stop id t1 t2 => if inOrder s t1 t2 then rtAlarmStop s id t1 t2 else none
  | .delete id t1 t2 => if inOrder s t1 t2 then rtAlarmDelete s id t1 t2 else none
  | .update t1 t2 => if inOrder s t1 t2 then some (alarmUpdate s t1 t2) else none

structure Start (s : Container) : Prop where
  alarms : s.alarms = []
  current : s.current = none

def machine : Machine Container Action Event where
  start := Start
  step := step

def gap (secNow sec : Nat) : Nat := if secNow < sec then sec - secNow else sec + 86400 - secNow

def ahead (t : Nat) (a : RtAlarm) : Nat := gap (alarmMkdaysec (gmtimeR t)) (secOf a)

/-- The current alarm is the next one due of those started. -/
def NextDue (s : Container) : Prop :=
  ∀ a ∈ s.alarms, a.start = true → ∃ c ∈ s.alarms, s.current = some c.id ∧ c.start = true ∧
    ∀ b ∈ s.alarms, b.start = true → ahead s.now c ≤ ahead s.now b

/-- An alarm that alarm_wakeup does not stop. -/
def Stays (t : Nat) (a : RtAlarm) : Prop :=
  a.start = true ∧ ¬(a.kind = .oneshot ∧ due a (gmtimeR t) = true)

/-- What alarm_update must find: where the current alarm stays started and another one is not at the
very time, that some other one comes no later than the current one; where the current alarm does not
stay started, that not all alarms that do are at the very time. -/
def Rearms (alarms : List RtAlarm) (current : Option Nat) (t1 t2 : Nat) : Prop :=
  (∀ c ∈ alarms, current = some c.id → Stays t1 c →
    ∀ a ∈ alarms, a.id ≠ c.id → Stays t1 a → secOf a ≠ alarmMkdaysec (gmtimeR t2) →
      ∃ b ∈ alarms, b.id ≠ c.id ∧ Stays t1 b ∧ ahead t2 b ≤ ahead t2 c) ∧
  ((∀ c ∈ alarms, current = some c.id → ¬Stays t1 c) →
    ∀ a ∈ alarms, Stays t1 a → ∃ b ∈ alarms, Stays t1 b ∧ secOf b ≠ alarmMkdaysec (gmtimeR t2))

/-- What rt_alarm_start must find of the current alarm: started, its time has not come since the clock
was read last, or no other is started, and it is not at the very time unless the new one is; stopped,
it is the new one, or the new one comes before it and it is not at the very time. -/
def Compares (s : Container) (a : RtAlarm) (t2 : Nat) : Prop :=
  ∀ c ∈ s.alarms, s.current = some c.id →
    (c.start = true →
      (t2 < s.now + ahead s.now c ∨ ∀ b ∈ s.alarms, b.start = true → b.id = c.id) ∧
      (secOf c = alarmMkdaysec (gmtimeR t2) → secOf a = alarmMkdaysec (gmtimeR t2))) ∧
    (c.start = false →
      c.id = a.id ∨ (secOf c ≠ alarmMkdaysec (gmtimeR t2) ∧ ahead t2 a < ahead t2 c))

def Guard (s : Container) : Action → Prop
  | .create .. => True
  | .start id t1 t2 => ∀ a, lookup s.alarms id = some a → (setUp a t1).2 = true →
      (setUp a t1).1.start = false → Compares s (setUp a t1).1 t2
  | .stop id t1 t2 => ∀ a, lookup s.alarms id = some a → a.start = true → s.current = some id →
      Rearms (store s.alarms { a with start := false }) none t1 t2
  | .delete id t1 t2 => ∀ a, lookup s.alarms id = some a → s.current = some id →
      Rearms (store s.alarms { a with start := false }) none t1 t2
  | .update t1 t2 => Rearms s.alarms s.current t1 t2

variable {s s' : Container} {es : List Event} {alarms : List RtAlarm} {current : Option Nat}
  {a b c : RtAlarm} {id t t1 t2 n : Nat}

/-- Each alarm occurs once, those set up have a time of day, and so has the current one. -/
structure Sound (alarms : List RtAlarm) (current : Option Nat) : Prop where
  ids : (alarms.map RtAlarm.id).Nodup
  times : ∀ a ∈ alarms, a.inited = true → secOf a < 86400
  inited : ∀ a ∈ alarms, a.start = true → a.inited = true
  current : ∀ id, current = some id → ∃ c ∈ alarms, c.id = id ∧ c.inited = true

structure Inv (s : Container) : Prop where
  sound : Sound s.alarms s.current
  next : NextDue s

theorem gmtimeR_daysec (t : Nat) : alarmMkdaysec (gmtimeR t) = t % 86400 := by
  have bound : t % 86400 < 86400 := Nat.mod_lt _ (by decide)
  simp only [alarmMkdaysec, gmtimeR]
  lia

/-- An alarm that the second loop of alarm_update looks at, and does not pass over for being at the
very time. -/
def Candidate (current : Option Nat) (n : Nat) (a : RtAlarm) : Prop :=
  a.start = true ∧ current ≠ some a.id ∧ secOf a ≠ n

/-- The two minima after the alarms `seen`. -/
structure Best (current : Option Nat) (n : Nat) (seen : List RtAlarm) (p : Pick) : Prop where
  next : (p.almNext = none ∧ p.secNext = 24 * 3600) ∨
    ∃ a ∈ seen, Candidate current n a ∧ p.almNext = some a.id ∧ (secOf a : Int) - n = p.secNext ∧
      0 < p.secNext
  prev : (p.almPrev = none ∧ p.secPrev = 0) ∨
    ∃ a ∈ seen, Candidate current n a ∧ p.almPrev = some a.id ∧ (secOf a : Int) - n = p.secPrev ∧
      p.secPrev < 0
  least : ∀ a ∈ seen, Candidate current n a →
    (n < secOf a → p.secNext ≤ secOf a - n) ∧ (secOf a < n → p.secPrev ≤ secOf a - n)

theorem Best.grow {seen : List RtAlarm} {p : Pick} (best : Best current n seen p)
    (same : ∀ a, a = b → Candidate current n a →
      (n < secOf a → p.secNext ≤ secOf a - n) ∧ (secOf a < n → p.secPrev ≤ secOf a - n)) :
    Best current n (seen ++ [b]) p := by
  refine ⟨?_, ?_, ?_⟩
  · rcases best.next with none_found | ⟨a, member, found⟩
    · exact Or.inl none_found
    · exact Or.inr ⟨a, List.mem_append_left _ member, found⟩
  · rcases best.prev with none_found | ⟨a, member, found⟩
    · exact Or.inl none_found
    · exact Or.inr ⟨a, List.mem_append_left _ member, found⟩
  · intro a member candidate
    rcases List.mem_append.mp member with old | new
    · exact best.least a old candidate
    · exact same a (List.mem_singleton.mp new) candidate

theorem Best.step {seen : List RtAlarm} {p : Pick} (best : Best current n seen p) (b : RtAlarm) :
    Best current n (seen ++ [b]) (pickStep current n p b) := by
  have here : b ∈ seen ++ [b] := List.mem_append_right _ (List.mem_singleton_self b)
  simp only [pickStep]
  split
  · rename_i looked
    split
    · rename_i after
      split
      · rename_i less
        have grown : Best current n (seen ++ [b])
            { p with secNext := (alarmMkdaysec b.wktime : Int) - n, almNext := some b.id } := by
          refine ⟨Or.inr ⟨b, here, ⟨looked.1, looked.2, ?_⟩, rfl, rfl, after⟩, ?_, ?_⟩
          · unfold secOf
            lia
          · rcases best.prev with none_found | ⟨a, member, found⟩
            · exact Or.inl none_found
            · exact Or.inr ⟨a, List.mem_append_left _ member, found⟩
          · intro a member candidate
            rcases List.mem_append.mp member with old | new
            · have least := best.least a old candidate
              exact ⟨fun h => by have := least.1 h; simp only; lia, least.2⟩
            · cases List.mem_singleton.mp new
              unfold secOf
              exact ⟨fun _ => by simp only; lia, fun h => by lia⟩
        exact grown
      · rename_i more
        apply best.grow
        rintro a rfl _
        unfold secOf
        exact ⟨fun _ => by lia, fun h => by lia⟩
    · rename_i before
      split
      · rename_i less
        have grown : Best current n (seen ++ [b])
            { p with secPrev := (alarmMkdaysec b.wktime : Int) - n, almPrev := some b.id } := by
          have below : (alarmMkdaysec b.wktime : Int) - n < 0 := by
            rcases best.prev with ⟨_, zero⟩ | ⟨_, _, _, _, _, negative⟩ <;> lia
          refine ⟨?_, Or.inr ⟨b, here, ⟨looked.1, looked.2, ?_⟩, rfl, rfl, below⟩, ?_⟩
          · rcases best.next with none_found | ⟨a, member, found⟩
            · exact Or.inl none_found
            · exact Or.inr ⟨a, List.mem_append_left _ member, found⟩
          · unfold secOf
            lia
          · intro a member candidate
            rcases List.mem_append.mp member with old | new
            · have least := best.least a old candidate
              exact ⟨least.1, fun h => by have := least.2 h; simp only; lia⟩
            · cases List.mem_singleton.mp new
              unfold secOf
              exact ⟨fun h => by lia, fun _ => by simp only; lia⟩
        exact grown
      · rename_i more
        apply best.grow
        rintro a rfl candidate
        have other := candidate.2.2
        unfold secOf at other ⊢
        exact ⟨fun _ => by lia, fun h => by lia⟩
  · rename_i passed
    apply best.grow
    rintro a rfl candidate
    exact absurd ⟨candidate.1, candidate.2.1⟩ passed

theorem foldl_best (alarms seen : List RtAlarm) {p : Pick} (best : Best current n seen p) :
    Best current n (seen ++ alarms) (alarms.foldl (pickStep current n) p) := by
  induction alarms generalizing seen p with
  | nil => simpa using best
  | cons b rest ih =>
    have next := ih (seen ++ [b]) (best.step b)
    rwa [List.append_assoc] at next

/-- The alarm that alarm_update takes comes before every other it looks at; it takes none only where
all are at the very time. -/
theorem pickCurrent_spec (current : Option Nat) (n : Nat)
    (times : ∀ a ∈ alarms, a.start = true → secOf a < 86400) :
    (∃ a ∈ alarms, Candidate current n a ∧ pickCurrent alarms current n = some a.id ∧
      ∀ b ∈ alarms, Candidate current n b → gap n (secOf a) ≤ gap n (secOf b)) ∨
    (pickCurrent alarms current n = current ∧ ∀ b ∈ alarms, ¬Candidate current n b) := by
  have best : Best current n alarms (alarms.foldl (pickStep current n) ⟨24 * 3600, none, 0, none⟩) :=
    foldl_best alarms [] ⟨Or.inl ⟨rfl, rfl⟩, Or.inl ⟨rfl, rfl⟩, by simp⟩
  simp only [pickCurrent]
  generalize alarms.foldl (pickStep current n) ⟨24 * 3600, none, 0, none⟩ = p at best ⊢
  obtain ⟨next, prev, least⟩ := best
  rcases next with ⟨_, nothing⟩ | ⟨a, member, candidate, taken, sec, positive⟩
  · rw [if_neg (by lia)]
    have past : ∀ b ∈ alarms, Candidate current n b → secOf b < n := by
      intro b here found
      have day := times b here found.1
      have := (least b here found).1
      have other := found.2.2
      lia
    rcases prev with ⟨_, zero⟩ | ⟨a, member, candidate, taken, sec, negative⟩
    · rw [if_neg (by lia)]
      refine Or.inr ⟨rfl, ?_⟩
      intro b here found
      have before := past b here found
      have := (least b here found).2 before
      lia
    · rw [if_pos negative]
      refine Or.inl ⟨a, member, candidate, taken, ?_⟩
      intro b here found
      have before := past b here found
      have := (least b here found).2 before
      unfold gap
      rw [if_neg (by lia), if_neg (by lia)]
      lia
  · have day := times a member candidate.1
    rw [if_pos (by lia)]
    refine Or.inl ⟨a, member, candidate, taken, ?_⟩
    intro b here found
    have := (least b here found).1
    have other := found.2.2
    unfold gap
    rw [if_pos (by lia)]
    split <;> lia

theorem wakeup_frame (a : RtAlarm) (now : Tm) : (alarmWakeup a now).1.id = a.id ∧
    (alarmWakeup a now).1.wktime = a.wktime ∧ (alarmWakeup a now).1.inited = a.inited := by
  unfold alarmWakeup
  split <;> exact ⟨rfl, rfl, rfl⟩

theorem wakeup_start (a : RtAlarm) (t : Nat) :
    (alarmWakeup a (gmtimeR t)).1.start = true ↔ Stays t a := by
  unfold alarmWakeup Stays
  split
  · rename_i fires
    simp [fires.1, fires.2]
  · rename_i quiet
    simp only [not_and] at quiet
    constructor
    · exact fun started => ⟨started, fun h => quiet started h.2⟩
    · exact fun h => h.1

theorem Sound.same (sound : Sound alarms current) (first : a ∈ alarms) (second : b ∈ alarms)
    (id : a.id = b.id) : a = b :=
  List.inj_on_of_nodup_map sound.ids first second id

theorem Sound.map {f : RtAlarm → RtAlarm} (sound : Sound alarms current) (id : ∀ a, (f a).id = a.id)
    (wktime : ∀ a, (f a).wktime = a.wktime) (inited : ∀ a, (f a).inited = a.inited)
    (start : ∀ a, (f a).start = true → a.start = true) : Sound (alarms.map f) current := by
  refine ⟨?_, ?_, ?_, ?_⟩
  · have same : RtAlarm.id ∘ f = RtAlarm.id := funext id
    rw [List.map_map, same]
    exact sound.ids
  · intro b member set
    obtain ⟨a, here, rfl⟩ := List.mem_map.mp member
    rw [inited] at set
    unfold secOf
    rw [wktime]
    exact sound.times a here set
  · intro b member started
    obtain ⟨a, here, rfl⟩ := List.mem_map.mp member
    rw [inited]
    exact sound.inited a here (start a started)
  · intro i now
    obtain ⟨c, here, same, set⟩ := sound.current i now
    exact ⟨f c, List.mem_map_of_mem here, (id c).trans same, (inited c).trans set⟩

theorem gap_le (n sec : Nat) (day : sec < 86400) (today : n < 86400) : gap n sec ≤ 86400 := by
  unfold gap
  split <;> lia

theorem gap_self (n : Nat) : gap n n = 86400 := by
  unfold gap
  rw [if_neg (Nat.lt_irrefl n)]
  lia

theorem update_alarms (s : Container) (t1 t2 : Nat) : (alarmUpdate s t1 t2).1.alarms =
    s.alarms.map (fun a => (alarmWakeup a (gmtimeR t1)).1) := by
  unfold alarmUpdate
  split
  · rename_i empty
    simp [empty]
  · simp [List.map_map, Function.comp_def]

theorem update_pick (s : Container) (t1 t2 : Nat) (some_alarm : s.alarms ≠ []) :
    (alarmUpdate s t1 t2).1.current =
      pickCurrent (alarmUpdate s t1 t2).1.alarms s.current (alarmMkdaysec (gmtimeR t2)) ∧
    (alarmUpdate s t1 t2).1.now = t2 := by
  unfold alarmUpdate
  rw [if_neg some_alarm]
  exact ⟨rfl, rfl⟩

theorem update_sound (sound : Sound s.alarms s.current) (t1 t2 : Nat) :
    Sound (alarmUpdate s t1 t2).1.alarms s.current := by
  rw [update_alarms]
  exact sound.map (fun a => (wakeup_frame a _).1) (fun a => (wakeup_frame a _).2.1)
    (fun a => (wakeup_frame a _).2.2) (fun a started => ((wakeup_start a t1).mp started).1)

theorem Sound.time (sound : Sound alarms current) (member : a ∈ alarms) (started : a.start = true) :
    secOf a < 86400 := sound.times a member (sound.inited a member started)

theorem update_back (member : b ∈ (alarmUpdate s t1 t2).1.alarms) (started : b.start = true) :
    ∃ a ∈ s.alarms, a.id = b.id ∧ secOf a = secOf b ∧ Stays t1 a := by
  rw [update_alarms] at member
  obtain ⟨a, here, rfl⟩ := List.mem_map.mp member
  refine ⟨a, here, (wakeup_frame a _).1.symm, ?_, (wakeup_start a t1).mp started⟩
  unfold secOf
  rw [(wakeup_frame a _).2.1]

theorem update_forth (t2 : Nat) (member : a ∈ s.alarms) (stays : Stays t1 a) :
    ∃ b ∈ (alarmUpdate s t1 t2).1.alarms, b.id = a.id ∧ secOf b = secOf a ∧ b.start = true := by
  rw [update_alarms]
  refine ⟨_, List.mem_map_of_mem member, (wakeup_frame a _).1, ?_, (wakeup_start a t1).mpr stays⟩
  unfold secOf
  rw [(wakeup_frame a _).2.1]

theorem today (t : Nat) : alarmMkdaysec (gmtimeR t) < 86400 := by
  rw [gmtimeR_daysec]
  exact Nat.mod_lt _ (by decide)

theorem taken_before_current (sound : Sound s.alarms s.current) (rearms : Rearms s.alarms s.current t1 t2)
    (member : a ∈ (alarmUpdate s t1 t2).1.alarms)
    (candidate : Candidate s.current (alarmMkdaysec (gmtimeR t2)) a)
    (first : ∀ b ∈ (alarmUpdate s t1 t2).1.alarms, Candidate s.current (alarmMkdaysec (gmtimeR t2)) b →
      ahead t2 a ≤ ahead t2 b)
    (here : b ∈ (alarmUpdate s t1 t2).1.alarms) (started : b.start = true)
    (is_current : s.current = some b.id) : ahead t2 a ≤ ahead t2 b := by
  obtain ⟨c, before, id, sec, stays⟩ := update_back here started
  obtain ⟨d, d_before, d_id, d_sec, d_stays⟩ := update_back member candidate.1
  have other : d.id ≠ c.id := by
    rw [d_id, id]
    intro same
    apply candidate.2.1
    rw [is_current, same]
  obtain ⟨y, y_before, y_other, y_stays, y_first⟩ := rearms.1 c before (by rw [is_current, id])
    stays d d_before other d_stays (by rw [d_sec]; exact candidate.2.2)
  have less : ahead t2 a ≤ ahead t2 y := by
    by_cases y_now : secOf y = alarmMkdaysec (gmtimeR t2)
    · unfold ahead
      rw [y_now, gap_self]
      exact gap_le _ _ ((update_sound sound t1 t2).time member candidate.1) (today t2)
    · obtain ⟨z, z_here, z_id, z_sec, z_started⟩ := update_forth t2 y_before y_stays
      have z_candidate : Candidate s.current (alarmMkdaysec (gmtimeR t2)) z := by
        refine ⟨z_started, ?_, by rw [z_sec]; exact y_now⟩
        rw [is_current, z_id, ← id]
        intro same
        exact y_other (Option.some.inj same).symm
      have z_first := first z z_here z_candidate
      unfold ahead at z_first ⊢
      rwa [z_sec] at z_first
  have same : ahead t2 c = ahead t2 b := by
    unfold ahead
    rw [sec]
  rw [← same]
  exact Nat.le_trans less y_first

theorem NextDue.taken (current : s.current = some a.id) (member : a ∈ s.alarms) (started : a.start = true)
    (first : ∀ b ∈ s.alarms, b.start = true → ahead s.now a ≤ ahead s.now b) : NextDue s :=
  fun _ _ _ => ⟨a, member, current, started, first⟩

/-- alarm_update takes no alarm: the current one stays, and the others are at the very time. -/
theorem kept_next (sound : Sound s.alarms s.current) (rearms : Rearms s.alarms s.current t1 t2)
    (kept : (alarmUpdate s t1 t2).1.current = s.current) (now : (alarmUpdate s t1 t2).1.now = t2)
    (nobody : ∀ b ∈ (alarmUpdate s t1 t2).1.alarms, ¬Candidate s.current (alarmMkdaysec (gmtimeR t2)) b) :
    NextDue (alarmUpdate s t1 t2).1 := by
  intro b here started
  obtain ⟨b', before, id, sec, stays⟩ := update_back here started
  by_cases current_stays : ∃ c ∈ s.alarms, s.current = some c.id ∧ Stays t1 c
  · obtain ⟨c, c_before, is_current, c_stays⟩ := current_stays
    obtain ⟨d, d_here, d_id, d_sec, d_started⟩ := update_forth t2 c_before c_stays
    refine ⟨d, d_here, by rw [kept, is_current, d_id], d_started, ?_⟩
    intro e e_here e_started
    rw [now]
    by_cases same : e.id = d.id
    · exact Nat.le_of_eq (by rw [(update_sound sound t1 t2).same e_here d_here same])
    · have at_once : secOf e = alarmMkdaysec (gmtimeR t2) := by
        by_contra elsewhere
        apply nobody e e_here
        refine ⟨e_started, ?_, elsewhere⟩
        rw [is_current, ← d_id]
        intro equal
        exact same (Option.some.inj equal).symm
      unfold ahead
      rw [at_once, gap_self]
      exact gap_le _ _ ((update_sound sound t1 t2).time d_here d_started) (today t2)
  · exfalso
    have nobody_current : ∀ c ∈ s.alarms, s.current = some c.id → ¬Stays t1 c :=
      fun c c_before is_current c_stays => current_stays ⟨c, c_before, is_current, c_stays⟩
    obtain ⟨y, y_before, y_stays, y_later⟩ := rearms.2 nobody_current b' before stays
    obtain ⟨z, z_here, z_id, z_sec, z_started⟩ := update_forth t2 y_before y_stays
    apply nobody z z_here
    refine ⟨z_started, ?_, by rw [z_sec]; exact y_later⟩
    intro is_current
    rw [z_id] at is_current
    exact nobody_current y y_before is_current y_stays

/-- alarm_update makes the current alarm the next one due, and has made it current if it was not. -/
theorem update_inv (sound : Sound s.alarms s.current) (rearms : Rearms s.alarms s.current t1 t2) :
    Inv (alarmUpdate s t1 t2).1 ∧ ((alarmUpdate s t1 t2).1.current = s.current ∨
      ∃ a ∈ (alarmUpdate s t1 t2).1.alarms, a.start = true ∧
        (alarmUpdate s t1 t2).1.current = some a.id) := by
  have woken := update_sound sound t1 t2
  by_cases empty : s.alarms = []
  · have same : alarmUpdate s t1 t2 = (s, []) := by simp [alarmUpdate, empty]
    rw [same]
    refine ⟨⟨sound, ?_⟩, Or.inl rfl⟩
    intro a member
    rw [empty] at member
    cases member
  obtain ⟨current, now⟩ := update_pick s t1 t2 empty
  rcases pickCurrent_spec s.current (alarmMkdaysec (gmtimeR t2))
    (fun b member started => woken.time (a := b) member started) with
    ⟨a, member, candidate, picked, first⟩ | ⟨kept, nobody⟩
  · rw [← current] at picked
    refine ⟨⟨⟨woken.ids, woken.times, woken.inited, ?_⟩, ?_⟩, Or.inr ⟨a, member, candidate.1, picked⟩⟩
    · intro i is
      rw [picked] at is
      cases is
      exact ⟨a, member, rfl, woken.inited a member candidate.1⟩
    · apply NextDue.taken picked member candidate.1
      intro b here started
      rw [now]
      by_cases at_once : secOf b = alarmMkdaysec (gmtimeR t2)
      · unfold ahead
        rw [at_once, gap_self]
        exact gap_le _ _ (woken.time member candidate.1) (today t2)
      · by_cases is_current : s.current = some b.id
        · exact taken_before_current sound rearms member candidate first here started is_current
        · exact first b here ⟨started, is_current, at_once⟩
  · rw [← current] at kept
    exact ⟨⟨by rw [kept]; exact woken, kept_next sound rearms kept now nobody⟩, Or.inl kept⟩

theorem lookup_some (found : lookup alarms id = some a) : a ∈ alarms ∧ a.id = id := by
  have here := List.find?_some found
  exact ⟨List.mem_of_find?_eq_some found, by simpa using here⟩

theorem mem_store (member : b ∈ store alarms a) : b = a ∨ (b ∈ alarms ∧ b.id ≠ a.id) := by
  obtain ⟨c, here, result⟩ := List.mem_map.mp member
  split at result
  · exact Or.inl result.symm
  · rename_i other
    cases result
    exact Or.inr ⟨here, other⟩

theorem store_self (member : b ∈ alarms) (same : b.id = a.id) : a ∈ store alarms a :=
  List.mem_map.mpr ⟨b, member, if_pos same⟩

theorem store_other (member : b ∈ alarms) (other : b.id ≠ a.id) : b ∈ store alarms a :=
  List.mem_map.mpr ⟨b, member, if_neg other⟩

theorem Sound.store (sound : Sound alarms current) (times : a.inited = true → secOf a < 86400)
    (inited : a.start = true → a.inited = true)
    (keeps : ∀ b ∈ alarms, b.id = a.id → b.inited = true → a.inited = true) :
    Sound (store alarms a) current := by
  refine ⟨?_, ?_, ?_, ?_⟩
  · have same : RtAlarm.id ∘ (fun b : RtAlarm => if b.id = a.id then a else b) = RtAlarm.id := by
      funext b
      simp only [Function.comp_apply]
      split
      · rename_i equal
        exact equal.symm
      · rfl
    rw [Alarm.store, List.map_map, same]
    exact sound.ids
  · intro b member set
    rcases mem_store member with rfl | ⟨old, _⟩
    · exact times set
    · exact sound.times b old set
  · intro b member started
    rcases mem_store member with rfl | ⟨old, _⟩
    · exact inited started
    · exact sound.inited b old started
  · intro i is
    obtain ⟨c, here, same, set⟩ := sound.current i is
    by_cases self : c.id = a.id
    · exact ⟨a, store_self here self, self.symm.trans same, keeps c here self set⟩
    · exact ⟨c, store_other here self, same, set⟩

theorem orNow_range {low high now : Int} (value : Int) (above : low ≤ now) (below : now ≤ high) :
    low ≤ orNow low high value now ∧ orNow low high value now ≤ high := by
  unfold orNow
  split <;> lia

theorem setupDate_time (kind : Kind) (setup now : Tm) : (setupDate kind setup now).1.tmSec = setup.tmSec ∧
    (setupDate kind setup now).1.tmMin = setup.tmMin ∧ (setupDate kind setup now).1.tmHour = setup.tmHour := by
  cases kind <;> exact ⟨rfl, rfl, rfl⟩

theorem daysec_lt {w : Tm} (sec : 0 ≤ w.tmSec ∧ w.tmSec ≤ 59) (min : 0 ≤ w.tmMin ∧ w.tmMin ≤ 59)
    (hour : 0 ≤ w.tmHour ∧ w.tmHour ≤ 23) : alarmMkdaysec w < 86400 := by
  unfold alarmMkdaysec
  rw [Int.emod_eq_of_lt (by lia) (by lia)]
  lia

/-- What alarm_setup sets up has its second, minute and hour in their ranges. -/
theorem alarmSetup_range {t : Nat} (valid : (alarmSetup b (gmtimeR t)).2 = true) :
    (0 ≤ (alarmSetup b (gmtimeR t)).1.wktime.tmSec ∧ (alarmSetup b (gmtimeR t)).1.wktime.tmSec ≤ 59) ∧
    (0 ≤ (alarmSetup b (gmtimeR t)).1.wktime.tmMin ∧ (alarmSetup b (gmtimeR t)).1.wktime.tmMin ≤ 59) ∧
    (0 ≤ (alarmSetup b (gmtimeR t)).1.wktime.tmHour ∧ (alarmSetup b (gmtimeR t)).1.wktime.tmHour ≤ 23) := by
  have now_range : (0 ≤ (gmtimeR t).tmSec ∧ (gmtimeR t).tmSec ≤ 59) ∧
      (0 ≤ (gmtimeR t).tmMin ∧ (gmtimeR t).tmMin ≤ 59) ∧
      (0 ≤ (gmtimeR t).tmHour ∧ (gmtimeR t).tmHour ≤ 23) := by
    simp only [gmtimeR]
    lia
  have sec := orNow_range b.wktime.tmSec now_range.1.1 now_range.1.2
  have min := orNow_range b.wktime.tmMin now_range.2.1.1 now_range.2.1.2
  have hour := orNow_range b.wktime.tmHour now_range.2.2.1 now_range.2.2.2
  obtain ⟨same_sec, same_min, same_hour⟩ :=
    setupDate_time b.kind (setupTime b.wktime (gmtimeR t)) (gmtimeR t)
  unfold alarmSetup at valid ⊢
  generalize setupDate b.kind (setupTime b.wktime (gmtimeR t)) (gmtimeR t) = r at *
  obtain ⟨setup, accepted⟩ := r
  simp only [setupTime] at same_sec same_min same_hour
  cases accepted with
  | false => simp at valid
  | true =>
    rw [← same_sec] at sec
    rw [← same_min] at min
    rw [← same_hour] at hour
    simp only [if_true]
    split
    · exact ⟨by simp [rtAlarmDelay], min, hour⟩
    · exact ⟨sec, min, hour⟩

theorem alarmSetup_frame (b : RtAlarm) (now : Tm) : (alarmSetup b now).1.id = b.id ∧
    (alarmSetup b now).1.start = b.start ∧ (alarmSetup b now).1.kind = b.kind ∧
    (alarmSetup b now).1.inited = (b.inited || (alarmSetup b now).2) := by
  unfold alarmSetup
  generalize setupDate b.kind (setupTime b.wktime now) now = r
  obtain ⟨setup, accepted⟩ := r
  cases accepted <;> simp

theorem setUp_spec (t1 : Nat) (times : a.inited = true → secOf a < 86400) :
    (setUp a t1).1.id = a.id ∧ (setUp a t1).1.start = a.start ∧
      ((setUp a t1).2 = true → (setUp a t1).1.inited = true ∧ secOf (setUp a t1).1 < 86400) ∧
      ((setUp a t1).2 = false → a.inited = false ∧ (setUp a t1).1.inited = false) ∧
      (a.inited = true → (setUp a t1).1 = a) := by
  unfold setUp
  by_cases set : a.inited = true
  · simp only [if_pos set]
    exact ⟨trivial, trivial, fun _ => ⟨set, times set⟩, by simp, fun _ => trivial⟩
  · simp only [if_neg set]
    have unset := Bool.eq_false_iff.mpr set
    obtain ⟨same_id, same_start, _, inited⟩ := alarmSetup_frame a (gmtimeR t1)
    rw [unset, Bool.false_or] at inited
    refine ⟨same_id, same_start, ?_, fun failed => ⟨unset, inited.trans failed⟩, fun h => absurd h set⟩
    intro valid
    obtain ⟨sec, min, hour⟩ := alarmSetup_range valid
    exact ⟨inited.trans valid, daysec_lt sec min hour⟩

theorem NextDue.nobody (next : NextDue s)
    (stopped : ∀ c ∈ s.alarms, s.current = some c.id → c.start = false) (member : a ∈ s.alarms) :
    a.start = false := by
  by_contra started
  obtain ⟨c, here, is_current, c_started, _⟩ := next a member (by simpa using started)
  rw [stopped c here is_current] at c_started
  cases c_started

theorem ahead_later (later : t ≤ t2) (day : secOf a < 86400) (before : t2 < t + ahead t a) :
    ahead t2 a + (t2 - t) = ahead t a := by
  unfold ahead gap at before ⊢
  rw [gmtimeR_daysec] at before ⊢
  rw [gmtimeR_daysec]
  have bound : t % 86400 < 86400 := Nat.mod_lt _ (by decide)
  split at before <;> split <;> lia

theorem comesFirst_gap {secNew secOld secNow : Nat} (first : comesFirst secNew secOld secNow = true)
    (now : secNow < 86400) (new_day : secNew < 86400) : gap secNow secNew < gap secNow secOld := by
  simp only [comesFirst, Bool.or_eq_true, Bool.and_eq_true, decide_eq_true_eq] at first
  unfold gap
  split <;> split <;> lia

theorem comesFirst_not {secNew secOld secNow : Nat} (last : comesFirst secNew secOld secNow = false)
    (other : secOld ≠ secNow) (new_day : secNew < 86400) (old_day : secOld < 86400) :
    gap secNow secOld ≤ gap secNow secNew := by
  simp only [comesFirst, Bool.or_eq_false_iff, Bool.and_eq_false_iff, decide_eq_false_iff_not] at last
  unfold gap
  split <;> split <;> lia

theorem lookup_of_mem (sound : Sound alarms current) (member : c ∈ alarms) :
    lookup alarms c.id = some c := by
  cases found : lookup alarms c.id with
  | none =>
    have absent := List.find?_eq_none.mp found c member
    simp at absent
  | some b =>
    obtain ⟨here, same⟩ := lookup_some found
    rw [sound.same here member same]

theorem startCurrent_stopped (sound : Sound alarms current) (day : secOf a < 86400)
    (compares : ∀ c ∈ alarms, current = some c.id → c.id = a.id ∨
      (secOf c ≠ alarmMkdaysec (gmtimeR t2) ∧ ahead t2 a < ahead t2 c)) :
    startCurrent alarms current a t2 = some a.id := by
  unfold startCurrent
  cases is_current : current with
  | none => rfl
  | some i =>
    obtain ⟨c, here, rfl, set⟩ := sound.current i is_current
    simp only [Option.bind_some, lookup_of_mem sound here]
    rcases compares c here is_current with same | ⟨other, less⟩
    · split
      · rfl
      · rw [same]
    · rw [if_pos]
      by_contra last
      have not_less := comesFirst_not (Bool.eq_false_iff.mpr last) other day (sound.times c here set)
      unfold ahead at less
      lia

theorem start_next (sound : Sound alarms current) (self : a ∈ alarms) (begun : a.start = true)
    (day : secOf a < 86400)
    (old : (∀ b ∈ alarms, b.start = true → b = a) ∧ (∀ c ∈ alarms, current = some c.id → c.id = a.id ∨
        (secOf c ≠ alarmMkdaysec (gmtimeR t2) ∧ ahead t2 a < ahead t2 c)) ∨
      ∃ c ∈ alarms, current = some c.id ∧ c.start = true ∧ c.id ≠ a.id ∧
        (∀ b ∈ alarms, b.start = true → b ≠ a → ahead t2 c ≤ ahead t2 b) ∧
        (secOf c = alarmMkdaysec (gmtimeR t2) → secOf a = alarmMkdaysec (gmtimeR t2))) :
    Inv ⟨alarms, startCurrent alarms current a t2, t2⟩ := by
  rcases old with ⟨only, compares⟩ | ⟨c, here, is_current, c_started, other, least, at_once⟩
  · rw [startCurrent_stopped sound day compares]
    refine ⟨⟨sound.ids, sound.times, sound.inited, ?_⟩, NextDue.taken rfl self begun ?_⟩
    · intro i is
      cases is
      exact ⟨a, self, rfl, sound.inited a self begun⟩
    · intro b member started
      exact Nat.le_of_eq (by rw [only b member started])
  · have c_day := sound.time here c_started
    have decided : startCurrent alarms current a t2 =
        if comesFirst (secOf a) (secOf c) (alarmMkdaysec (gmtimeR t2)) then some a.id else current := by
      simp only [startCurrent, is_current, Option.bind_some, lookup_of_mem sound here]
    rw [decided]
    split
    · rename_i first
      have less : ahead t2 a < ahead t2 c := comesFirst_gap first (today t2) day
      refine ⟨⟨sound.ids, sound.times, sound.inited, ?_⟩, NextDue.taken rfl self begun ?_⟩
      · intro i is
        cases is
        exact ⟨a, self, rfl, sound.inited a self begun⟩
      · intro b member started
        by_cases same : b = a
        · exact Nat.le_of_eq (by rw [same])
        · exact Nat.le_trans (Nat.le_of_lt less) (least b member started same)
    · rename_i last
      have first : ahead t2 c ≤ ahead t2 a := by
        unfold ahead
        by_cases now : secOf c = alarmMkdaysec (gmtimeR t2)
        · exact Nat.le_of_eq (by rw [now, at_once now])
        · exact comesFirst_not (Bool.eq_false_iff.mpr last) now day c_day
      refine ⟨sound, NextDue.taken is_current here c_started ?_⟩
      intro b member started
      by_cases same : b = a
      · rw [same]
        exact first
      · exact least b member started same

theorem store_same (sound : Sound alarms current) (member : a ∈ alarms) : store alarms a = alarms := by
  have same : ∀ b ∈ alarms, (if b.id = a.id then a else b) = b := by
    intro b here
    split
    · rename_i equal
      exact (sound.same here member equal).symm
    · rfl
  exact (List.map_congr_left same).trans (List.map_id' alarms)

theorem NextDue.store (next : NextDue s) (sound : Sound s.alarms s.current) (member : a ∈ s.alarms)
    (same : b.id = a.id) (other : s.current ≠ some a.id ∨ a.start = false) (stopped : b.start = false) :
    NextDue { s with alarms := store s.alarms b } := by
  have old : ∀ x ∈ Alarm.store s.alarms b, x.start = true → x ∈ s.alarms := by
    intro x here started
    rcases mem_store here with rfl | ⟨before, _⟩
    · rw [stopped] at started
      cases started
    · exact before
  intro x here started
  obtain ⟨c, c_here, is_current, c_started, first⟩ := next x (old x here started) started
  have apart : c.id ≠ b.id := by
    intro equal
    rcases other with elsewhere | a_stopped
    · exact elsewhere (by rw [is_current, equal, same])
    · rw [sound.same c_here member (equal.trans same), a_stopped] at c_started
      cases c_started
  exact ⟨c, store_other c_here apart, is_current, c_started,
    fun y y_here y_started => first y (old y y_here y_started) y_started⟩

theorem start_inv (inv : Inv s) (later : s.now ≤ t2)
    (guard : Guard s (.start id t1 t2)) (taken : rtAlarmStart s id t1 t2 = some s') : Inv s' := by
  obtain ⟨a, found, result⟩ := Option.map_eq_some_iff.mp taken
  obtain ⟨member, rfl⟩ := lookup_some found
  have spec := setUp_spec t1 (inv.sound.times a member)
  have compares := guard a found
  generalize setUp a t1 = r at *
  obtain ⟨b, valid⟩ := r
  obtain ⟨same, start, set, unset, again⟩ := spec
  simp only at same start set unset again compares result
  split at result
  · rename_i refused
    cases result
    by_cases started : a.start = true
    · rw [again (inv.sound.inited a member started), store_same inv.sound member]
      exact inv
    · have stopped : a.start = false := by simpa using started
      have failed : valid = false := by
        rcases refused with failed | begun
        · simpa using failed
        · rw [start, stopped] at begun
          cases begun
      obtain ⟨a_unset, b_unset⟩ := unset failed
      refine ⟨inv.sound.store (by simp [b_unset]) (by simp [start, stopped]) ?_,
        inv.next.store inv.sound member same (Or.inr stopped) (start.trans stopped)⟩
      intro c here equal c_set
      rw [inv.sound.same here member (equal.trans same), a_unset] at c_set
      cases c_set
  · rename_i accepted
    simp only [not_or, Bool.not_eq_true, Bool.not_eq_false'] at accepted
    obtain ⟨accepted, b_stopped⟩ := accepted
    cases result
    obtain ⟨b_set, day⟩ := set accepted
    have a_stopped : a.start = false := start.symm.trans b_stopped
    have compares := compares accepted b_stopped
    have sound := inv.sound.store (a := { b with start := true }) (fun _ => day) (fun _ => b_set)
      (fun _ _ _ _ => b_set)
    apply start_next sound (store_self member same.symm) rfl day
    by_cases current_started : ∃ c ∈ s.alarms, s.current = some c.id ∧ c.start = true
    · obtain ⟨c, here, is_current, c_started⟩ := current_started
      have apart : c.id ≠ b.id := by
        intro equal
        rw [inv.sound.same here member (equal.trans same), a_stopped] at c_started
        cases c_started
      obtain ⟨ahead_of, at_once⟩ := (compares c here is_current).1 c_started
      refine Or.inr ⟨c, store_other here apart, is_current, c_started, apart, ?_, at_once⟩
      intro x x_here x_started x_other
      rcases mem_store x_here with new | ⟨x_old, _⟩
      · exact absurd new x_other
      · rcases ahead_of with before | only
        · obtain ⟨c', c'_here, c'_current, _, first⟩ := inv.next x x_old x_started
          have c_same : c' = c := by
            rw [is_current] at c'_current
            exact inv.sound.same c'_here here (Option.some.inj c'_current).symm
          have less := first x x_old x_started
          rw [c_same] at less
          have c_later := ahead_later later (inv.sound.time here c_started) before
          have x_later := ahead_later later (inv.sound.time x_old x_started) (by lia)
          lia
        · exact Nat.le_of_eq (by rw [inv.sound.same x_old here (only x x_old x_started)])
    · have stopped : ∀ c ∈ s.alarms, s.current = some c.id → c.start = false := by
        intro c here is_current
        by_contra started
        exact current_started ⟨c, here, is_current, by simpa using started⟩
      refine Or.inl ⟨?_, ?_⟩
      · intro x x_here x_started
        rcases mem_store x_here with new | ⟨x_old, _⟩
        · exact new
        · rw [inv.next.nobody stopped x_old] at x_started
          cases x_started
      · intro c c_here is_current
        rcases mem_store c_here with rfl | ⟨c_old, _⟩
        · exact Or.inl rfl
        · exact (compares c c_old is_current).2 (stopped c c_old is_current)

theorem stopped_inv (inv : Inv s) (member : a ∈ s.alarms)
    (guard : s.current = some a.id → Rearms (store s.alarms { a with start := false }) none t1 t2)
    (quiet : s.current ≠ some a.id → s' = { s with alarms := store s.alarms { a with start := false } })
    (rearmed : s.current = some a.id →
      s' = (alarmUpdate ⟨store s.alarms { a with start := false }, none, s.now⟩ t1 t2).1) :
    Inv s' ∧ s'.current ≠ some a.id ∧ ∀ b ∈ s'.alarms, b.id = a.id → b.start = false := by
  have keeps : ∀ b ∈ s.alarms, b.id = a.id → b.inited = true → a.inited = true := by
    intro b here equal set
    rwa [inv.sound.same here member equal] at set
  have sound := inv.sound.store (a := { a with start := false })
    (fun set => inv.sound.times a member set) (by simp) keeps
  have alone : ∀ c ∈ store s.alarms { a with start := false }, c.id = a.id → c = { a with start := false } :=
    fun c here equal => sound.same here (store_self member rfl) equal
  by_cases is_current : s.current = some a.id
  · rw [rearmed is_current]
    have bare : Sound (store s.alarms { a with start := false }) none :=
      ⟨sound.ids, sound.times, sound.inited, by simp⟩
    have stopped : ∀ b ∈ (alarmUpdate ⟨store s.alarms { a with start := false }, none, s.now⟩ t1 t2).1.alarms,
        b.id = a.id → b.start = false := by
      intro b here same
      by_contra started
      obtain ⟨c, c_here, id, _, stays⟩ := update_back here (by simpa using started)
      rw [alone c c_here (id.trans same)] at stays
      cases stays.1
    obtain ⟨after, current⟩ :=
      update_inv (s := ⟨store s.alarms { a with start := false }, none, s.now⟩) bare (guard is_current)
    refine ⟨after, ?_, stopped⟩
    rcases current with none_taken | ⟨b, here, started, taken⟩
    · rw [none_taken]
      simp
    · rw [taken]
      intro same
      rw [stopped b here (Option.some.inj same)] at started
      cases started
  · rw [quiet is_current]
    refine ⟨⟨sound, inv.next.store inv.sound member rfl (Or.inl is_current) rfl⟩, is_current, ?_⟩
    intro b here same
    rw [alone b here same]

theorem stop_inv (inv : Inv s) (guard : Guard s (.stop id t1 t2))
    (taken : rtAlarmStop s id t1 t2 = some (s', es)) : Inv s' := by
  obtain ⟨a, found, result⟩ := Option.map_eq_some_iff.mp taken
  obtain ⟨member, rfl⟩ := lookup_some found
  split at result
  · cases result
    exact inv
  · rename_i started
    have started : a.start = true := by simpa using started
    refine (stopped_inv inv member (guard a found started) ?_ ?_).1
    · intro other
      rw [if_neg other] at result
      cases result
      rfl
    · intro is_current
      rw [if_pos is_current] at result
      exact (congrArg Prod.fst result).symm

theorem Inv.remove (inv : Inv s) (other : s.current ≠ some id)
    (stopped : ∀ b ∈ s.alarms, b.id = id → b.start = false) :
    Inv { s with alarms := s.alarms.filter (fun b => b.id ≠ id) } := by
  have left : ∀ b, b ∈ s.alarms.filter (fun b => b.id ≠ id) ↔ b ∈ s.alarms ∧ b.id ≠ id := by
    intro b
    simp [List.mem_filter]
  refine ⟨⟨?_, ?_, ?_, ?_⟩, ?_⟩
  · exact inv.sound.ids.sublist (List.filter_sublist.map _)
  · exact fun b here => inv.sound.times b ((left b).mp here).1
  · exact fun b here => inv.sound.inited b ((left b).mp here).1
  · intro i is
    obtain ⟨c, here, same, set⟩ := inv.sound.current i is
    refine ⟨c, (left c).mpr ⟨here, ?_⟩, same, set⟩
    intro equal
    exact other (by rw [is, ← same, equal])
  · intro b here started
    obtain ⟨c, c_here, is_current, c_started, first⟩ := inv.next b ((left b).mp here).1 started
    refine ⟨c, (left c).mpr ⟨c_here, ?_⟩, is_current, c_started, ?_⟩
    · intro equal
      rw [stopped c c_here equal] at c_started
      cases c_started
    · exact fun d d_here d_started => first d ((left d).mp d_here).1 d_started

theorem delete_inv (inv : Inv s) (guard : Guard s (.delete id t1 t2))
    (taken : rtAlarmDelete s id t1 t2 = some (s', es)) : Inv s' := by
  obtain ⟨a, found, result⟩ := Option.map_eq_some_iff.mp taken
  obtain ⟨member, rfl⟩ := lookup_some found
  have after : Inv (if s.current = some a.id then
        alarmUpdate ⟨store s.alarms { a with start := false }, none, s.now⟩ t1 t2
      else ({ s with alarms := store s.alarms { a with start := false } }, [])).1 ∧ _ :=
    stopped_inv inv member (guard a found) (fun other => by rw [if_neg other])
      (fun is_current => by rw [if_pos is_current])
  cases result
  exact after.1.remove after.2.1 after.2.2

theorem create_inv {kind : Kind} {callback : Bool} {wktime : Tm} (inv : Inv s)
    (taken : rtAlarmCreate s id kind callback wktime = some s') : Inv s' := by
  simp only [rtAlarmCreate] at taken
  split at taken
  · contradiction
  · rename_i fresh
    cases taken
    have absent : ∀ a ∈ s.alarms, a.id ≠ id := by
      have nothing := Option.not_isSome_iff_eq_none.mp fresh
      intro a here
      simpa using List.find?_eq_none.mp nothing a here
    refine ⟨⟨?_, ?_, ?_, ?_⟩, ?_⟩
    · rw [List.map_cons, List.nodup_cons]
      refine ⟨?_, inv.sound.ids⟩
      intro listed
      obtain ⟨a, here, same⟩ := List.mem_map.mp listed
      exact absent a here same
    · intro a here set
      rcases List.mem_cons.mp here with rfl | old
      · cases set
      · exact inv.sound.times a old set
    · intro a here started
      rcases List.mem_cons.mp here with rfl | old
      · cases started
      · exact inv.sound.inited a old started
    · intro i is
      obtain ⟨c, here, same⟩ := inv.sound.current i is
      exact ⟨c, List.mem_cons_of_mem _ here, same⟩
    · have old : ∀ a ∈ (⟨id, kind, false, false, callback, wktime⟩ : RtAlarm) :: s.alarms,
          a.start = true → a ∈ s.alarms := by
        intro a here started
        rcases List.mem_cons.mp here with rfl | before
        · cases started
        · exact before
      intro a here started
      obtain ⟨c, c_here, is_current, c_started, first⟩ := inv.next a (old a here started) started
      exact ⟨c, List.mem_cons_of_mem _ c_here, is_current, c_started,
        fun b b_here b_started => first b (old b b_here b_started) b_started⟩

theorem step_inv {action : Action} (inv : Inv s) (guard : Guard s action)
    (taken : step s action = some (s', es)) : Inv s' := by
  cases action with
  | create id kind callback wktime =>
    obtain ⟨r, created, result⟩ := Option.map_eq_some_iff.mp taken
    cases result
    exact create_inv inv created
  | start id t1 t2 =>
    simp only [step] at taken
    split at taken
    · rename_i order
      obtain ⟨r, started, result⟩ := Option.map_eq_some_iff.mp taken
      cases result
      simp only [inOrder, Bool.and_eq_true, decide_eq_true_eq] at order
      exact start_inv inv (Nat.le_trans order.1 order.2) guard started
    · contradiction
  | stop id t1 t2 =>
    simp only [step] at taken
    split at taken
    · exact stop_inv inv guard taken
    · contradiction
  | delete id t1 t2 =>
    simp only [step] at taken
    split at taken
    · exact delete_inv inv guard taken
    · contradiction
  | update t1 t2 =>
    simp only [step] at taken
    split at taken
    · have result : (alarmUpdate s t1 t2).1 = s' := congrArg Prod.fst (Option.some.inj taken)
      rw [← result]
      exact (update_inv inv.sound guard).1
    · contradiction

/-- The current alarm is the next one due after every function that has been called. -/
theorem current_next_due {tr : List Event} (run : RunWhere machine Guard tr s) : NextDue s := by
  have inv : Inv s := by
    apply RunWhere.invariant (I := fun _ s => Inv s) ?_ ?_ run
    · intro s start
      refine ⟨⟨by simp [start.alarms], by simp [start.alarms], by simp [start.alarms],
        by simp [start.current]⟩, ?_⟩
      intro a member
      rw [start.alarms] at member
      cases member
    · intro _ s a s' es _ inv guard taken
      exact step_inv inv guard taken
  exact inv.next

instance (t : Nat) (a : RtAlarm) : Decidable (Stays t a) :=
  inferInstanceAs (Decidable (_ ∧ ¬(_ ∧ _)))

instance (s : Container) : Decidable (NextDue s) :=
  inferInstanceAs (Decidable (∀ a ∈ s.alarms, a.start = true → ∃ c ∈ s.alarms, _ ∧ _ ∧ ∀ b ∈ s.alarms, _))

instance (alarms : List RtAlarm) (current : Option Nat) (t1 t2 : Nat) : Decidable (Rearms alarms current t1 t2) :=
  inferInstanceAs (Decidable
    ((∀ c ∈ alarms, current = some c.id → Stays t1 c → ∀ a ∈ alarms, a.id ≠ c.id → Stays t1 a →
      secOf a ≠ alarmMkdaysec (gmtimeR t2) → ∃ b ∈ alarms, b.id ≠ c.id ∧ Stays t1 b ∧ ahead t2 b ≤ ahead t2 c) ∧
    ((∀ c ∈ alarms, current = some c.id → ¬Stays t1 c) → ∀ a ∈ alarms, Stays t1 a →
      ∃ b ∈ alarms, Stays t1 b ∧ secOf b ≠ alarmMkdaysec (gmtimeR t2))))

instance (s : Container) (a : RtAlarm) (t2 : Nat) : Decidable (Compares s a t2) :=
  inferInstanceAs (Decidable (∀ c ∈ s.alarms, s.current = some c.id →
    (c.start = true → (_ ∨ ∀ b ∈ s.alarms, b.start = true → b.id = c.id) ∧ (_ → _)) ∧
    (c.start = false → _ ∨ (_ ∧ _))))

def guardChecked (s : Container) : Action → Bool
  | .create .. => true
  | .start id t1 t2 => (lookup s.alarms id).all (fun a =>
      !(setUp a t1).2 || (setUp a t1).1.start || decide (Compares s (setUp a t1).1 t2))
  | .stop id t1 t2 | .delete id t1 t2 => (lookup s.alarms id).all (fun a =>
      decide (Rearms (store s.alarms { a with start := false }) none t1 t2))
  | .update t1 t2 => decide (Rearms s.alarms s.current t1 t2)

theorem guardChecked_sound (s : Container) (action : Action) (checked : guardChecked s action = true) :
    Guard s action := by
  cases action with
  | create id kind callback wktime => trivial
  | start id t1 t2 =>
    intro a found valid stopped
    simpa [guardChecked, found, valid, stopped] using checked
  | stop id t1 t2 =>
    intro a found _ _
    simpa [guardChecked, found] using checked
  | delete id t1 t2 =>
    intro a found _
    simpa [guardChecked, found] using checked
  | update t1 t2 => simpa [guardChecked, Guard] using checked

def emptyContainer : Container := ⟨[], none, 0⟩

theorem emptyContainer_start : Start emptyContainer := ⟨rfl, rfl⟩

/-- At a time of the first day. -/
def atTime (hour min sec : Int) : Tm := ⟨sec, min, hour, 1, 0, 70, 4⟩

/-- An alarm at ten and one at eleven are started at nine; the one at ten goes off. -/
theorem current_next_due_eleven : ∃ s, NextDue s ∧ s.current = some 2 := by
  obtain ⟨tr, s, run, second⟩ := Run.reaches (M := machine.restrict guardChecked) (s := emptyContainer)
    emptyContainer_start
    [.create 1 .daily true (atTime 10 0 0), .create 2 .daily true (atTime 11 0 0), .start 1 32400 32400,
      .start 2 32400 32400, .update 36000 36000]
    (fun s => decide (s.current = some 2)) (by decide +kernel)
  have guarded : RunWhere machine Guard tr s :=
    RunWhere.ofRestrict (fun _ s a _ => guardChecked_sound s a) run
  exact ⟨s, current_next_due guarded, of_decide_eq_true second⟩

/-- A one-shot alarm and a daily one at the same time; and an alarm that is started in the second in
which the current one has gone off. -/
theorem current_not_next_due :
    (∃ tr s, Run machine tr s ∧ ¬NextDue s ∧ s.current = some 1) ∧
    (∃ tr s, Run machine tr s ∧ ¬NextDue s ∧ s.current = some 3) := by
  constructor
  · obtain ⟨tr, s, run, found⟩ := Run.reaches (M := machine) (s := emptyContainer) emptyContainer_start
      [.create 1 .oneshot true (atTime 10 0 0), .create 2 .daily true (atTime 10 0 0), .start 1 32400 32400,
        .start 2 32400 32400, .update 36000 36000]
      (fun s => !decide (NextDue s) && decide (s.current = some 1)) (by decide +kernel)
    exact ⟨tr, s, run, by simpa using found⟩
  · obtain ⟨tr, s, run, found⟩ := Run.reaches (M := machine) (s := emptyContainer) emptyContainer_start
      [.create 3 .daily true (atTime 10 0 0), .start 3 32400 32400, .update 36000 36000,
        .create 4 .daily true (atTime 11 0 0), .start 4 36000 36000]
      (fun s => !decide (NextDue s) && decide (s.current = some 3)) (by decide +kernel)
    exact ⟨tr, s, run, by simpa using found⟩

end RtThread.Alarm

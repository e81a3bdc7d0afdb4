import RtThread.Alarm

/-! When the alarms of a set of started ones are called back, over alarm_update alone. -/
namespace RtThread.Alarm
open Kernel Time Transition

/-- The set time comes round at `o`, which the count of the days of the week has before 1970 too. -/
def Occurs (a : RtAlarm) (o : Int) : Prop :=
  match a.kind with
  | .oneshot => o = mktime a.wktime
  | .daily => o % 86400 = secOf a
  | .weekly => o % 86400 = secOf a ∧ (4 + o / 86400) % 7 = a.wktime.tmWday
  | .monthly => o % 86400 = secOf a ∧ 0 ≤ o ∧ (gmtimeR o.toNat).tmMday = a.wktime.tmMday
  | .yearly =>
    o % 86400 = secOf a ∧ 0 ≤ o ∧ (gmtimeR o.toNat).tmMday = a.wktime.tmMday ∧
      (gmtimeR o.toNat).tmMon = a.wktime.tmMon
  | .other => False

/-- The turn of a time: its day, or for a weekly alarm the week, which begins on Sunday. -/
def turn (kind : Kind) (t : Int) : Int :=
  match kind with
  | .oneshot => 0
  | .weekly => (t + 4 * 86400) / (7 * 86400)
  | _ => t / 86400

/-- In the delay behind an occurrence, and in its turn. -/
def Within (a : RtAlarm) (o t : Int) : Prop :=
  o ≤ t ∧ t ≤ o + rtAlarmDelay ∧ turn a.kind o = turn a.kind t

/-- The times at which an alarm is called back. -/
def calls (id : Nat) (tr : List Event) : List Nat :=
  tr.filterMap (fun | .called i t => if i = id then some t else none)

/-- Every call comes at or after an occurrence, and between two calls there is a new one. -/
structure OncePerOccurrence (a : RtAlarm) (ts : List Nat) : Prop where
  after : ∀ t ∈ ts, ∃ o, Occurs a o ∧ o ≤ (t : Int)
  once : ts.Pairwise (fun (t t' : Nat) => ∃ o, Occurs a o ∧ (t : Int) < o ∧ o ≤ (t' : Int))
  oneshot : a.kind = .oneshot → ts.length ≤ 1

/-- `last` is the reading of the clock for the last alarm_update. -/
structure Watch where
  container : Container
  last : Option Nat

inductive Update where
  | update (t1 t2 : Nat)

def updateStep (s : Watch) : Update → Option (Watch × List Event)
  | .update t1 t2 =>
    if inOrder s.container t1 t2 ∧ t2 < 2 ^ 31 then
      let r := alarmUpdate s.container t1 t2
      some (⟨r.1, some t1⟩, r.2)
    else none

/-- Alarms that alarm_setup has set up have been started. -/
structure StartSet (s : Watch) : Prop where
  ids : (s.container.alarms.map RtAlarm.id).Nodup
  set : ∀ a ∈ s.container.alarms, a.start = true → ∃ b t, (alarmSetup b (gmtimeR t)).2 = true ∧
    a = { (alarmSetup b (gmtimeR t)).1 with start := true }
  last : s.last = none

def updates : Machine Watch Update Event where
  start := StartSet
  step := updateStep

/-- Only one alarm_update reads the clock in the delay behind an occurrence of an alarm that is not
one-shot and has a callback. -/
def OneUpdate (s : Watch) : Update → Prop
  | .update t1 _ => ∀ a ∈ s.container.alarms, a.start = true → a.callback = true → a.kind ≠ .oneshot →
      ∀ o, Occurs a o → Within a o t1 → ∀ last, s.last = some last → (last : Int) < o

variable {s s' : Watch} {a b : RtAlarm} {t t1 t2 : Nat} {tr es : List Event}

/-- What alarm_setup promises of an alarm. -/
structure Ready (a : RtAlarm) : Prop where
  sec : 0 ≤ a.wktime.tmSec ∧ a.wktime.tmSec ≤ 59
  min : 0 ≤ a.wktime.tmMin ∧ a.wktime.tmMin ≤ 59
  hour : 0 ≤ a.wktime.tmHour ∧ a.wktime.tmHour ≤ 23
  wday : a.kind = .weekly → 0 ≤ a.wktime.tmWday ∧ a.wktime.tmWday ≤ 6
  date : a.kind = .oneshot → isValidDate a.wktime = true

theorem gmtimeR_wday (t : Nat) : 0 ≤ (gmtimeR t).tmWday ∧ (gmtimeR t).tmWday ≤ 6 := by
  simp only [gmtimeR]
  lia

/-- alarm_setup keeps the date that the switch leaves. -/
theorem alarmSetup_date (valid : (alarmSetup b (gmtimeR t)).2 = true) :
    ∃ setup, setupDate b.kind (setupTime b.wktime (gmtimeR t)) (gmtimeR t) = (setup, true) ∧
      (alarmSetup b (gmtimeR t)).1.wktime.tmYear = setup.tmYear ∧
      (alarmSetup b (gmtimeR t)).1.wktime.tmMon = setup.tmMon ∧
      (alarmSetup b (gmtimeR t)).1.wktime.tmMday = setup.tmMday ∧
      (alarmSetup b (gmtimeR t)).1.wktime.tmWday = setup.tmWday := by
  unfold alarmSetup at valid ⊢
  generalize setupDate b.kind (setupTime b.wktime (gmtimeR t)) (gmtimeR t) = r at *
  obtain ⟨setup, accepted⟩ := r
  cases accepted with
  | false => simp at valid
  | true =>
    refine ⟨setup, rfl, ?_⟩
    simp only [if_true]
    split <;> exact ⟨rfl, rfl, rfl, rfl⟩

theorem setup_ready (valid : (alarmSetup b (gmtimeR t)).2 = true) : Ready (alarmSetup b (gmtimeR t)).1 := by
  obtain ⟨sec, min, hour⟩ := alarmSetup_range valid
  obtain ⟨setup, switched, year, mon, mday, wday⟩ := alarmSetup_date valid
  refine ⟨sec, min, hour, ?_, ?_⟩
  · intro weekly
    rw [(alarmSetup_frame b _).2.2.1] at weekly
    rw [weekly] at switched
    have today := gmtimeR_wday t
    have range := orNow_range (setupTime b.wktime (gmtimeR t)).tmWday today.1 today.2
    rw [wday, ← (Prod.mk.inj switched).1]
    exact range
  · intro oneshot
    rw [(alarmSetup_frame b _).2.2.1] at oneshot
    rw [oneshot] at switched
    obtain ⟨date, checked⟩ := Prod.mk.inj switched
    rw [date] at checked
    unfold isValidDate at checked ⊢
    rw [year, mon, mday]
    exact checked

theorem Ready.day (ready : Ready a) : secOf a < 86400 := daysec_lt ready.sec ready.min ready.hour

theorem spm_le : ∀ mon < 12, spm mon ≤ 334 := by decide

theorem Ready.mktime_range (ready : Ready a) (oneshot : a.kind = .oneshot) :
    mktime a.wktime = -1 ∨ (0 ≤ mktime a.wktime ∧ mktime a.wktime < 2 ^ 32) := by
  have date := ready.date oneshot
  have sec := ready.sec
  have min := ready.min
  have hour := ready.hour
  simp only [isValidDate, Bool.if_false_left, Bool.and_eq_true, Bool.not_eq_true',
    decide_eq_false_iff_not, not_or, rtRtcYearsMax] at date
  obtain ⟨⟨_, year⟩, ⟨mon, mon_last⟩, ⟨mday, mday_last⟩, _⟩ := date
  have month : daysOfYearMonth a.wktime.tmYear a.wktime.tmMon ≤ 31 := by
    unfold daysOfYearMonth
    dsimp only
    split
    · split <;> lia
    · split <;> lia
  have before := spm_le a.wktime.tmMon.toNat (by lia)
  unfold mktime
  by_cases early : a.wktime.tmYear < 70
  · exact Or.inl (if_pos early)
  · right
    have this_century : ¬(131 : Int) ≤ a.wktime.tmYear - 70 := by lia
    simp only [if_neg early, if_neg this_century]
    split <;> lia

theorem lately_spec {secAlarm secNow : Nat} (word : secAlarm < 2 ^ 32) (late : lately secAlarm secNow = true)
    (now : secNow < 2 ^ 32) : secAlarm ≤ secNow ∧ secNow ≤ secAlarm + rtAlarmDelay := by
  simp only [lately, Bool.and_eq_true, decide_eq_true_eq] at late
  simp only [sub32, rtAlarmDelay] at late ⊢
  lia

theorem gmtimeR_date {u : Nat} (same : u / 86400 = t / 86400) : (gmtimeR u).tmMday = (gmtimeR t).tmMday ∧
    (gmtimeR u).tmMon = (gmtimeR t).tmMon := by
  simp only [gmtimeR, same]
  exact ⟨trivial, trivial⟩

theorem due_occurs (ready : Ready a) (small : t < 2 ^ 31) (now : due a (gmtimeR t) = true) :
    ∃ o, Occurs a o ∧ Within a o t := by
  have day := ready.day
  have wrap : sub32 (t % 86400) (secOf a) ≤ rtAlarmDelay →
      secOf a ≤ t % 86400 ∧ t % 86400 ≤ secOf a + rtAlarmDelay := by
    intro late
    simp only [sub32, rtAlarmDelay] at late ⊢
    lia
  have today : secOf a ≤ t % 86400 ∧ t % 86400 ≤ secOf a + rtAlarmDelay →
      ∃ u, u % 86400 = secOf a ∧ u / 86400 = t / 86400 ∧ u ≤ t ∧ t ≤ u + rtAlarmDelay := by
    intro recent
    exact ⟨t - (t % 86400 - secOf a), by lia, by lia, by lia, by lia⟩
  unfold due at now
  unfold Occurs Within turn
  rw [gmtimeR_daysec] at now
  cases kind : a.kind with
  | oneshot =>
    simp only [kind, mktime_gmtimeR small] at now ⊢
    rcases ready.mktime_range kind with never | ⟨low, high⟩
    · rw [never] at now
      simp only [lately, Bool.and_eq_true, decide_eq_true_eq] at now
      lia
    · obtain ⟨past, late⟩ := lately_spec (by lia) now (by lia)
      exact ⟨_, rfl, by lia, by lia, trivial⟩
  | daily =>
    simp only [kind] at now ⊢
    obtain ⟨u, at_time, same, before, delay⟩ :=
      today (lately_spec (by lia) now (by lia))
    exact ⟨u, by lia, by lia, by lia, by lia⟩
  | weekly =>
    have wday := ready.wday kind
    have weekday : (gmtimeR t).tmWday = ((4 + t / 86400) % 7 : Nat) := rfl
    simp only [kind, weekday] at now ⊢
    unfold secOf at day ⊢
    rw [Int.emod_eq_of_lt (by lia) (by lia), Int.emod_eq_of_lt (by lia) (by lia)] at now
    obtain ⟨past, late⟩ := lately_spec (by lia) now (by lia)
    exact ⟨t - (t % 86400 + (4 + t / 86400) % 7 * 86400 -
      (alarmMkdaysec a.wktime + a.wktime.tmWday * 86400)), by lia, by lia, by lia, by lia⟩
  | monthly =>
    simp only [kind, Bool.and_eq_true, decide_eq_true_eq] at now ⊢
    obtain ⟨u, at_time, same, before, delay⟩ := today (wrap now.2)
    exact ⟨u, ⟨by lia, by lia, (gmtimeR_date same).1.trans now.1.symm⟩, by lia, by lia, by lia⟩
  | yearly =>
    simp only [kind, Bool.and_eq_true, decide_eq_true_eq] at now ⊢
    obtain ⟨u, at_time, same, before, delay⟩ := today (wrap now.2)
    exact ⟨u, ⟨by lia, by lia, (gmtimeR_date same).1.trans now.1.1.symm,
      (gmtimeR_date same).2.trans now.1.2.symm⟩, by lia, by lia, by lia⟩
  | other => simp [kind] at now

theorem calls_append (id : Nat) (tr es : List Event) : calls id (tr ++ es) = calls id tr ++ calls id es :=
  List.filterMap_append ..

theorem calls_woken {f : RtAlarm → RtAlarm × Bool} (frame : ∀ b, (f b).1.id = b.id) (alarms : List RtAlarm)
    (ids : (alarms.map RtAlarm.id).Nodup) (member : a ∈ alarms) :
    calls a.id (((alarms.map f).filter Prod.snd).map (fun r => .called r.1.id t)) =
      if (f a).2 then [t] else [] := by
  induction alarms with
  | nil => cases member
  | cons b rest ih =>
    rw [List.map_cons, List.nodup_cons] at ids
    obtain ⟨absent, ids⟩ := ids
    have split : calls a.id ((((b :: rest).map f).filter Prod.snd).map (fun r => .called r.1.id t)) =
        (if b.id = a.id ∧ (f b).2 = true then [t] else []) ++
          calls a.id (((rest.map f).filter Prod.snd).map (fun r => .called r.1.id t)) := by
      cases fires : (f b).2 with
      | false => simp [fires]
      | true =>
        by_cases same : b.id = a.id
        · simp [fires, calls, frame, same]
        · simp [fires, calls, frame, same]
    rw [split]
    rcases List.mem_cons.mp member with rfl | old
    · have others : calls a.id (((rest.map f).filter Prod.snd).map (fun r => .called r.1.id t)) = [] := by
        apply List.filterMap_eq_nil_iff.mpr
        intro e shown
        obtain ⟨r, fired, rfl⟩ := List.mem_map.mp shown
        obtain ⟨c, here, rfl⟩ := List.mem_map.mp (List.mem_filter.mp fired).1
        have other : c.id ≠ a.id := fun same => absent (same ▸ List.mem_map_of_mem here)
        simp [frame, other]
      rw [others]
      simp
    · have other : b.id ≠ a.id := fun same => absent (same ▸ List.mem_map_of_mem old)
      rw [ih ids old]
      simp [other]

theorem calls_update {c : Container} (ids : (c.alarms.map RtAlarm.id).Nodup) (member : a ∈ c.alarms) :
    calls a.id (alarmUpdate c t1 t2).2 =
      if a.start = true ∧ due a (gmtimeR t1) = true ∧ a.callback = true then [t1] else [] := by
  have some_alarm : c.alarms ≠ [] := List.ne_nil_of_mem member
  simp only [alarmUpdate, if_neg some_alarm]
  rw [calls_woken (fun b => (wakeup_frame b _).1) c.alarms ids member]
  unfold alarmWakeup
  split
  · rename_i fires
    simp [fires.1, fires.2]
  · rename_i quiet
    have never : ¬(a.start = true ∧ due a (gmtimeR t1) = true ∧ a.callback = true) :=
      fun h => quiet ⟨h.1, h.2.1⟩
    simp [if_neg never]

theorem OncePerOccurrence.snoc {ts : List Nat} {o : Int} (calls : OncePerOccurrence a ts) (occurs : Occurs a o)
    (past : o ≤ (t : Int)) (fresh : ∀ u ∈ ts, (u : Int) < o) (first : a.kind = .oneshot → ts = []) :
    OncePerOccurrence a (ts ++ [t]) := by
  refine ⟨?_, ?_, ?_⟩
  · intro u member
    rcases List.mem_append.mp member with old | new
    · exact calls.after u old
    · rw [List.mem_singleton.mp new]
      exact ⟨o, occurs, past⟩
  · refine List.pairwise_append.mpr ⟨calls.once, List.pairwise_singleton _ _, ?_⟩
    intro u old u' new
    rw [List.mem_singleton.mp new]
    exact ⟨o, occurs, fresh u old, past⟩
  · intro oneshot
    simp [first oneshot]

theorem OncePerOccurrence.alike {ts : List Nat} (calls : OncePerOccurrence a ts) (kind : b.kind = a.kind)
    (wktime : b.wktime = a.wktime) : OncePerOccurrence b ts := by
  have same : ∀ o, Occurs b o ↔ Occurs a o := by
    intro o
    unfold Occurs secOf
    rw [kind, wktime]
  refine ⟨?_, ?_, fun oneshot => calls.oneshot (kind ▸ oneshot)⟩
  · simpa only [same] using calls.after
  · simpa only [same] using calls.once

/-- A one-shot alarm that has been called back has been stopped. -/
structure Called (tr : List Event) (s : Watch) : Prop where
  ids : (s.container.alarms.map RtAlarm.id).Nodup
  ready : ∀ a ∈ s.container.alarms, a.start = true → Ready a
  spaced : ∀ a ∈ s.container.alarms, OncePerOccurrence a (calls a.id tr)
  last : ∀ a ∈ s.container.alarms, ∀ t ∈ calls a.id tr, ∃ last, s.last = some last ∧ t ≤ last
  order : s.container.alarms ≠ [] → ∀ last, s.last = some last → last ≤ s.container.now
  oneshot : ∀ a ∈ s.container.alarms, a.kind = .oneshot → a.start = true → calls a.id tr = []

theorem start_called (start : StartSet s) : Called [] s := by
  refine ⟨start.ids, ?_, ?_, by simp [calls], by simp [start.last], fun _ _ _ _ => rfl⟩
  · intro a member started
    obtain ⟨b, t, valid, rfl⟩ := start.set a member started
    have ready := setup_ready valid
    exact ⟨ready.sec, ready.min, ready.hour, ready.wday, ready.date⟩
  · intro a member
    exact ⟨by simp [calls], List.Pairwise.nil, by simp [calls]⟩

theorem wakeup_kind (a : RtAlarm) (now : Tm) : (alarmWakeup a now).1.kind = a.kind := by
  unfold alarmWakeup
  split <;> rfl

/-- One alarm in an alarm_update. -/
theorem Called.update_once (inv : Called tr s) (small : t1 < 2 ^ 31) (guard : OneUpdate s (.update t1 t2))
    (member : a ∈ s.container.alarms) :
    OncePerOccurrence a (calls a.id (tr ++ (alarmUpdate s.container t1 t2).2)) := by
  rw [calls_append, calls_update inv.ids member]
  split
  · rename_i fires
    obtain ⟨started, now, callback⟩ := fires
    obtain ⟨o, occurs, within⟩ := due_occurs (inv.ready a member started) small now
    by_cases oneshot : a.kind = .oneshot
    · have never := inv.oneshot a member oneshot started
      apply (inv.spaced a member).snoc occurs within.1 ?_ (fun _ => never)
      intro u before
      rw [never] at before
      cases before
    · apply (inv.spaced a member).snoc occurs within.1 ?_ (fun h => absurd h oneshot)
      intro u before
      obtain ⟨last, is_last, up_to⟩ := inv.last a member u before
      have earlier := guard a member started callback oneshot o occurs within last is_last
      lia
  · rw [List.append_nil]
    exact inv.spaced a member

theorem update_called (inv : Called tr s) {action : Update} (guard : OneUpdate s action)
    (taken : updateStep s action = some (s', es)) : Called (tr ++ es) s' := by
  obtain ⟨t1, t2⟩ := action
  simp only [updateStep] at taken
  split at taken
  · rename_i order
    cases taken
    obtain ⟨order, small⟩ := order
    simp only [inOrder, Bool.and_eq_true, decide_eq_true_eq] at order
    have back : ∀ b ∈ (alarmUpdate s.container t1 t2).1.alarms, ∃ a ∈ s.container.alarms,
        b = (alarmWakeup a (gmtimeR t1)).1 ∧ b.id = a.id := by
      intro b member
      rw [update_alarms] at member
      obtain ⟨a, here, rfl⟩ := List.mem_map.mp member
      exact ⟨a, here, rfl, (wakeup_frame a _).1⟩
    refine ⟨?_, ?_, ?_, ?_, ?_, ?_⟩
    · have same : RtAlarm.id ∘ (fun a => (alarmWakeup a (gmtimeR t1)).1) = RtAlarm.id :=
        funext (fun a => (wakeup_frame a _).1)
      rw [update_alarms, List.map_map, same]
      exact inv.ids
    · intro b member started
      obtain ⟨a, here, rfl, _⟩ := back b member
      have ready := inv.ready a here ((wakeup_start a t1).mp started).1
      have wktime := (wakeup_frame a (gmtimeR t1)).2.1
      have kind := wakeup_kind a (gmtimeR t1)
      refine ⟨?_, ?_, ?_, ?_, ?_⟩ <;> simp only [wktime, kind]
      · exact ready.sec
      · exact ready.min
      · exact ready.hour
      · exact ready.wday
      · exact ready.date
    · intro b member
      obtain ⟨a, here, rfl, id⟩ := back b member
      rw [id]
      exact (inv.update_once (by lia) guard here).alike (wakeup_kind a _) (wakeup_frame a _).2.1
    · intro b member t called
      obtain ⟨a, here, rfl, id⟩ := back b member
      refine ⟨t1, rfl, ?_⟩
      rw [id, calls_append, calls_update inv.ids here] at called
      rcases List.mem_append.mp called with old | new
      · obtain ⟨last, is_last, up_to⟩ := inv.last a here t old
        have before := inv.order (List.ne_nil_of_mem here) last is_last
        lia
      · split at new
        · exact Nat.le_of_eq (List.mem_singleton.mp new)
        · cases new
    · intro some_alarm last is_last
      have before : s.container.alarms ≠ [] := by
        intro empty
        rw [update_alarms, empty] at some_alarm
        exact some_alarm rfl
      rw [(update_pick s.container t1 t2 before).2]
      cases is_last
      exact order.2
    · intro b member oneshot started
      obtain ⟨a, here, rfl, id⟩ := back b member
      obtain ⟨was_started, stays⟩ := (wakeup_start a t1).mp started
      rw [wakeup_kind] at oneshot
      rw [id, calls_append, calls_update inv.ids here, inv.oneshot a here oneshot was_started,
        if_neg (fun h => stays ⟨oneshot, h.2.1⟩), List.append_nil]
  · contradiction

/-- Each alarm is called back once for an occurrence, after any updates that meet the condition. -/
theorem called_once (run : RunWhere updates OneUpdate tr s) :
    ∀ a ∈ s.container.alarms, OncePerOccurrence a (calls a.id tr) := by
  have inv : Called tr s := by
    apply RunWhere.invariant (I := Called) (fun _ start => start_called start) ?_ run
    intro tr s a s' es _ inv guard taken
    exact update_called inv guard taken
  exact inv.spaced

def spacedChecked (s : Watch) : Update → Bool
  | .update t1 _ => s.last.all (fun last => decide (last + rtAlarmDelay < t1))

theorem spacedChecked_sound (s : Watch) (action : Update) (checked : spacedChecked s action = true) :
    OneUpdate s action := by
  obtain ⟨t1, t2⟩ := action
  intro a _ _ _ _ o _ within last is_last
  simp only [spacedChecked, is_last, Option.all_some, decide_eq_true_eq] at checked
  have delay := within.2.1
  lia

/-- A started alarm, set up at nine. -/
def startedAt (id : Nat) (kind : Kind) (wktime : Tm) : RtAlarm :=
  { (alarmSetup ⟨id, kind, false, false, true, wktime⟩ (gmtimeR 32400)).1 with start := true }

theorem startedAt_set (alarms : List (Nat × Kind × Tm)) (ids : (alarms.map Prod.fst).Nodup)
    (valid : ∀ r ∈ alarms, (alarmSetup ⟨r.1, r.2.1, false, false, true, r.2.2⟩ (gmtimeR 32400)).2 = true) :
    StartSet ⟨⟨alarms.map (fun r => startedAt r.1 r.2.1 r.2.2), none, 32400⟩, none⟩ := by
  refine ⟨?_, ?_, rfl⟩
  · have same : (RtAlarm.id ∘ fun r : Nat × Kind × Tm => startedAt r.1 r.2.1 r.2.2) = Prod.fst :=
      funext (fun r => (alarmSetup_frame _ _).1)
    rwa [List.map_map, same]
  · intro a member _
    obtain ⟨r, here, rfl⟩ := List.mem_map.mp member
    exact ⟨_, 32400, valid r here, rfl⟩

/-- A daily alarm at ten and a one-shot one at eleven, over two days. -/
theorem called_once_days : ∃ tr s, RunWhere updates OneUpdate tr s ∧
    tr = [.called 1 36000, .called 2 39601, .called 1 122402] ∧
    ∀ a ∈ s.container.alarms, OncePerOccurrence a (calls a.id tr) := by
  obtain ⟨s, run, _⟩ := Run.shows (M := updates.restrict spacedChecked)
    (startedAt_set [(1, .daily, atTime 10 0 0), (2, .oneshot, atTime 11 0 0)] (by decide +kernel)
      (by decide +kernel))
    [.update 36000 36000, .update 39601 39601, .update 122402 122402, .update 126000 126000]
    [.called 1 36000, .called 2 39601, .called 1 122402] (fun _ => true) (by decide +kernel)
  have guarded := RunWhere.ofRestrict (fun _ s a _ => spacedChecked_sound s a) run
  exact ⟨_, s, guarded, rfl, called_once guarded⟩

/-- Two daily alarms a second apart: the update for the later one calls the earlier one again. -/
theorem called_twice : ∃ tr s, Run updates tr s ∧
    tr = [.called 1 36000, .called 1 36001, .called 2 36001] ∧
    ∃ a ∈ s.container.alarms, ¬OncePerOccurrence a (calls a.id tr) := by
  obtain ⟨s, run, found⟩ := Run.shows (M := updates)
    (startedAt_set [(1, .daily, atTime 10 0 0), (2, .daily, atTime 10 0 1)] (by decide +kernel)
      (by decide +kernel))
    [.update 36000 36000, .update 36001 36001] [.called 1 36000, .called 1 36001, .called 2 36001]
    (fun s => s.container.alarms.any (fun a => decide (a.id = 1 ∧ a.kind = .daily ∧ secOf a = 36000)))
    (by decide +kernel)
  obtain ⟨a, member, id, daily, sec⟩ : ∃ a ∈ s.container.alarms, a.id = 1 ∧ a.kind = .daily ∧ secOf a = 36000 := by
    simpa using found
  refine ⟨_, s, run, rfl, a, member, ?_⟩
  intro once
  have twice : calls a.id [.called 1 36000, .called 1 36001, .called 2 36001] = [36000, 36001] := by
    rw [id]
    rfl
  have spaced := once.once
  rw [twice, List.pairwise_pair] at spaced
  obtain ⟨o, occurs, later, before⟩ := spaced
  simp only [Occurs, daily, sec] at occurs
  lia

end RtThread.Alarm

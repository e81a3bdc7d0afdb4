import RtThread.AtClient

/-! at_obj_exec_cmd and the parser of its client, each at its own steps. The lock of the client makes the
calls one after the other, so at most one is inside; lines come at any time. -/
namespace RtThread.AtExec
open Kernel Transition

abbrev RespId := Nat
abbrev Text := List UInt8

inductive RespStatus where
  | ok | error | timeout | buffFull
  deriving DecidableEq

structure Response where
  buf : Text
  bufSize : Nat
  bufLen : Nat
  lineNum : Nat
  lineCounts : Nat
  timeout : Int

/-- Where a call is: before its write of resp_status, of client->resp, of buf_len, of line_counts, before
at_vprintfln, before and inside of rt_sem_take, after a time-out, before its read of resp_status, at
`__exit`, and before rt_mutex_release. -/
inductive Stage where
  | status | resp | bufLen | lineCounts | sending | taking | waiting | timedOut | checking
  | leaving (result : Err)
  | releasing (result : Err)

structure Call where
  thread : Tid
  resp : Option RespId
  stage : Stage

/-- Where client_parser is: in at_recv_readline, before it tests client->resp for a line, before it takes
it, and then at its statements for the object and the line. `faulted`: it has read through RT_NULL. -/
inductive Parser where
  | reading
  | testing (line : Text)
  | loading (line : Text)
  | sizing (r : RespId) (line : Text)
  | copying (r : RespId) (line : Text)
  | measuring (r : RespId) (line : Text)
  | counting (r : RespId) (line : Text)
  | full (r : RespId) (line : Text)
  | checking (r : RespId) (line : Text)
  | ending (status : RespStatus)
  | clearing
  | releasing
  | faulted
  deriving DecidableEq

structure State where
  resp : Option RespId
  respStatus : RespStatus
  respNotice : Semaphore.State
  objects : RespId → Response
  call : Option Call
  parser : Parser

/-- `received` shows what client->resp was when at_recv_readline came back with the line, and `sent` the
line_num of the object, where there is one. `loaded` and `wrote` are the parser's. -/
inductive Event where
  | called (resp : Option RespId)
  | busy
  | sent (lineNum : Option Nat)
  | urc (line : Text)
  | received (line : Text) (registered : Option RespId)
  | loaded (r : RespId)
  | wrote (r : RespId)
  | nullResp
  | returned (resp : Option RespId) (result : Err)
  deriving DecidableEq

/-- `call`: the lock is got; `cli` is what the call read of client->status before. -/
inductive Action where
  | call (t : Tid) (resp : Option RespId) (cli : Bool)
  | exec
  | timer (t : Tid)
  | line (line : Text)
  | parse

def atRespEndOk : Text := [79, 75]
def atRespEndError : Text := [69, 82, 82, 79, 82]
def atRespEndFail : Text := [70, 65, 73, 76]

/-- The line with its last character replaced by the final zero. -/
def terminated (line : Text) : Text := line.set (line.length - 1) 0

def rtStrstr (s1 s2 : Text) : Bool := (s1.takeWhile (· ≠ 0)).tails.any (s2.isPrefixOf ·)

def isOk (line : Text) : Bool := atRespEndOk.isPrefixOf line

/-- The status that a line ends the response with, if it does. -/
def endStatus (o : Response) (line : Text) : Option RespStatus :=
  if isOk line ∧ o.lineNum = 0 then some .ok
  else if rtStrstr line atRespEndError ∨ atRespEndFail.isPrefixOf line then some .error
  else if o.lineCounts = o.lineNum ∧ o.lineNum ≠ 0 then some .ok
  else none

def Response.copy (o : Response) (line : Text) : Response :=
  { o with buf := o.buf.take o.bufLen ++ line ++ o.buf.drop (o.bufLen + line.length) }

def State.modify (s : State) (r : RespId) (f : Response → Response) : RespId → Response :=
  Function.update s.objects r (f (s.objects r))

/-- A statement of client_parser. -/
def clientParser (s : State) : Option (State × List Event) :=
  match s.parser with
  | .reading | .faulted => none
  | .testing line =>
    some ({ s with parser := if s.resp.isSome then .loading line else .reading }, [])
  | .loading line =>
    match s.resp with
    | some r => some ({ s with parser := .sizing r (terminated line) }, [.loaded r])
    | none => some ({ s with parser := .faulted }, [.nullResp])
  | .sizing r line =>
    let fits := ((s.objects r).bufLen + line.length) % 2 ^ 32 < (s.objects r).bufSize
    some ({ s with parser := if fits then .copying r line else .full r line }, [])
  | .copying r line =>
    some ({ s with objects := s.modify r (Response.copy · line), parser := .measuring r line }, [.wrote r])
  | .measuring r line =>
    let objects := s.modify r (fun o => { o with bufLen := (o.bufLen + line.length) % 2 ^ 32 })
    some ({ s with objects := objects, parser := .counting r line }, [.wrote r])
  | .counting r line =>
    let objects := s.modify r (fun o => { o with lineCounts := (o.lineCounts + 1) % 2 ^ 32 })
    some ({ s with objects := objects, parser := .checking r line }, [.wrote r])
  | .full r line => some ({ s with respStatus := .buffFull, parser := .checking r line }, [])
  | .checking r line =>
    match endStatus (s.objects r) line with
    | some status => some ({ s with parser := .ending status }, [])
    | none => some ({ s with parser := .reading }, [])
  | .ending status => some ({ s with respStatus := status, parser := .clearing }, [])
  | .clearing => some ({ s with resp := none, parser := .releasing }, [])
  | .releasing =>
    some ({ s with respNotice := (Semaphore.rtSemRelease s.respNotice).1, parser := .reading }, [])

/-- at_recv_readline has come back with a line. The function of a URC does nothing to the response. -/
def readline (cfg : AtClient.Config) (s : State) (line : Text) : Option (State × List Event) :=
  if s.parser = .reading ∧ line ≠ [] ∧ line.length ≤ cfg.recvBufsz then
    if AtClient.isUrc cfg line then some (s, [.urc line])
    else some ({ s with parser := .testing line }, [.received line s.resp])
  else none

/-- at_obj_exec_cmd up to the lock. -/
def atObjExecCmd (s : State) (t : Tid) (resp : Option RespId) (cli : Bool) : Option (State × List Event) :=
  if cli ∧ resp.isSome then some (s, [.busy])
  else if s.call.isSome then none
  else some ({ s with call := some ⟨t, resp, .status⟩ }, [.called resp])

def State.goto (s : State) (c : Call) (stage : Stage) : State := { s with call := some { c with stage := stage } }

/-- A statement of at_obj_exec_cmd under the lock. -/
def execStage (s : State) (c : Call) : Option (State × List Event) :=
  match c.stage, c.resp with
  | .status, _ => some ({ s with respStatus := .ok }.goto c .resp, [])
  | .resp, resp =>
    some ({ s with resp := resp }.goto c (if resp.isSome then .bufLen else .sending), [])
  | .bufLen, some r =>
    some ({ s with objects := s.modify r ({ · with bufLen := 0 }) }.goto c .lineCounts, [])
  | .lineCounts, some r =>
    some ({ s with objects := s.modify r ({ · with lineCounts := 0 }) }.goto c .sending, [])
  | .sending, some r => some (s.goto c .taking, [.sent (some (s.objects r).lineNum)])
  | .sending, none => some (s.goto c (.leaving .eok), [.sent none])
  | .taking, some r =>
    (Semaphore.rtSemTake s.respNotice c.thread (s.objects r).timeout).map (fun q =>
      ({ s with respNotice := q.1 }.goto c (if q.1.waiting c.thread then .waiting
        else if q.2 = [Semaphore.Event.took c.thread] then .checking else .timedOut), []))
  | .waiting, some _ =>
    (Semaphore.takeReturn s.respNotice c.thread).map (fun q =>
      ({ s with respNotice := q.1 }.goto c (if q.2 = [Semaphore.Event.returned c.thread .eok]
        then .checking else .timedOut), []))
  | .timedOut, _ => some ({ s with respStatus := .timeout }.goto c (.leaving .etimeout), [])
  | .checking, _ => some (s.goto c (.leaving (if s.respStatus = .ok then .eok else .error)), [])
  | .leaving result, _ => some ({ s with resp := none }.goto c (.releasing result), [])
  | .releasing result, resp => some ({ s with call := none }, [.returned resp result])
  | _, none => none

/-- Nothing is promised from a fault on. -/
def step (cfg : AtClient.Config) (s : State) (a : Action) : Option (State × List Event) :=
  if s.parser = .faulted then none
  else match a with
    | .call t resp cli => atObjExecCmd s t resp cli
    | .exec => s.call.bind (execStage s)
    | .timer t => (s.respNotice.kernel.timerExpire t).map (fun k =>
        ({ s with respNotice := { s.respNotice with kernel := k } }, []))
    | .line line => readline cfg s line
    | .parse => clientParser s

/-- After at_client_init, which makes resp_notice with the value 0. -/
structure Start (s : State) : Prop where
  resp : s.resp = none
  notice : Semaphore.Start 0 s.respNotice
  call : s.call = none
  parser : s.parser = .reading

def machine (cfg : AtClient.Config) : Machine State Action Event where
  start := Start
  step := step cfg

/-- What a history says of the call in progress: its object, the line_num with which its command was sent,
the lines received since with the object registered, and the object that the parser has taken. -/
structure Ledger where
  resp : Option RespId
  lineNum : Option Nat
  lines : List Text
  loaded : Option RespId

def noCall : Ledger := ⟨none, none, [], none⟩

def Ledger.next (l : Ledger) : Event → Ledger
  | .called resp => { noCall with resp := resp }
  | .sent lineNum => { l with lineNum := lineNum, lines := [] }
  | .received line registered =>
    if registered.isSome ∧ registered = l.resp then { l with lines := l.lines ++ [line] } else l
  | .loaded r => { l with loaded := some r }
  | .returned _ _ => noCall
  | _ => l

def ledger (tr : List Event) : Ledger := tr.foldl Ledger.next noCall

def Ledger.Answered (l : Ledger) : Prop :=
  ∃ n, l.lineNum = some n ∧
    (n = 0 ∧ (∃ line ∈ l.lines, isOk (terminated line) = true) ∨ n ≠ 0 ∧ n ≤ l.lines.length)

/-- A call succeeds only when it is answered; the parser writes only to the object of the call in
progress, having taken it in this call. -/
def Ledger.Allows (l : Ledger) : Event → Prop
  | .returned (some _) .eok => l.Answered
  | .wrote r => l.resp = some r ∧ l.loaded = some r
  | _ => True

def Right (before : List Event) (e : Event) : Prop := (ledger before).Allows e

def Parser.writes : Parser → RespId → Prop
  | .sizing r _, r' | .copying r _, r' | .measuring r _, r' | .counting r _, r' => r = r'
  | _, _ => False

/-- When a command is sent nothing has come for its object: it is registered, resp_notice has no token,
the parser is in at_recv_readline and has counted no line. When a call returns, the parser does not have
its object to write to. -/
def Guard (s : State) (a : Action) : Prop :=
  ∀ c r, a = .exec → s.call = some c → c.resp = some r → match c.stage with
    | .sending => s.resp = some r ∧ s.respNotice.value = 0 ∧ s.parser = .reading ∧
        ((s.objects r).lineNum = 0 ∨ (s.objects r).lineCounts = 0)
    | .releasing _ => ¬ s.parser.writes r
    | _ => True

/-- The lines and the count of a response so far, by where the parser is. -/
def Fits (l : Ledger) (s : State) (r : RespId) : Prop :=
  match s.parser with
  | .reading => (s.objects r).lineNum ≠ 0 → (s.objects r).lineCounts ≤ l.lines.length
  | .testing line | .loading line =>
    line ∈ l.lines ∧ ((s.objects r).lineNum ≠ 0 → (s.objects r).lineCounts + 1 ≤ l.lines.length)
  | .sizing r' line | .copying r' line | .measuring r' line | .counting r' line | .full r' line =>
    r' = r ∧ (∃ whole ∈ l.lines, terminated whole = line) ∧
      ((s.objects r).lineNum ≠ 0 → (s.objects r).lineCounts + 1 ≤ l.lines.length)
  | .checking r' line => r' = r ∧ (∃ whole ∈ l.lines, terminated whole = line) ∧
      ((s.objects r).lineNum ≠ 0 → (s.objects r).lineCounts ≤ l.lines.length)
  | .ending status => status = .ok → l.Answered
  | .clearing => s.respStatus = .ok → l.Answered
  | .releasing | .faulted => False

/-- The parser has no more to do with the object. -/
def Parser.Quiet : Parser → Prop
  | .reading | .testing _ | .releasing => True
  | _ => False

structure Closed (l : Ledger) (s : State) : Prop where
  quiet : s.parser.Quiet
  status : s.respStatus = .ok → l.Answered

/-- Between its sending and the end of its rt_sem_take. -/
structure Awaits (l : Ledger) (s : State) (t : Tid) (r : RespId) : Prop where
  sent : l.lineNum = some (s.objects r).lineNum
  token : 0 < s.respNotice.value ∨ Semaphore.granted s.respNotice t = true → s.resp = none
  opened : s.resp = some r → Fits l s r
  closed : s.resp = none → Closed l s

def StageInv (l : Ledger) (s : State) (t : Tid) (r : RespId) : Stage → Prop
  | .taking | .waiting => Awaits l s t r
  | .checking => s.resp = none ∧ Closed l s
  | .leaving result | .releasing result => result = .eok → l.Answered
  | _ => True

def Stage.registered : Stage → Bool
  | .status | .resp | .releasing _ => false
  | _ => true

structure Inv (l : Ledger) (s : State) : Prop where
  notice : ∃ tr, Semaphore.Inv 0 tr s.respNotice
  waits : ∀ t, s.respNotice.waiting t = true ↔ ∃ resp, s.call = some ⟨t, resp, .waiting⟩
  object : l.resp = s.call.bind Call.resp
  registered : ∀ r, s.resp = some r → ∃ c, s.call = some c ∧ c.resp = some r ∧ c.stage.registered = true
  holds : ∀ r, s.parser.writes r → l.resp = some r ∧ l.loaded = some r
  stage : ∀ c r, s.call = some c → c.resp = some r → StageInv l s c.thread r c.stage

/-- A step keeps the invariant and shows at most one event, a right one. -/
inductive Kept (l : Ledger) (s : State) : List Event → Prop where
  | silent : Inv l s → Kept l s []
  | shows {e : Event} : l.Allows e → Inv (l.next e) s → Kept l s [e]

section Steps
variable {cfg : AtClient.Config} {l l' : Ledger} {s s' : State} {c : Call} {r : RespId} {es : List Event}

theorem start_inv (start : Start s) : Inv noCall s := by
  refine ⟨⟨[], Semaphore.start_inv start.notice⟩, ?_, ?_, ?_, ?_, ?_⟩
  · simp [start.notice.idle, start.call]
  · rw [start.call]
    rfl
  · simp [start.resp]
  · simp [start.parser, Parser.writes]
  · simp [start.call]

theorem StageInv.keep {t : Tid} {stage : Stage} (held : StageInv l s t r stage)
    (awaits : Awaits l s t r → Awaits l' s' t r)
    (closed : s.resp = none → Closed l s → s'.resp = none ∧ Closed l' s')
    (answered : l.Answered → l'.Answered) : StageInv l' s' t r stage := by
  cases stage with
  | taking => exact awaits held
  | waiting => exact awaits held
  | checking => exact closed held.1 held.2
  | leaving result => exact fun good => answered (held good)
  | releasing result => exact fun good => answered (held good)
  | _ => trivial

theorem Inv.advance (inv : Inv l s) (resp : s'.resp = s.resp) (notice : s'.respNotice = s.respNotice)
    (call : s'.call = s.call) (object : l'.resp = l.resp) (sent : l'.lineNum = l.lineNum)
    (nums : ∀ r, (s'.objects r).lineNum = (s.objects r).lineNum)
    (holds : ∀ r, s'.parser.writes r → l'.resp = some r ∧ l'.loaded = some r)
    (answered : l.Answered → l'.Answered)
    (fits : ∀ r, s.resp = some r → l.lineNum = some (s.objects r).lineNum → Fits l s r → Fits l' s' r)
    (closed : s.resp = none → Closed l s → Closed l' s') : Inv l' s' := by
  refine ⟨notice ▸ inv.notice, ?_, ?_, ?_, holds, ?_⟩
  · rw [notice, call]
    exact inv.waits
  · rw [object, call]
    exact inv.object
  · rw [resp, call]
    exact inv.registered
  · rw [call]
    intro c r here own
    refine (inv.stage c r here own).keep ?_ ?_ answered
    · intro held
      refine ⟨?_, ?_, ?_, ?_⟩
      · rw [sent, nums]
        exact held.sent
      · rw [notice, resp]
        exact held.token
      · rw [resp]
        exact fun open_ => fits r open_ held.sent (held.opened open_)
      · rw [resp]
        exact fun shut => closed shut (held.closed shut)
    · intro shut held
      exact ⟨resp.trans shut, closed shut held⟩

/-- The call moves on to a stage outside of rt_sem_take. -/
theorem Inv.goto {stage : Stage} (inv : Inv l s) (here : s.call = some c) (active : c.stage ≠ .waiting)
    (parser : s'.parser = s.parser) (notice : s'.respNotice = s.respNotice)
    (call : s'.call = some { c with stage := stage }) (active' : stage ≠ .waiting)
    (object : l'.resp = l.resp) (loaded : l'.loaded = l.loaded)
    (registered : ∀ r, s'.resp = some r → c.resp = some r ∧ stage.registered = true)
    (kept : ∀ r, c.resp = some r → StageInv l' s' c.thread r stage) : Inv l' s' := by
  refine ⟨notice ▸ inv.notice, ?_, ?_, ?_, ?_, ?_⟩
  · intro t
    have before := inv.waits t
    rw [here] at before
    rw [notice, call, before]
    constructor
    · rintro ⟨resp, same⟩
      cases same
      exact absurd rfl active
    · rintro ⟨resp, same⟩
      have last := congrArg Call.stage (Option.some.inj same)
      exact absurd last active'
  · rw [object, call, inv.object, here]
    rfl
  · intro r open_
    exact ⟨_, call, registered r open_⟩
  · rw [parser, object, loaded]
    exact inv.holds
  · intro c' r same own
    cases call.symm.trans same
    exact kept r own

@[simp] theorem modify_self {f : Response → Response} : s.modify r f r = f (s.objects r) := by
  rw [State.modify, Function.update_self]

theorem modify_lineNum {f : Response → Response} (keeps : ∀ o, (f o).lineNum = o.lineNum) (r' : RespId) :
    (s.modify r f r').lineNum = (s.objects r').lineNum := by
  by_cases same : r' = r
  · rw [same, State.modify, Function.update_self, keeps]
  · rw [State.modify, Function.update_of_ne same]

theorem Inv.own (inv : Inv l s) (open_ : s.resp = some r) : l.resp = some r := by
  obtain ⟨c, here, own, _⟩ := inv.registered r open_
  rw [inv.object, here]
  exact own

theorem Inv.same {r' : RespId} (inv : Inv l s) (here : s.call = some c) (own : c.resp = some r)
    (open_ : s.resp = some r') : r' = r := by
  obtain ⟨c', here', own', _⟩ := inv.registered r' open_
  cases here.symm.trans here'
  exact Option.some.inj (own'.symm.trans own)

theorem Closed.quiet_next (held : Closed l s) (objects : s'.respStatus = s.respStatus)
    (quiet : s'.parser.Quiet) : Closed l s' :=
  ⟨quiet, by rw [objects]; exact held.status⟩

theorem testing_kept {line : Text} (inv : Inv l s) (at_ : s.parser = .testing line) :
    Inv l { s with parser := if s.resp.isSome then .loading line else .reading } := by
  refine inv.advance rfl rfl rfl rfl rfl (fun _ => rfl) ?_ id ?_ ?_
  · intro r writes
    split at writes <;> cases writes
  · intro r open_ _ fits
    simp only [Fits, at_] at fits
    simp only [Fits, open_, Option.isSome_some, if_true]
    exact fits
  · intro shut held
    refine held.quiet_next rfl ?_
    simp [shut, Parser.Quiet]

theorem loading_kept {line : Text} (inv : Inv l s) (at_ : s.parser = .loading line) (open_ : s.resp = some r) :
    Inv (l.next (.loaded r)) { s with parser := .sizing r (terminated line) } := by
  refine inv.advance rfl rfl rfl rfl rfl (fun _ => rfl) ?_ id ?_ ?_
  · rintro r' rfl
    exact ⟨inv.own open_, rfl⟩
  · intro r' same _ fits
    simp only [Fits, at_] at fits
    exact ⟨Option.some.inj (open_.symm.trans same), ⟨line, fits.1, rfl⟩, fits.2⟩
  · intro shut
    rw [open_] at shut
    contradiction

theorem fault_kept {line : Text} (inv : Inv l s) (at_ : s.parser = .loading line) (shut : s.resp = none) :
    Inv l { s with parser := .faulted } := by
  refine inv.advance rfl rfl rfl rfl rfl (fun _ => rfl) ?_ id ?_ ?_
  · intro r writes
    cases writes
  · intro r open_
    rw [shut] at open_
    contradiction
  · intro _ held
    have quiet := held.quiet
    rw [at_] at quiet
    cases quiet

theorem Inv.work {p : Parser} {objects : RespId → Response} {status : RespStatus} (inv : Inv l s)
    (active : ¬ s.parser.Quiet) (nums : ∀ r, (objects r).lineNum = (s.objects r).lineNum)
    (holds : ∀ r, p.writes r → l.resp = some r ∧ l.loaded = some r)
    (fits : ∀ r, Fits l s r → Fits l { s with objects := objects, respStatus := status, parser := p } r) :
    Inv l { s with objects := objects, respStatus := status, parser := p } :=
  inv.advance rfl rfl rfl rfl rfl nums holds id (fun r _ _ => fits r) (fun _ held => absurd held.quiet active)

theorem Inv.write {p : Parser} {f : Response → Response} (inv : Inv l s) (active : ¬ s.parser.Quiet)
    (writes : s.parser.writes r) (nums : ∀ o, (f o).lineNum = o.lineNum) (next : ∀ r', p.writes r' → r = r')
    (fits : ∀ r', Fits l s r' → Fits l { s with objects := s.modify r f, parser := p } r') :
    Kept l { s with objects := s.modify r f, parser := p } [.wrote r] := by
  have own := inv.holds r writes
  refine .shows own (inv.work active (modify_lineNum nums) ?_ fits)
  intro r' later
  exact next r' later ▸ own

theorem sizing_kept {line : Text} {p : Parser} (inv : Inv l s) (at_ : s.parser = .sizing r line)
    (next : p = .copying r line ∨ p = .full r line) : Inv l { s with parser := p } := by
  have own := inv.holds r (by rw [at_]; rfl)
  have active : ¬ s.parser.Quiet := by simp [at_, Parser.Quiet]
  refine inv.work active (fun _ => rfl) ?_ ?_
  · intro r' writes
    rcases next with rfl | rfl
    · cases writes
      exact own
    · cases writes
  · intro r' fits
    simp only [Fits, at_] at fits
    rcases next with rfl | rfl
    · exact fits
    · exact fits

theorem copying_kept {line : Text} (inv : Inv l s) (at_ : s.parser = .copying r line) :
    Kept l { s with objects := s.modify r (Response.copy · line), parser := .measuring r line } [.wrote r] := by
  refine inv.write (by simp [at_, Parser.Quiet]) (by rw [at_]; rfl) (fun _ => rfl) (fun _ same => same) ?_
  intro r' fits
  simp only [Fits, at_] at fits
  obtain ⟨rfl, rest⟩ := fits
  refine ⟨rfl, ?_⟩
  simp only [modify_self]
  exact rest

theorem measuring_kept {line : Text} (inv : Inv l s) (at_ : s.parser = .measuring r line) :
    Kept l { s with
      objects := s.modify r (fun o => { o with bufLen := (o.bufLen + line.length) % 2 ^ 32 })
      parser := .counting r line } [.wrote r] := by
  refine inv.write (by simp [at_, Parser.Quiet]) (by rw [at_]; rfl) (fun _ => rfl) (fun _ same => same) ?_
  intro r' fits
  simp only [Fits, at_] at fits
  obtain ⟨rfl, rest⟩ := fits
  refine ⟨rfl, ?_⟩
  simp only [modify_self]
  exact rest

theorem counting_kept {line : Text} (inv : Inv l s) (at_ : s.parser = .counting r line) :
    Kept l { s with
      objects := s.modify r (fun o => { o with lineCounts := (o.lineCounts + 1) % 2 ^ 32 })
      parser := .checking r line } [.wrote r] := by
  refine inv.write (by simp [at_, Parser.Quiet]) (by rw [at_]; rfl) (fun _ => rfl) (fun _ => nofun) ?_
  intro r' fits
  simp only [Fits, at_] at fits
  obtain ⟨rfl, whole, count⟩ := fits
  refine ⟨rfl, whole, ?_⟩
  simp only [modify_self]
  intro asked
  exact Nat.le_trans (Nat.mod_le _ _) (count asked)

theorem full_kept {line : Text} (inv : Inv l s) (at_ : s.parser = .full r line) :
    Inv l { s with respStatus := .buffFull, parser := .checking r line } := by
  refine inv.work (by simp [at_, Parser.Quiet]) (fun _ => rfl) (fun _ => nofun) ?_
  intro r' fits
  simp only [Fits, at_] at fits
  exact ⟨fits.1, fits.2.1, fun asked => Nat.le_of_succ_le (fits.2.2 asked)⟩

theorem endStatus_ok {o : Response} {line : Text} (good : endStatus o line = some .ok) :
    o.lineNum = 0 ∧ isOk line = true ∨ o.lineNum ≠ 0 ∧ o.lineCounts = o.lineNum := by
  simp only [endStatus] at good
  split at good
  · rename_i ended
    exact .inl ⟨ended.2, ended.1⟩
  · split at good
    · cases good
    · split at good
      · rename_i counted
        exact .inr ⟨counted.2, counted.1⟩
      · cases good

theorem checking_kept {line : Text} (inv : Inv l s) (at_ : s.parser = .checking r line) :
    endStatus (s.objects r) line = none → Inv l { s with parser := .reading } := by
  intro goes_on
  refine inv.work (by simp [at_, Parser.Quiet]) (fun _ => rfl) (fun _ => nofun) ?_
  intro r' fits
  simp only [Fits, at_] at fits
  obtain ⟨rfl, _, count⟩ := fits
  exact count

theorem ending_kept {line : Text} {status : RespStatus} (inv : Inv l s) (at_ : s.parser = .checking r line)
    (ends : endStatus (s.objects r) line = some status) : Inv l { s with parser := .ending status } := by
  refine inv.advance rfl rfl rfl rfl rfl (fun _ => rfl) (fun _ => nofun) id ?_ ?_
  · intro r' open_ sent fits
    simp only [Fits, at_] at fits
    obtain ⟨rfl, ⟨whole, member, rfl⟩, count⟩ := fits
    rintro rfl
    refine ⟨_, sent, ?_⟩
    rcases endStatus_ok ends with ⟨none_, good⟩ | ⟨asked, all⟩
    · exact .inl ⟨none_, whole, member, good⟩
    · exact .inr ⟨asked, all ▸ count asked⟩
  · intro _ held
    have quiet := held.quiet
    rw [at_] at quiet
    cases quiet

theorem clearing_kept (inv : Inv l s) (at_ : s.parser = .clearing) :
    Inv l { s with resp := none, parser := .releasing } := by
  have active : ¬ Closed l s := by
    intro held
    have quiet := held.quiet
    rw [at_] at quiet
    exact quiet
  refine ⟨inv.notice, inv.waits, inv.object, nofun, fun _ => nofun, ?_⟩
  intro c r here own
  refine (inv.stage c r here own).keep ?_ (fun _ held => absurd held active) id
  intro held
  refine ⟨held.sent, fun _ => rfl, nofun, fun _ => ⟨trivial, ?_⟩⟩
  cases registered : s.resp with
  | none => exact absurd (held.closed registered) active
  | some r' =>
    cases inv.same here own registered
    have fits := held.opened registered
    simp only [Fits, at_] at fits
    exact fits

theorem releasing_kept (inv : Inv l s) (at_ : s.parser = .releasing) :
    Inv l { s with respNotice := (Semaphore.rtSemRelease s.respNotice).1, parser := .reading } := by
  obtain ⟨tr, sound⟩ := inv.notice
  obtain ⟨notice, ses, released⟩ : ∃ notice ses, Semaphore.rtSemRelease s.respNotice = (notice, ses) :=
    ⟨_, _, rfl⟩
  have waiting : notice.waiting = s.respNotice.waiting := by
    rcases Semaphore.release_cases sound released with ⟨w, rest, _, _, _, rfl⟩ | ⟨_, _, _, rfl⟩ | ⟨_, _, _, rfl⟩ <;> rfl
  simp only [released]
  refine ⟨⟨_, Semaphore.release_inv sound released⟩, ?_, inv.object, inv.registered, fun _ => nofun, ?_⟩
  · intro t
    rw [waiting]
    exact inv.waits t
  · intro c r here own
    refine (inv.stage c r here own).keep ?_ (fun shut held => ⟨shut, held.quiet_next rfl trivial⟩) id
    intro held
    have shut : s.resp = none := by
      cases registered : s.resp with
      | none => rfl
      | some r' =>
        cases inv.same here own registered
        have fits := held.opened registered
        simp [Fits, at_] at fits
    refine ⟨held.sent, fun _ => shut, ?_, fun _ => (held.closed shut).quiet_next rfl trivial⟩
    intro open_
    exact absurd (shut.symm.trans open_) (by simp)

theorem parse_kept (inv : Inv l s) (taken : clientParser s = some (s', es)) : Kept l s' es := by
  cases at_ : s.parser with
  | reading => simp [clientParser, at_] at taken
  | faulted => simp [clientParser, at_] at taken
  | testing line =>
    simp only [clientParser, at_] at taken
    cases taken
    exact .silent (testing_kept inv at_)
  | loading line =>
    simp only [clientParser, at_] at taken
    split at taken
    · rename_i r open_
      cases taken
      exact .shows trivial (loading_kept inv at_ open_)
    · rename_i shut
      cases taken
      exact .shows trivial (fault_kept inv at_ shut)
  | sizing r line =>
    simp only [clientParser, at_] at taken
    cases taken
    refine .silent (sizing_kept inv at_ ?_)
    split
    · exact .inl rfl
    · exact .inr rfl
  | copying r line =>
    simp only [clientParser, at_] at taken
    cases taken
    exact copying_kept inv at_
  | measuring r line =>
    simp only [clientParser, at_] at taken
    cases taken
    exact measuring_kept inv at_
  | counting r line =>
    simp only [clientParser, at_] at taken
    cases taken
    exact counting_kept inv at_
  | full r line =>
    simp only [clientParser, at_] at taken
    cases taken
    exact .silent (full_kept inv at_)
  | checking r line =>
    simp only [clientParser, at_] at taken
    split at taken
    · rename_i ends
      cases taken
      exact .silent (ending_kept inv at_ ends)
    · rename_i goes_on
      cases taken
      exact .silent (checking_kept inv at_ goes_on)
  | ending status =>
    simp only [clientParser, at_] at taken
    cases taken
    refine .silent (inv.work (by simp [at_, Parser.Quiet]) (fun _ => rfl) (fun _ => nofun) ?_)
    intro r fits
    simp only [Fits, at_] at fits
    exact fits
  | clearing =>
    simp only [clientParser, at_] at taken
    cases taken
    exact .silent (clearing_kept inv at_)
  | releasing =>
    simp only [clientParser, at_] at taken
    cases taken
    exact .silent (releasing_kept inv at_)

theorem Ledger.Answered.longer {line : Text} (held : l.Answered) :
    Ledger.Answered { l with lines := l.lines ++ [line] } := by
  obtain ⟨n, sent, ⟨none_, whole, member, good⟩ | ⟨asked, count⟩⟩ := held
  · exact ⟨n, sent, .inl ⟨none_, whole, List.mem_append_left _ member, good⟩⟩
  · refine ⟨n, sent, .inr ⟨asked, ?_⟩⟩
    rw [List.length_append]
    lia

theorem line_kept {line : Text} (inv : Inv l s) (taken : readline cfg s line = some (s', es)) : Kept l s' es := by
  simp only [readline] at taken
  split at taken
  · rename_i enabled
    split at taken
    · cases taken
      exact .shows trivial inv
    · cases taken
      refine .shows trivial ?_
      simp only [Ledger.next]
      split
      · refine inv.advance rfl rfl rfl rfl rfl (fun _ => rfl) (fun _ => nofun) Ledger.Answered.longer ?_ ?_
        · intro r open_ _ fits
          simp only [Fits, enabled.1] at fits
          simp only [Fits]
          refine ⟨by simp, fun asked => ?_⟩
          rw [List.length_append]
          exact Nat.add_le_add_right (fits asked) 1
        · intro shut held
          exact ⟨trivial, fun good => (held.status good).longer⟩
      · rename_i other
        refine inv.advance rfl rfl rfl rfl rfl (fun _ => rfl) (fun _ => nofun) id ?_ ?_
        · intro r open_
          refine absurd ⟨by rw [open_]; rfl, ?_⟩ other
          rw [open_, inv.own open_]
        · intro _ held
          exact held.quiet_next rfl trivial
  · contradiction

theorem timer_kept {t : Tid} {k : Kernel} (inv : Inv l s) (expired : s.respNotice.kernel.timerExpire t = some k) :
    Inv l { s with respNotice := { s.respNotice with kernel := k } } := by
  obtain ⟨tr, sound⟩ := inv.notice
  obtain ⟨_, suspended, self, others, _⟩ := timerExpire_some expired
  refine ⟨⟨_, Semaphore.timeout_inv sound expired⟩, inv.waits, inv.object, inv.registered, inv.holds, ?_⟩
  intro c r here own
  refine (inv.stage c r here own).keep ?_ (fun shut held => ⟨shut, held.quiet_next rfl held.quiet⟩) id
  intro held
  refine ⟨held.sent, ?_, held.opened, fun shut => (held.closed shut).quiet_next rfl (held.closed shut).quiet⟩
  rintro (positive | granted)
  · exact held.token (.inl positive)
  · obtain ⟨waits, ready, clean⟩ := Semaphore.granted_iff.mp granted
    refine held.token (.inr (Semaphore.granted_iff.mpr ⟨waits, ?_⟩))
    by_cases same : c.thread = t
    · rw [same] at clean
      simp [self] at clean
    · rw [others _ same] at ready clean
      exact ⟨ready, clean⟩

theorem call_kept {t : Tid} {resp : Option RespId} {cli : Bool} (inv : Inv l s)
    (taken : atObjExecCmd s t resp cli = some (s', es)) : Kept l s' es := by
  simp only [atObjExecCmd] at taken
  split at taken
  · cases taken
    exact .shows trivial inv
  · split at taken
    · contradiction
    · rename_i free
      cases taken
      have none_ : s.call = none := by simpa using free
      have object : l.resp = none := by rw [inv.object, none_]; rfl
      refine .shows trivial ⟨inv.notice, ?_, rfl, ?_, ?_, ?_⟩
      · intro u
        rw [inv.waits u, none_]
        simp
      · intro r open_
        rw [inv.own open_] at object
        cases object
      · intro r writes
        rw [(inv.holds r writes).1] at object
        cases object
      · intro c r same own
        cases same
        trivial

theorem Inv.not_granted {t : Tid} (inv : Inv l s) (here : s.call = some c) (active : c.stage ≠ .waiting) :
    Semaphore.granted s.respNotice t = false := by
  rw [Bool.eq_false_iff]
  intro granted
  obtain ⟨resp, same⟩ := (inv.waits t).mp (Semaphore.granted_iff.mp granted).1
  rw [Option.some.inj (here.symm.trans same)] at active
  exact active rfl

theorem sending_kept (inv : Inv l s) (here : s.call = some c) (at_ : c.stage = .sending) (own : c.resp = some r)
    (guard : Guard s .exec) : Kept l (s.goto c .taking) [.sent (some (s.objects r).lineNum)] := by
  have fresh := guard c r rfl here own
  simp only [at_] at fresh
  obtain ⟨open_, zero, reading, count⟩ := fresh
  have active : c.stage ≠ .waiting := by simp [at_]
  refine .shows trivial (inv.goto here active rfl rfl rfl (by simp) rfl rfl ?_ ?_)
  · intro r' registered
    exact ⟨inv.same here own registered ▸ own, rfl⟩
  · intro r' own'
    cases own.symm.trans own'
    refine ⟨rfl, ?_, ?_, ?_⟩
    · rintro (positive | granted)
      · exact absurd zero (Nat.pos_iff_ne_zero.mp positive)
      · rw [State.goto, inv.not_granted here active] at granted
        contradiction
    · intro _
      simp only [Fits, State.goto, reading]
      intro asked
      rw [count.resolve_left asked]
      exact Nat.zero_le _
    · intro shut
      exact absurd (shut.symm.trans open_) (by simp)

/-- rt_sem_take has got its token. -/
theorem Awaits.answered {t : Tid} (held : Awaits l s t r)
    (token : 0 < s.respNotice.value ∨ Semaphore.granted s.respNotice t = true) : s.resp = none ∧ Closed l s :=
  ⟨held.token token, held.closed (held.token token)⟩

/-- A statement of rt_sem_take. -/
theorem Inv.taken {notice : Semaphore.State} {stage : Stage} (inv : Inv l s) (here : s.call = some c)
    (own : c.resp = some r) (still : stage.registered = true) (sound : ∃ tr, Semaphore.Inv 0 tr notice)
    (waits : ∀ t, notice.waiting t = true ↔ t = c.thread ∧ stage = .waiting)
    (kept : StageInv l ({ s with respNotice := notice }.goto c stage) c.thread r stage) :
    Inv l ({ s with respNotice := notice }.goto c stage) := by
  refine ⟨sound, ?_, ?_, ?_, inv.holds, ?_⟩
  · intro t
    refine (waits t).trans ⟨?_, ?_⟩
    · rintro ⟨rfl, rfl⟩
      exact ⟨_, rfl⟩
    · rintro ⟨resp, same⟩
      cases Option.some.inj same
      exact ⟨rfl, rfl⟩
  · rw [inv.object, here]
    rfl
  · intro r' open_
    exact ⟨_, rfl, inv.same here own open_ ▸ own, still⟩
  · intro c' r' same own'
    cases same
    cases own.symm.trans own'
    exact kept

theorem taking_kept {notice : Semaphore.State} {ses : List Semaphore.Event} {time : Int} (inv : Inv l s)
    (here : s.call = some c) (at_ : c.stage = .taking) (own : c.resp = some r)
    (done : Semaphore.rtSemTake s.respNotice c.thread time = some (notice, ses)) :
    Inv l ({ s with respNotice := notice }.goto c (if notice.waiting c.thread then .waiting
      else if ses = [Semaphore.Event.took c.thread] then .checking else .timedOut)) := by
  obtain ⟨tr, sound⟩ := inv.notice
  have idle (t : Tid) : s.respNotice.waiting t = false := by
    rw [Bool.eq_false_iff]
    intro waits
    obtain ⟨resp, same⟩ := (inv.waits t).mp waits
    cases Option.some.inj (here.symm.trans same)
    cases at_
  have held : Awaits l s c.thread r := by
    have before := inv.stage c r here own
    rwa [at_] at before
  have after : ∃ tr, Semaphore.Inv 0 tr notice := ⟨_, Semaphore.take_inv sound done⟩
  rcases (Semaphore.take_cases done).2 with ⟨positive, rfl, rfl⟩ | ⟨rfl, rfl⟩ | ⟨zero, ready, _, k, started, rfl⟩
  · simp only [idle, Bool.false_eq_true, if_false, if_true]
    obtain ⟨shut, closed⟩ := held.answered (.inl positive)
    exact inv.taken here own rfl after (by simp [idle]) ⟨shut, closed.quiet_next rfl closed.quiet⟩
  · simp only [idle, Bool.false_eq_true, if_false, List.cons.injEq, reduceCtorEq, and_true]
    exact inv.taken here own rfl after (by simp [idle]) trivial
  · have parked := (sound.wait.blockTimed ready started).2.1
    simp only [Function.update_self, if_true]
    refine inv.taken here own rfl after ?_ ?_
    · intro t
      by_cases same : t = c.thread
      · simp [same]
      · simp [idle, same]
    · refine ⟨held.sent, ?_, held.opened, fun shut => (held.closed shut).quiet_next rfl (held.closed shut).quiet⟩
      rintro (positive | granted)
      · exact absurd zero (Nat.pos_iff_ne_zero.mp positive)
      · exact absurd (Semaphore.granted_iff.mp granted).2.1 (by simp [State.goto, parked])

theorem waiting_kept {notice : Semaphore.State} {ses : List Semaphore.Event} (inv : Inv l s)
    (here : s.call = some c) (at_ : c.stage = .waiting) (own : c.resp = some r)
    (done : Semaphore.takeReturn s.respNotice c.thread = some (notice, ses)) :
    Inv l ({ s with respNotice := notice }.goto c
      (if ses = [Semaphore.Event.returned c.thread .eok] then .checking else .timedOut)) := by
  obtain ⟨tr, sound⟩ := inv.notice
  have held : Awaits l s c.thread r := by
    have before := inv.stage c r here own
    rwa [at_] at before
  have after : ∃ tr, Semaphore.Inv 0 tr notice := ⟨_, Semaphore.return_inv sound done⟩
  obtain ⟨waits, ready, rfl, rfl⟩ := Semaphore.return_cases done
  have idle (t : Tid) : Function.update s.respNotice.waiting c.thread false t = false := by
    by_cases same : t = c.thread
    · rw [same, Function.update_self]
    · rw [Function.update_of_ne same, Bool.eq_false_iff]
      intro waits
      obtain ⟨resp, other⟩ := (inv.waits t).mp waits
      cases Option.some.inj (here.symm.trans other)
      exact same rfl
  by_cases clean : (s.respNotice.kernel.thread c.thread).error = .eok
  · obtain ⟨shut, closed⟩ := held.answered (.inr (Semaphore.granted_iff.mpr ⟨waits, ready, clean⟩))
    simp only [clean, if_true]
    exact inv.taken here own rfl after (by simp [idle]) ⟨shut, closed.quiet_next rfl closed.quiet⟩
  · simp only [List.cons.injEq, Semaphore.Event.returned.injEq, clean, and_false, if_false, false_and]
    exact inv.taken here own rfl after (by simp [idle]) trivial

theorem returned_kept {result : Err} (inv : Inv l s) (here : s.call = some c) (at_ : c.stage = .releasing result)
    (guard : Guard s .exec) (shut : s.resp = none) :
    Kept l { s with call := none } [.returned c.resp result] := by
  have object : l.resp = c.resp := by rw [inv.object, here]; rfl
  refine .shows ?_ ⟨inv.notice, ?_, rfl, ?_, ?_, nofun⟩
  · cases own : c.resp with
    | none => trivial
    | some r =>
      have before := inv.stage c r here own
      rw [at_] at before
      cases result with
      | eok => exact before rfl
      | _ => trivial
  · intro t
    rw [inv.waits t, here]
    constructor
    · rintro ⟨resp, same⟩
      rw [Option.some.inj same] at at_
      cases at_
    · rintro ⟨resp, same⟩
      cases same
  · intro r open_
    rw [shut] at open_
    cases open_
  · intro r writes
    have own : c.resp = some r := object.symm.trans (inv.holds r writes).1
    have away := guard c r rfl here own
    rw [at_] at away
    exact absurd writes away

theorem exec_kept (inv : Inv l s) (here : s.call = some c) (guard : Guard s .exec)
    (taken : execStage s c = some (s', es)) : Kept l s' es := by
  have registered (r : RespId) (open_ : s.resp = some r) : c.resp = some r := by
    obtain ⟨c', here', own, _⟩ := inv.registered r open_
    cases here.symm.trans here'
    exact own
  have shut (early : c.stage.registered = false) : s.resp = none := by
    cases open_ : s.resp with
    | none => rfl
    | some r =>
      obtain ⟨c', here', _, still⟩ := inv.registered r open_
      cases here.symm.trans here'
      rw [early] at still
      contradiction
  cases at_ : c.stage with
  | status =>
    simp only [execStage, at_] at taken
    cases taken
    refine .silent (inv.goto here (by simp [at_]) rfl rfl rfl (by simp) rfl rfl ?_ fun _ _ => trivial)
    intro r open_
    exact absurd ((shut (by rw [at_]; rfl)).symm.trans open_) (by simp)
  | resp =>
    simp only [execStage, at_] at taken
    cases taken
    cases own : c.resp with
    | none =>
      refine .silent (inv.goto here (by simp [at_]) rfl rfl rfl (by simp) rfl rfl ?_ fun _ _ => trivial)
      intro r open_
      cases open_
    | some r =>
      refine .silent (inv.goto here (by simp [at_]) rfl rfl rfl (by simp) rfl rfl ?_ fun _ _ => trivial)
      intro r' open_
      exact ⟨own.trans open_, rfl⟩
  | bufLen =>
    cases own : c.resp with
    | none => simp [execStage, at_, own] at taken
    | some r =>
      simp only [execStage, at_, own] at taken
      cases taken
      refine .silent (inv.goto here (by simp [at_]) rfl rfl rfl (by simp) rfl rfl ?_ fun _ _ => trivial)
      exact fun r' open_ => ⟨registered r' open_, rfl⟩
  | lineCounts =>
    cases own : c.resp with
    | none => simp [execStage, at_, own] at taken
    | some r =>
      simp only [execStage, at_, own] at taken
      cases taken
      refine .silent (inv.goto here (by simp [at_]) rfl rfl rfl (by simp) rfl rfl ?_ fun _ _ => trivial)
      exact fun r' open_ => ⟨registered r' open_, rfl⟩
  | sending =>
    cases own : c.resp with
    | none =>
      simp only [execStage, at_, own] at taken
      cases taken
      refine .shows trivial (inv.goto here (by simp [at_]) rfl rfl rfl (by simp) rfl rfl ?_ ?_)
      · exact fun r' open_ => ⟨registered r' open_, rfl⟩
      · intro r own'
        rw [own] at own'
        cases own'
    | some r =>
      simp only [execStage, at_, own] at taken
      cases taken
      exact sending_kept inv here at_ own guard
  | taking =>
    cases own : c.resp with
    | none => simp [execStage, at_, own] at taken
    | some r =>
      simp only [execStage, at_, own] at taken
      obtain ⟨⟨notice, ses⟩, done, same⟩ := Option.map_eq_some_iff.mp taken
      cases same
      exact .silent (taking_kept inv here at_ own done)
  | waiting =>
    cases own : c.resp with
    | none => simp [execStage, at_, own] at taken
    | some r =>
      simp only [execStage, at_, own] at taken
      obtain ⟨⟨notice, ses⟩, done, same⟩ := Option.map_eq_some_iff.mp taken
      cases same
      exact .silent (waiting_kept inv here at_ own done)
  | timedOut =>
    simp only [execStage, at_] at taken
    cases taken
    refine .silent (inv.goto here (by simp [at_]) rfl rfl rfl (by simp) rfl rfl ?_ fun _ _ => nofun)
    exact fun r' open_ => ⟨registered r' open_, rfl⟩
  | checking =>
    simp only [execStage, at_] at taken
    cases taken
    refine .silent (inv.goto here (by simp [at_]) rfl rfl rfl (by simp) rfl rfl ?_ ?_)
    · exact fun r' open_ => ⟨registered r' open_, rfl⟩
    · intro r own good
      have before := inv.stage c r here own
      rw [at_] at before
      refine before.2.status ?_
      by_contra other
      rw [if_neg other] at good
      cases good
  | leaving result =>
    simp only [execStage, at_] at taken
    cases taken
    refine .silent (inv.goto here (by simp [at_]) rfl rfl rfl (by simp) rfl rfl nofun ?_)
    intro r own
    have before := inv.stage c r here own
    rwa [at_] at before
  | releasing result =>
    simp only [execStage, at_] at taken
    cases taken
    exact returned_kept inv here at_ guard (shut (by rw [at_]; rfl))

theorem step_kept {a : Action} (inv : Inv l s) (guard : Guard s a) (taken : (machine cfg).step s a = some (s', es)) :
    Kept l s' es := by
  simp only [machine, step] at taken
  split at taken
  · contradiction
  · cases a with
    | call t resp cli => exact call_kept inv taken
    | exec =>
      obtain ⟨c, here, taken⟩ := Option.bind_eq_some_iff.mp taken
      exact exec_kept inv here guard taken
    | timer t =>
      obtain ⟨k, expired, same⟩ := Option.map_eq_some_iff.mp taken
      cases same
      exact .silent (timer_kept inv expired)
    | line line => exact line_kept inv taken
    | parse => exact parse_kept inv taken

/-- Where the guard holds at every step, a call succeeds only on its own response, and the parser keeps off
the objects of the calls that have returned. -/
theorem exec_own_response {tr : List Event} (run : RunWhere (machine cfg) Guard tr s) : Each Right tr := by
  have kept : Inv (ledger tr) s ∧ Each Right tr := by
    refine run.invariant (I := fun tr s => Inv (ledger tr) s ∧ Each Right tr) ?_ ?_
    · exact fun s start => ⟨start_inv start, .nil⟩
    · intro tr s a s' es _ inv guard taken
      cases step_kept inv.1 guard taken with
      | silent after =>
        rw [List.append_nil]
        exact ⟨after, inv.2⟩
      | shows allowed after => exact ⟨by rwa [ledger, List.foldl_append], .snoc inv.2 allowed⟩
  exact kept.2

end Steps

def guardChecked (s : State) : Action → Bool
  | .exec => s.call.all (fun c => c.resp.all (fun r => match c.stage with
    | .sending => decide (s.resp = some r ∧ s.respNotice.value = 0 ∧ s.parser = .reading ∧
        ((s.objects r).lineNum = 0 ∨ (s.objects r).lineCounts = 0))
    | .releasing _ => decide (s.parser = .reading)
    | _ => true))
  | _ => true

theorem guardChecked_sound {s : State} {a : Action} (checked : guardChecked s a = true) : Guard s a := by
  rintro c r rfl here own
  simp only [guardChecked, here, own, Option.all_some] at checked
  split
  · rename_i at_
    rw [at_] at checked
    exact of_decide_eq_true checked
  · rename_i at_
    rw [at_] at checked
    rw [of_decide_eq_true checked]
    exact fun writes => writes
  · trivial

/-- Two objects for responses of any number of lines, with buffers of 16 bytes and a timeout of 5 ticks. -/
def booted : State where
  resp := none
  respStatus := .ok
  respNotice := ⟨Kernel.startedThreads (fun _ => 10) 1, 0, .fifo, fun _ => false⟩
  objects := fun _ => ⟨List.replicate 16 0, 16, 0, 0, 0, 5⟩
  call := none
  parser := .reading

theorem booted_start : Start booted := ⟨rfl, ⟨rfl, by decide, by decide, fun _ => rfl⟩, rfl, rfl⟩

def okLine : Text := [79, 75, 13, 10]

def answered : List Event :=
  [.called (some 0), .sent (some 0), .received okLine (some 0), .loaded 0, .wrote 0, .wrote 0, .wrote 0,
    .returned (some 0) .eok]

/-- A command, its OK line in time. -/
theorem exec_own_response_ok : (∃ s, Run (machine AtClient.config) answered s) ∧ Each Right answered := by
  obtain ⟨s, run, _⟩ := Run.shows (M := (machine AtClient.config).restrict guardChecked) booted_start
    ([.call 0 (some 0) false] ++ List.replicate 6 .exec ++ [.line okLine] ++ List.replicate 10 .parse ++
      List.replicate 4 .exec) answered (fun _ => true) (by decide +kernel)
  have guarded := RunWhere.ofRestrict (fun _ _ _ _ => guardChecked_sound) run
  exact ⟨⟨s, guarded.run⟩, exec_own_response guarded⟩

def late : List Event :=
  [.called (some 0), .sent (some 0), .received okLine (some 0), .loaded 0, .returned (some 0) .etimeout]

def laterCall : List Event :=
  [.wrote 0, .wrote 0, .wrote 0, .called (some 1), .sent (some 0), .returned (some 1) .eok]

theorem late_run : ∃ s, Run (machine AtClient.config) (late ++ laterCall) s := by
  obtain ⟨s, run, _⟩ := Run.shows (M := machine AtClient.config) booted_start
    ([.call 0 (some 0) false] ++ List.replicate 6 .exec ++ [.timer 0, .line okLine, .parse, .parse] ++
      List.replicate 4 .exec ++ List.replicate 8 .parse ++ [.call 0 (some 1) false] ++ List.replicate 9 .exec)
    (late ++ laterCall) (fun _ => true) (by decide +kernel)
  exact ⟨s, run⟩

theorem not_exec_own_response : (∃ s, Run (machine AtClient.config) (late ++ laterCall) s) ∧
    ¬ Right late (.wrote 0) ∧ ¬ Right (late ++ laterCall.take 5) (.returned (some 1) .eok) := by
  refine ⟨late_run, ?_, ?_⟩
  · rintro ⟨impossible, _⟩
    cases impossible
  · rintro ⟨n, _, ⟨_, line, member, _⟩ | ⟨asked, count⟩⟩
    · cases member
    · exact asked (Nat.le_zero.mp count)

end RtThread.AtExec

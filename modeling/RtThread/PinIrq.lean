import Mathlib.Data.BitVec
import Mathlib.Logic.Function.Basic
import RtThread.Run

/-! The pin interrupts of the GPIO driver (drv_gpio.c) with what HAL_GPIO_Init and
HAL_GPIO_DeInit do to the interrupt lines (stm32f4xx_hal_gpio.c). Sixteen lines are shared by
nine ports, and seven NVIC interrupts by the lines. Calls run with interrupts disabled, one
after the other. -/
namespace RtThread.PinIrq
open Transition

def rtEok : Int := 0
def rtEnosys : Int := 6
def rtEbusy : Int := 7

def pinIrqDisable : Nat := 0
def pinIrqEnable : Nat := 1

def pinStportMax : Nat := 9

def pinPort (pin : Int) : Nat := (pin / 16 % 16).toNat
def pinNo (pin : Int) : Nat := (pin % 16).toNat
def pinStpin (pin : Int) : Nat := 2 ^ pinNo pin

def int16 (pin : Int) : Int := pin.bmod 65536

inductive Irqn where
  | exti0 | exti1 | exti2 | exti3 | exti4 | exti95 | exti1510
  deriving DecidableEq

/-- Entry `i` is for the pin bit `1 << i`. -/
def pinIrqMap : List Irqn :=
  [.exti0, .exti1, .exti2, .exti3, .exti4, .exti95, .exti95, .exti95, .exti95, .exti95,
    .exti1510, .exti1510, .exti1510, .exti1510, .exti1510, .exti1510]

def irqno (line : Nat) : Irqn := pinIrqMap.getD line .exti0

/-- Handlers and arguments are addresses; 0 is RT_NULL. -/
structure PinIrqHdr where
  pin : Int
  mode : Nat
  hdr : Nat
  args : Nat

structure GpioInit where
  mode : BitVec 32
  pull : BitVec 32

/-- One line of the EXTI, with its field of SYSCFG->EXTICR. -/
structure ExtiLine where
  port : Nat
  imr : Bool
  emr : Bool
  rtsr : Bool
  ftsr : Bool

/-- `irqEnableMask` is pin_irq_enable_mask by bits. -/
structure State where
  irqHdrTab : Nat → PinIrqHdr
  irqEnableMask : Nat → Bool
  exti : Nat → ExtiLine
  gpio : Nat × Nat → GpioInit
  nvic : Irqn → Bool

def bit2bitno (bit : Nat) : Option Nat := (List.range 32).find? (fun i => 2 ^ i = bit)

/-- The entry of pin_irq_map for a pin bit. -/
def mapIndex (bit : Nat) : Option Nat :=
  match bit2bitno bit with
  | none => none
  | some i => if pinIrqMap.length ≤ i then none else some i

def gpioGetIndex (port : Nat) : Nat := if port < 8 then port else 8

def extiMode : BitVec 32 := 0x10000000
def gpioModeIt : BitVec 32 := 0x00010000
def gpioModeEvt : BitVec 32 := 0x00020000
def risingEdge : BitVec 32 := 0x00100000
def fallingEdge : BitVec 32 := 0x00200000

def State.halGpioInit (s : State) (port line : Nat) (init : GpioInit) : State :=
  let s := { s with gpio := Function.update s.gpio (port, line) init }
  if init.mode &&& extiMode = extiMode then
    { s with
      exti := Function.update s.exti line
        { port := gpioGetIndex port
          imr := init.mode &&& gpioModeIt = gpioModeIt
          emr := init.mode &&& gpioModeEvt = gpioModeEvt
          rtsr := init.mode &&& risingEdge = risingEdge
          ftsr := init.mode &&& fallingEdge = fallingEdge } }
  else s

def State.halGpioDeInit (s : State) (port line : Nat) : State :=
  let s := if (s.exti line).port = gpioGetIndex port then
      { s with exti := Function.update s.exti line ⟨0, false, false, false, false⟩ }
    else s
  { s with gpio := Function.update s.gpio (port, line) ⟨0, 0⟩ }

def stm32PinAttachIrq (s : State) (pin : Int) (mode hdr args : Nat) : State × Int :=
  if pinStportMax ≤ pinPort pin then (s, -rtEnosys)
  else
    match mapIndex (pinStpin pin) with
    | none => (s, rtEnosys)
    | some irqindex =>
      let entry := s.irqHdrTab irqindex
      if entry.pin = pin ∧ entry.hdr = hdr ∧ entry.mode = mode ∧ entry.args = args then (s, rtEok)
      else if entry.pin ≠ -1 then (s, rtEbusy)
      else
        ({ s with
          irqHdrTab := Function.update s.irqHdrTab irqindex ⟨int16 pin, mode % 65536, hdr, args⟩ }, rtEok)

def stm32PinDettachIrq (s : State) (pin : Int) : State × Int :=
  if pinStportMax ≤ pinPort pin then (s, -rtEnosys)
  else
    match mapIndex (pinStpin pin) with
    | none => (s, rtEnosys)
    | some irqindex =>
      if (s.irqHdrTab irqindex).pin = -1 then (s, rtEok)
      else ({ s with irqHdrTab := Function.update s.irqHdrTab irqindex ⟨-1, 0, 0, 0⟩ }, rtEok)

/-- GPIO_InitStruct by the mode of the entry. The switch has no default, so any other mode
leaves in it what was on the `stack`. -/
def initStruct (mode : Nat) (stack : GpioInit) : GpioInit :=
  match mode with
  | 0 => ⟨0x10110000, 2⟩
  | 1 => ⟨0x10210000, 1⟩
  | 2 => ⟨0x10310000, 0⟩
  | _ => stack

def State.enableLine (s : State) (pin : Int) (irqindex : Nat) (stack : GpioInit) : State :=
  let s := s.halGpioInit (pinPort pin) (pinNo pin) (initStruct (s.irqHdrTab irqindex).mode stack)
  { s with
    nvic := Function.update s.nvic (irqno irqindex) true
    irqEnableMask := Function.update s.irqEnableMask irqindex true }

def State.nvicDisable (s : State) (line : Nat) : State :=
  { s with nvic := Function.update s.nvic (irqno line) false }

def State.clearLine (s : State) (pin : Int) (line : Nat) : State :=
  let s := s.halGpioDeInit (pinPort pin) (pinNo pin)
  { s with irqEnableMask := Function.update s.irqEnableMask line false }

/-- An interrupt of several lines is disabled with the last of them. -/
def State.releaseIrq (s : State) (line : Nat) : State :=
  if 5 ≤ line ∧ line ≤ 9 then
    if (List.range' 5 5).all (fun i => !s.irqEnableMask i) then s.nvicDisable line else s
  else if 10 ≤ line ∧ line ≤ 15 then
    if (List.range' 10 6).all (fun i => !s.irqEnableMask i) then s.nvicDisable line else s
  else s.nvicDisable line

def stm32PinIrqEnable (s : State) (pin : Int) (enabled : Nat) (stack : GpioInit) : State × Int :=
  if pinStportMax ≤ pinPort pin then (s, -rtEnosys)
  else if enabled = pinIrqEnable then
    match mapIndex (pinStpin pin) with
    | none => (s, rtEnosys)
    | some irqindex =>
      if (s.irqHdrTab irqindex).pin = -1 then (s, rtEnosys)
      else (s.enableLine pin irqindex stack, rtEok)
  else if enabled = pinIrqDisable then
    match mapIndex (pinStpin pin) with
    | none => (s, rtEnosys)
    | some line => ((s.clearLine pin line).releaseIrq line, rtEok)
  else (s, -rtEnosys)

/-- The handler that is called, with its argument. -/
def pinIrqHdr (s : State) (irqno : Nat) : Option (Nat × Nat) :=
  if (s.irqHdrTab irqno).hdr ≠ 0 then some ((s.irqHdrTab irqno).hdr, (s.irqHdrTab irqno).args) else none

def halGpioExtiCallback (s : State) (gpioPin : Nat) : Option (Nat × Nat) :=
  (bit2bitno gpioPin).bind (pinIrqHdr s)

inductive Action where
  | attachIrq (pin : Int) (mode hdr args : Nat)
  | dettachIrq (pin : Int)
  | irqEnable (pin : Int) (enabled : Nat) (stack : GpioInit)

inductive Event where
  | attachIrq (pin : Int) (mode hdr args : Nat) (ret : Int)
  | dettachIrq (pin : Int) (ret : Int)
  | irqEnable (pin : Int) (enabled : Nat) (ret : Int)
  deriving DecidableEq

def Action.pin : Action → Int
  | .attachIrq pin _ _ _ | .dettachIrq pin | .irqEnable pin _ _ => pin

def Event.pin : Event → Int
  | .attachIrq pin _ _ _ _ | .dettachIrq pin _ | .irqEnable pin _ _ => pin

def call (s : State) : Action → State × Event
  | .attachIrq pin mode hdr args =>
    let r := stm32PinAttachIrq s pin mode hdr args
    (r.1, .attachIrq pin mode hdr args r.2)
  | .dettachIrq pin =>
    let r := stm32PinDettachIrq s pin
    (r.1, .dettachIrq pin r.2)
  | .irqEnable pin enabled stack =>
    let r := stm32PinIrqEnable s pin enabled stack
    (r.1, .irqEnable pin enabled r.2)

def Start (s : State) : Prop :=
  (∀ line, s.irqHdrTab line = ⟨-1, 0, 0, 0⟩) ∧ ∀ line, s.irqEnableMask line = false

def machine : Machine State Action Event where
  start := Start
  step s a := some ((call s a).1, [(call s a).2])

/-- What a pin was attached with, and whether it has been enabled since. -/
structure Attachment where
  mode : Nat
  hdr : Nat
  args : Nat
  on : Bool
  deriving DecidableEq

def IsPin (port line : Nat) (pin : Int) : Prop := pinPort pin = port ∧ pinNo pin = line

instance (port line : Nat) (pin : Int) : Decidable (IsPin port line pin) := inferInstanceAs (Decidable (_ ∧ _))

def follow (port line : Nat) (now : Option Attachment) : Event → Option Attachment
  | .attachIrq pin mode hdr args ret =>
    if IsPin port line pin ∧ ret = rtEok ∧ now = none then some ⟨mode, hdr, args, false⟩ else now
  | .dettachIrq pin ret => if IsPin port line pin ∧ ret = rtEok then none else now
  | .irqEnable pin enabled ret =>
    if IsPin port line pin ∧ ret = rtEok then now.map (fun a => { a with on := enabled = pinIrqEnable })
    else now

/-- The attachment of pin `line` of `port` after the calls `tr`, if attach has returned RT_EOK
and it has not been detached. -/
def attachment (port line : Nat) (tr : List Event) : Option Attachment := tr.foldl (follow port line) none

/-- The entry of a pin that is attached. -/
structure Holds (entry : PinIrqHdr) (port line : Nat) (a : Attachment) : Prop where
  pin : IsPin port line entry.pin ∧ entry.pin ≠ -1
  mode : entry.mode = a.mode % 65536
  hdr : entry.hdr = a.hdr
  args : entry.args = a.args

/-- A pin that is attached has its entry and its handler, and if enabled its interrupt. -/
structure Works (s : State) (port line : Nat) (a : Attachment) : Prop where
  entry : Holds (s.irqHdrTab line) port line a
  enabled : a.on = true → s.irqEnableMask line = true ∧ s.nvic (irqno line) = true
  selected : a.on = true → a.mode % 65536 < 3 → (s.exti line).port = port ∧ (s.exti line).imr = true
  handler : a.hdr ≠ 0 → halGpioExtiCallback s (2 ^ line) = some (a.hdr, a.args)

/-- A call for `pin` changes nothing of the other pins that are attached. -/
def Spares (tr : List Event) (pin : Int) (s s' : State) : Prop :=
  ∀ port line a, attachment port line tr = some a → ¬ IsPin port line pin →
    s'.irqHdrTab line = s.irqHdrTab line ∧ s'.exti line = s.exti line ∧
      s'.irqEnableMask line = s.irqEnableMask line ∧ (a.on = true → s'.nvic (irqno line) = true)

/-- No pin of another port is attached on the line of `pin`. -/
def OwnLine (s : State) (pin : Int) : Prop :=
  (s.irqHdrTab (pinNo pin)).pin = -1 ∨ pinPort (s.irqHdrTab (pinNo pin)).pin = pinPort pin

instance (s : State) (pin : Int) : Decidable (OwnLine s pin) := inferInstanceAs (Decidable (_ ∨ _))

def Alone (s : State) : Action → Prop
  | .attachIrq _ _ _ _ => True
  | .dettachIrq pin => pinStportMax ≤ pinPort pin ∨ OwnLine s pin
  | .irqEnable pin enabled _ =>
    pinStportMax ≤ pinPort pin ∨ (enabled ≠ pinIrqEnable ∧ enabled ≠ pinIrqDisable) ∨ OwnLine s pin

/-- On the line of `pin` an attached pin is enabled, with one of the three trigger modes. -/
def InUse (tr : List Event) (s : State) (pin : Int) : Prop :=
  ∃ a, attachment (pinPort (s.irqHdrTab (pinNo pin)).pin) (pinNo pin) tr = some a ∧
    a.on = true ∧ a.mode % 65536 < 3

structure Inv (tr : List Event) (s : State) : Prop where
  entry : ∀ port line a, attachment port line tr = some a →
    line < 16 ∧ port < pinStportMax ∧ Holds (s.irqHdrTab line) port line a
  owner : ∀ line < 16, (s.irqHdrTab line).pin ≠ -1 →
    ∃ a, attachment (pinPort (s.irqHdrTab line).pin) line tr = some a
  on : ∀ port line a, attachment port line tr = some a → a.on = true → s.irqEnableMask line = true ∧
    (a.mode % 65536 < 3 → (s.exti line).port = port ∧ (s.exti line).imr = true)
  nvic : ∀ line < 16, s.irqEnableMask line = true → s.nvic (irqno line) = true

variable {tr : List Event} {s s' : State} {port line : Nat} {pin : Int} {now : Option Attachment} {e : Event}

theorem pinNo_lt (pin : Int) : pinNo pin < 16 := by
  unfold pinNo
  lia

theorem bit2bitno_two_pow (small : line < 16) : bit2bitno (2 ^ line) = some line := by
  revert small
  revert line
  decide

theorem mapIndex_eq (pin : Int) : mapIndex (pinStpin pin) = some (pinNo pin) := by
  have small := pinNo_lt pin
  rw [mapIndex, pinStpin, bit2bitno_two_pow small]
  exact if_neg (Nat.not_le.mpr small)

theorem int16_isPin (pin : Int) : IsPin (pinPort pin) (pinNo pin) (int16 pin) := by
  unfold IsPin pinPort pinNo int16 Int.bmod
  dsimp only
  split <;> lia

theorem int16_ne (inside : pinPort pin < pinStportMax) : int16 pin ≠ -1 := by
  intro none
  have same := (int16_isPin pin).1
  rw [none] at same
  rw [← same] at inside
  exact absurd inside (by decide)

/-- What a call may change: the line of its pin, and an NVIC interrupt without enabled lines. -/
structure OnLine (line : Nat) (s s' : State) : Prop where
  tab : ∀ l, l ≠ line → s'.irqHdrTab l = s.irqHdrTab l
  mask : ∀ l, l ≠ line → s'.irqEnableMask l = s.irqEnableMask l
  exti : ∀ l, l ≠ line → s'.exti l = s.exti l
  nvic : (∀ l < 16, s.irqEnableMask l = true → s.nvic (irqno l) = true) →
    ∀ l < 16, s'.irqEnableMask l = true → s'.nvic (irqno l) = true

theorem onLine_refl (line : Nat) (s : State) : OnLine line s s :=
  ⟨fun _ _ => rfl, fun _ _ => rfl, fun _ _ => rfl, fun nvic => nvic⟩

theorem onLine_setTab (line : Nat) (s : State) (entry : PinIrqHdr) :
    OnLine line s { s with irqHdrTab := Function.update s.irqHdrTab line entry } :=
  ⟨fun _ other => Function.update_of_ne other _ _, fun _ _ => rfl, fun _ _ => rfl, fun nvic => nvic⟩

theorem halGpioInit_other (s : State) (port line : Nat) (init : GpioInit) :
    (s.halGpioInit port line init).irqHdrTab = s.irqHdrTab ∧
      (s.halGpioInit port line init).irqEnableMask = s.irqEnableMask ∧
      (s.halGpioInit port line init).nvic = s.nvic ∧
      ∀ l, l ≠ line → (s.halGpioInit port line init).exti l = s.exti l := by
  unfold State.halGpioInit
  dsimp only
  split
  · exact ⟨rfl, rfl, rfl, fun l other => Function.update_of_ne other _ _⟩
  · exact ⟨rfl, rfl, rfl, fun l other => rfl⟩

theorem halGpioDeInit_other (s : State) (port line : Nat) :
    (s.halGpioDeInit port line).irqHdrTab = s.irqHdrTab ∧
      (s.halGpioDeInit port line).irqEnableMask = s.irqEnableMask ∧
      (s.halGpioDeInit port line).nvic = s.nvic ∧
      ∀ l, l ≠ line → (s.halGpioDeInit port line).exti l = s.exti l := by
  unfold State.halGpioDeInit
  dsimp only
  split
  · exact ⟨rfl, rfl, rfl, fun l other => Function.update_of_ne other _ _⟩
  · exact ⟨rfl, rfl, rfl, fun l other => rfl⟩

theorem enableLine_onLine (s : State) (pin : Int) (stack : GpioInit) :
    OnLine (pinNo pin) s (s.enableLine pin (pinNo pin) stack) := by
  obtain ⟨tab, mask, nvic, exti⟩ := halGpioInit_other s (pinPort pin) (pinNo pin)
    (initStruct (s.irqHdrTab (pinNo pin)).mode stack)
  constructor
  · intro l _
    exact congrFun tab l
  · intro l other
    exact (Function.update_of_ne other _ _).trans (congrFun mask l)
  · exact exti
  · intro held l small masked
    by_cases same : irqno l = irqno (pinNo pin)
    · simp [State.enableLine, same]
    · have other : l ≠ pinNo pin := fun eq => same (eq ▸ rfl)
      refine (Function.update_of_ne same _ _).trans ((congrFun nvic _).trans (held l small ?_))
      rw [← masked]
      exact ((Function.update_of_ne other _ _).trans (congrFun mask l)).symm

theorem clearLine_onLine (s : State) (pin : Int) : OnLine (pinNo pin) s (s.clearLine pin (pinNo pin)) := by
  obtain ⟨tab, mask, nvic, exti⟩ := halGpioDeInit_other s (pinPort pin) (pinNo pin)
  refine ⟨fun l _ => congrFun tab l, ?_, exti, ?_⟩
  · intro l other
    exact (Function.update_of_ne other _ _).trans (congrFun mask l)
  · intro held l inside masked
    have other : l ≠ pinNo pin := by
      rintro rfl
      simp [State.clearLine] at masked
    refine (congrFun nvic _).trans (held l inside ?_)
    rw [← masked]
    exact ((Function.update_of_ne other _ _).trans (congrFun mask l)).symm

theorem irqno_shared (a b : Fin 16) : irqno a = irqno b →
    a = b ∨ (5 ≤ a.val ∧ a.val ≤ 9 ∧ 5 ≤ b.val ∧ b.val ≤ 9) ∨
      (10 ≤ a.val ∧ a.val ≤ 15 ∧ 10 ≤ b.val ∧ b.val ≤ 15) := by
  revert a b
  decide

theorem releaseIrq_cases (s : State) (small : line < 16) (off : s.irqEnableMask line = false) :
    s.releaseIrq line = s ∨ (s.releaseIrq line = s.nvicDisable line ∧
      ∀ l < 16, irqno l = irqno line → s.irqEnableMask l = false) := by
  unfold State.releaseIrq
  split
  · rename_i low
    split
    · rename_i none
      refine Or.inr ⟨rfl, ?_⟩
      intro l inside same
      rcases irqno_shared ⟨l, inside⟩ ⟨line, small⟩ same with eq | group | group
      · rw [show l = line from congrArg Fin.val eq, off]
      · simpa using List.all_eq_true.mp none l (by simp at group ⊢; lia)
      · dsimp only at group
        lia
    · exact Or.inl rfl
  · split
    · rename_i high
      split
      · rename_i none
        refine Or.inr ⟨rfl, ?_⟩
        intro l inside same
        rcases irqno_shared ⟨l, inside⟩ ⟨line, small⟩ same with eq | group | group
        · rw [show l = line from congrArg Fin.val eq, off]
        · dsimp only at group
          lia
        · simpa using List.all_eq_true.mp none l (by simp at group ⊢; lia)
      · exact Or.inl rfl
    · refine Or.inr ⟨rfl, ?_⟩
      intro l inside same
      rcases irqno_shared ⟨l, inside⟩ ⟨line, small⟩ same with eq | group | group
      · rw [show l = line from congrArg Fin.val eq, off]
      · dsimp only at group
        lia
      · dsimp only at group
        lia

theorem disable_onLine (s : State) (pin : Int) :
    OnLine (pinNo pin) s ((s.clearLine pin (pinNo pin)).releaseIrq (pinNo pin)) := by
  have cleared := clearLine_onLine s pin
  have off : (s.clearLine pin (pinNo pin)).irqEnableMask (pinNo pin) = false := Function.update_self ..
  rcases releaseIrq_cases _ (pinNo_lt pin) off with same | ⟨disabled, none⟩
  · rw [same]
    exact cleared
  · rw [disabled]
    refine ⟨cleared.tab, cleared.mask, cleared.exti, ?_⟩
    intro held l inside masked
    have differs : irqno l ≠ irqno (pinNo pin) := by
      intro same
      have masked : (s.clearLine pin (pinNo pin)).irqEnableMask l = true := masked
      rw [none l inside same] at masked
      cases masked
    exact (Function.update_of_ne differs _ _).trans (cleared.nvic held l inside masked)

/-- What an attach can do. -/
inductive Attaches (s : State) (pin : Int) (mode hdr args : Nat) : State × Int → Prop where
  | refused {ret : Int} : ret ≠ rtEok → Attaches s pin mode hdr args (s, ret)
  | again : pinPort pin < pinStportMax → (s.irqHdrTab (pinNo pin)).pin = pin →
      Attaches s pin mode hdr args (s, rtEok)
  | new : pinPort pin < pinStportMax → (s.irqHdrTab (pinNo pin)).pin = -1 →
      Attaches s pin mode hdr args ({ s with
        irqHdrTab := Function.update s.irqHdrTab (pinNo pin) ⟨int16 pin, mode % 65536, hdr, args⟩ }, rtEok)

theorem attach_cases (s : State) (pin : Int) (mode hdr args : Nat) :
    Attaches s pin mode hdr args (stm32PinAttachIrq s pin mode hdr args) := by
  unfold stm32PinAttachIrq
  split
  · exact .refused (by decide)
  · rename_i inside
    simp only [mapIndex_eq]
    split
    · rename_i same
      exact .again (Nat.lt_of_not_le inside) same.1
    · split
      · exact .refused (by decide)
      · rename_i free
        exact .new (Nat.lt_of_not_le inside) (not_not.mp free)

inductive Dettaches (s : State) (pin : Int) : State × Int → Prop where
  | refused {ret : Int} : pinStportMax ≤ pinPort pin → ret ≠ rtEok → Dettaches s pin (s, ret)
  | none : (s.irqHdrTab (pinNo pin)).pin = -1 → Dettaches s pin (s, rtEok)
  | clear : (s.irqHdrTab (pinNo pin)).pin ≠ -1 → pinPort pin < pinStportMax → Dettaches s pin
      ({ s with irqHdrTab := Function.update s.irqHdrTab (pinNo pin) ⟨-1, 0, 0, 0⟩ }, rtEok)

theorem dettach_cases (s : State) (pin : Int) : Dettaches s pin (stm32PinDettachIrq s pin) := by
  unfold stm32PinDettachIrq
  split
  · rename_i outside
    exact .refused outside (by decide)
  · rename_i inside
    simp only [mapIndex_eq]
    split
    · rename_i free
      exact .none free
    · rename_i used
      exact .clear used (Nat.lt_of_not_le inside)

inductive Enables (s : State) (pin : Int) (enabled : Nat) (stack : GpioInit) : State × Int → Prop where
  | refused {ret : Int} : ret ≠ rtEok →
      (pinStportMax ≤ pinPort pin ∨ (enabled ≠ pinIrqEnable ∧ enabled ≠ pinIrqDisable) ∨
        (s.irqHdrTab (pinNo pin)).pin = -1) → Enables s pin enabled stack (s, ret)
  | enable : enabled = pinIrqEnable → pinPort pin < pinStportMax → (s.irqHdrTab (pinNo pin)).pin ≠ -1 →
      Enables s pin enabled stack (s.enableLine pin (pinNo pin) stack, rtEok)
  | disable : enabled = pinIrqDisable → pinPort pin < pinStportMax →
      Enables s pin enabled stack ((s.clearLine pin (pinNo pin)).releaseIrq (pinNo pin), rtEok)

theorem enable_cases (s : State) (pin : Int) (enabled : Nat) (stack : GpioInit) :
    Enables s pin enabled stack (stm32PinIrqEnable s pin enabled stack) := by
  unfold stm32PinIrqEnable
  split
  · rename_i outside
    exact .refused (by decide) (Or.inl outside)
  · rename_i inside
    simp only [mapIndex_eq]
    split
    · rename_i on
      split
      · rename_i free
        exact .refused (by decide) (Or.inr (Or.inr free))
      · rename_i used
        exact .enable on (Nat.lt_of_not_le inside) used
    · rename_i notOn
      split
      · rename_i off
        exact .disable off (Nat.lt_of_not_le inside)
      · rename_i notOff
        exact .refused (by decide) (Or.inr (Or.inl ⟨notOn, notOff⟩))

theorem call_onLine (s : State) (a : Action) : OnLine (pinNo a.pin) s (call s a).1 := by
  cases a with
  | attachIrq pin mode hdr args =>
    simp only [call, Action.pin]
    have does := attach_cases s pin mode hdr args
    generalize stm32PinAttachIrq s pin mode hdr args = r at does
    cases does with
    | refused _ => exact onLine_refl _ s
    | again _ _ => exact onLine_refl _ s
    | new _ _ => exact onLine_setTab _ s _
  | dettachIrq pin =>
    simp only [call, Action.pin]
    have does := dettach_cases s pin
    generalize stm32PinDettachIrq s pin = r at does
    cases does with
    | refused _ _ => exact onLine_refl _ s
    | none _ => exact onLine_refl _ s
    | clear _ _ => exact onLine_setTab _ s _
  | irqEnable pin enabled stack =>
    simp only [call, Action.pin]
    have does := enable_cases s pin enabled stack
    generalize stm32PinIrqEnable s pin enabled stack = r at does
    cases does with
    | refused _ _ => exact onLine_refl _ s
    | enable _ _ _ => exact enableLine_onLine s pin stack
    | disable _ _ => exact disable_onLine s pin

theorem attachment_snoc (port line : Nat) (tr : List Event) (e : Event) :
    attachment port line (tr ++ [e]) = follow port line (attachment port line tr) e := by
  simp [attachment]

theorem follow_other (other : ¬ IsPin port line e.pin) : follow port line now e = now := by
  cases e <;> exact if_neg (fun both => other both.1)

theorem start_inv (start : Start s) : Inv [] s := by
  obtain ⟨tab, mask⟩ := start
  constructor
  · intro port line a attached
    cases attached
  · intro line _ used
    simp [tab] at used
  · intro port line a attached
    cases attached
  · intro line _ masked
    simp [mask] at masked

theorem Inv.away {a : Attachment} (inv : Inv tr s) (effect : OnLine (pinNo pin) s s')
    (attached : attachment port line tr = some a) (other : line ≠ pinNo pin) :
    (line < 16 ∧ port < pinStportMax ∧ Holds (s'.irqHdrTab line) port line a) ∧
      (a.on = true → s'.irqEnableMask line = true ∧
        (a.mode % 65536 < 3 → (s'.exti line).port = port ∧ (s'.exti line).imr = true)) := by
  rw [effect.tab line other, effect.mask line other, effect.exti line other]
  exact ⟨inv.entry port line a attached, inv.on port line a attached⟩

theorem Inv.step (inv : Inv tr s) (effect : OnLine (pinNo pin) s s') (isPin : e.pin = pin)
    (entry : ∀ port a, follow port (pinNo pin) (attachment port (pinNo pin) tr) e = some a →
      port < pinStportMax ∧ Holds (s'.irqHdrTab (pinNo pin)) port (pinNo pin) a ∧
        (a.on = true → s'.irqEnableMask (pinNo pin) = true ∧
          (a.mode % 65536 < 3 → (s'.exti (pinNo pin)).port = port ∧ (s'.exti (pinNo pin)).imr = true)))
    (owner : (s'.irqHdrTab (pinNo pin)).pin ≠ -1 →
      ∃ a, follow (pinPort (s'.irqHdrTab (pinNo pin)).pin) (pinNo pin)
        (attachment (pinPort (s'.irqHdrTab (pinNo pin)).pin) (pinNo pin) tr) e = some a) :
    Inv (tr ++ [e]) s' := by
  have elsewhere : ∀ port line, line ≠ pinNo pin →
      attachment port line (tr ++ [e]) = attachment port line tr := by
    intro port line other
    rw [attachment_snoc]
    exact follow_other (fun is => other (isPin ▸ is.2).symm)
  constructor
  · intro port line a attached
    by_cases here : line = pinNo pin
    · subst here
      rw [attachment_snoc] at attached
      obtain ⟨small, holds, _⟩ := entry port a attached
      exact ⟨pinNo_lt pin, small, holds⟩
    · rw [elsewhere port line here] at attached
      exact (inv.away effect attached here).1
  · intro line small used
    by_cases here : line = pinNo pin
    · subst here
      rw [attachment_snoc]
      exact owner used
    · rw [elsewhere _ line here]
      rw [effect.tab line here] at used ⊢
      exact inv.owner line small used
  · intro port line a attached
    by_cases here : line = pinNo pin
    · subst here
      rw [attachment_snoc] at attached
      exact (entry port a attached).2.2
    · rw [elsewhere port line here] at attached
      exact (inv.away effect attached here).2
  · exact effect.nvic inv.nvic

theorem Inv.keep (pin : Int) (inv : Inv tr s) (same : ∀ port,
    follow port (pinNo pin) (attachment port (pinNo pin) tr) e = attachment port (pinNo pin) tr)
    (isPin : e.pin = pin) : Inv (tr ++ [e]) s := by
  refine inv.step (onLine_refl _ s) isPin ?_ ?_
  · intro port a attached
    rw [same] at attached
    obtain ⟨_, small, holds⟩ := inv.entry port _ a attached
    exact ⟨small, holds, inv.on port _ a attached⟩
  · intro used
    rw [same]
    exact inv.owner _ (pinNo_lt pin) used

theorem attach_inv {mode hdr args : Nat} (inv : Inv tr s) :
    Inv (tr ++ [(call s (.attachIrq pin mode hdr args)).2]) (call s (.attachIrq pin mode hdr args)).1 := by
  have effect := call_onLine s (.attachIrq pin mode hdr args)
  simp only [call, Action.pin] at effect ⊢
  have does := attach_cases s pin mode hdr args
  generalize stm32PinAttachIrq s pin mode hdr args = r at does effect
  cases does with
  | refused failed => exact inv.keep pin (fun port => if_neg (fun both => failed both.2.1)) rfl
  | again inside same =>
    refine inv.keep pin (fun port => if_neg ?_) rfl
    rintro ⟨⟨isPort, _⟩, _, none⟩
    have used : (s.irqHdrTab (pinNo pin)).pin ≠ -1 := by
      intro free
      rw [same] at free
      rw [free] at inside
      exact absurd inside (by decide)
    obtain ⟨a, attached⟩ := inv.owner _ (pinNo_lt pin) used
    rw [same, isPort, none] at attached
    cases attached
  | new inside free =>
    have isPin := int16_isPin pin
    have unused : ∀ port, attachment port (pinNo pin) tr = none := by
      intro port
      cases attached : attachment port (pinNo pin) tr with
      | none => rfl
      | some a => exact absurd free (inv.entry port _ a attached).2.2.pin.2
    refine inv.step effect rfl ?_ ?_
    · intro port a attached
      rw [unused port] at attached
      simp only [follow] at attached
      split at attached
      · rename_i isIt
        cases Option.some.inj attached
        simp only [Function.update_self]
        exact ⟨isIt.1.1 ▸ inside, ⟨⟨isIt.1.1 ▸ isPin, int16_ne inside⟩, rfl, rfl, rfl⟩, fun on => by cases on⟩
      · cases attached
    · intro _
      simp only [Function.update_self]
      refine ⟨_, if_pos ⟨?_, rfl, unused _⟩⟩
      exact ⟨isPin.1.symm, rfl⟩

theorem dettach_inv (inv : Inv tr s) (alone : Alone s (.dettachIrq pin)) :
    Inv (tr ++ [(call s (.dettachIrq pin)).2]) (call s (.dettachIrq pin)).1 := by
  have effect := call_onLine s (.dettachIrq pin)
  simp only [call, Action.pin] at effect ⊢
  have does := dettach_cases s pin
  generalize stm32PinDettachIrq s pin = r at does effect
  cases does with
  | refused _ failed => exact inv.keep pin (fun port => if_neg (fun both => failed both.2)) rfl
  | none free =>
    refine inv.keep pin (fun port => ?_) rfl
    simp only [follow]
    split
    · cases attached : attachment port (pinNo pin) tr with
      | none => rfl
      | some a => exact absurd free (inv.entry port _ a attached).2.2.pin.2
    · rfl
  | clear used inside =>
    refine inv.step effect rfl ?_ ?_
    · intro port a attached
      simp only [follow] at attached
      split at attached
      · cases attached
      · rename_i other
        have isPort := (inv.entry port _ a attached).2.2.pin.1.1
        rcases alone with outside | free | own
        · lia
        · exact absurd free used
        · exact absurd ⟨⟨own.symm.trans isPort, rfl⟩, trivial⟩ other
    · intro still
      simp at still

theorem enableLine_exti (s : State) (pin : Int) (stack : GpioInit) (inside : pinPort pin < pinStportMax)
    (known : (s.irqHdrTab (pinNo pin)).mode < 3) :
    ((s.enableLine pin (pinNo pin) stack).exti (pinNo pin)).port = pinPort pin ∧
      ((s.enableLine pin (pinNo pin) stack).exti (pinNo pin)).imr = true := by
  have index : gpioGetIndex (pinPort pin) = pinPort pin := by
    have bound : pinPort pin < 9 := inside
    unfold gpioGetIndex
    split <;> lia
  have mode : (initStruct (s.irqHdrTab (pinNo pin)).mode stack).mode &&& extiMode = extiMode ∧
      (initStruct (s.irqHdrTab (pinNo pin)).mode stack).mode &&& gpioModeIt = gpioModeIt := by
    obtain zero | one | two : (s.irqHdrTab (pinNo pin)).mode = 0 ∨ (s.irqHdrTab (pinNo pin)).mode = 1 ∨
        (s.irqHdrTab (pinNo pin)).mode = 2 := by lia
    · simp [initStruct, extiMode, gpioModeIt, zero]
    · simp [initStruct, extiMode, gpioModeIt, one]
    · simp [initStruct, extiMode, gpioModeIt, two]
  simp only [State.enableLine, State.halGpioInit, if_pos mode.1, Function.update_self, mode.2, decide_true]
  exact ⟨index, trivial⟩

theorem enable_inv {enabled : Nat} {stack : GpioInit} (inv : Inv tr s)
    (alone : Alone s (.irqEnable pin enabled stack)) :
    Inv (tr ++ [(call s (.irqEnable pin enabled stack)).2]) (call s (.irqEnable pin enabled stack)).1 := by
  have effect := call_onLine s (.irqEnable pin enabled stack)
  simp only [call, Action.pin] at effect ⊢
  have does := enable_cases s pin enabled stack
  generalize stm32PinIrqEnable s pin enabled stack = r at does effect
  cases does with
  | refused failed _ => exact inv.keep pin (fun port => if_neg (fun both => failed both.2)) rfl
  | enable on inside used =>
    have own : pinPort (s.irqHdrTab (pinNo pin)).pin = pinPort pin := by
      rcases alone with outside | ⟨other, _⟩ | free | own
      · lia
      · exact absurd on other
      · exact absurd free used
      · exact own
    have tab : (s.enableLine pin (pinNo pin) stack).irqHdrTab = s.irqHdrTab := (halGpioInit_other s _ _ _).1
    have masked : (s.enableLine pin (pinNo pin) stack).irqEnableMask (pinNo pin) = true := Function.update_self ..
    refine inv.step effect rfl ?_ ?_
    · intro port a attached
      have old : ∃ b, attachment port (pinNo pin) tr = some b ∧
          b.mode = a.mode ∧ b.hdr = a.hdr ∧ b.args = a.args := by
        simp only [follow] at attached
        split at attached
        · obtain ⟨b, was, rfl⟩ := Option.map_eq_some_iff.mp attached
          exact ⟨b, was, rfl, rfl, rfl⟩
        · exact ⟨a, attached, rfl, rfl, rfl⟩
      obtain ⟨b, was, mode, hdr, args⟩ := old
      obtain ⟨_, small, holds⟩ := inv.entry port _ b was
      have isPort : pinPort pin = port := own.symm.trans holds.pin.1.1
      rw [tab]
      refine ⟨small, ⟨holds.pin, mode ▸ holds.mode, hdr ▸ holds.hdr, args ▸ holds.args⟩, fun _ => ⟨masked, ?_⟩⟩
      intro known
      rw [← isPort]
      exact enableLine_exti s pin stack inside (by rw [holds.mode, mode]; exact known)
    · intro stays
      rw [tab] at stays ⊢
      obtain ⟨a, attached⟩ := inv.owner _ (pinNo_lt pin) stays
      rw [attached]
      simp only [follow]
      split <;> exact ⟨_, rfl⟩
  | disable off inside =>
    have tab : ((s.clearLine pin (pinNo pin)).releaseIrq (pinNo pin)).irqHdrTab = s.irqHdrTab := by
      have cleared : (s.clearLine pin (pinNo pin)).irqHdrTab = s.irqHdrTab := (halGpioDeInit_other s _ _).1
      have out : (s.clearLine pin (pinNo pin)).irqEnableMask (pinNo pin) = false := Function.update_self ..
      rcases releaseIrq_cases _ (pinNo_lt pin) out with same | ⟨disabled, _⟩
      · rw [same, cleared]
      · rw [disabled]
        exact cleared
    have off' : ¬ enabled = pinIrqEnable := by
      rw [off]
      decide
    refine inv.step effect rfl ?_ ?_
    · intro port a attached
      rw [tab]
      simp only [follow] at attached
      split at attached
      · obtain ⟨b, was, rfl⟩ := Option.map_eq_some_iff.mp attached
        obtain ⟨_, small, holds⟩ := inv.entry port _ b was
        exact ⟨small, ⟨holds.pin, holds.mode, holds.hdr, holds.args⟩, fun on => by simp [off'] at on⟩
      · rename_i other
        obtain ⟨_, small, holds⟩ := inv.entry port _ a attached
        rcases alone with outside | ⟨_, other'⟩ | free | own
        · lia
        · exact absurd off other'
        · exact absurd free holds.pin.2
        · exact absurd ⟨⟨own.symm.trans holds.pin.1.1, rfl⟩, trivial⟩ other
    · intro stays
      rw [tab] at stays ⊢
      obtain ⟨a, attached⟩ := inv.owner _ (pinNo_lt pin) stays
      rw [attached]
      simp only [follow]
      split <;> exact ⟨_, rfl⟩

theorem call_inv {a : Action} (inv : Inv tr s) (alone : Alone s a) : Inv (tr ++ [(call s a).2]) (call s a).1 := by
  cases a with
  | attachIrq pin mode hdr args => exact attach_inv inv
  | dettachIrq pin => exact dettach_inv inv alone
  | irqEnable pin enabled stack => exact enable_inv inv alone

theorem Inv.works {a : Attachment} (inv : Inv tr s) (attached : attachment port line tr = some a) :
    Works s port line a := by
  obtain ⟨small, _, holds⟩ := inv.entry port line a attached
  refine ⟨holds, ?_, ?_, ?_⟩
  · intro on
    have masked := (inv.on port line a attached on).1
    exact ⟨masked, inv.nvic line small masked⟩
  · intro on
    exact (inv.on port line a attached on).2
  · intro handler
    simp [halGpioExtiCallback, bit2bitno_two_pow small, pinIrqHdr, holds.hdr, holds.args, handler]

theorem call_idle {a : Action} {b : Attachment} (inv : Inv tr s) (alone : Alone s a)
    (attached : attachment port (pinNo a.pin) tr = some b) (other : port ≠ pinPort a.pin) :
    (call s a).1 = s := by
  obtain ⟨_, small, holds⟩ := inv.entry port _ b attached
  cases a with
  | attachIrq pin mode hdr args =>
    simp only [call, Action.pin] at holds ⊢
    have does := attach_cases s pin mode hdr args
    generalize stm32PinAttachIrq s pin mode hdr args = r at does
    cases does with
    | refused _ => rfl
    | again _ _ => rfl
    | new _ free => exact absurd free holds.pin.2
  | dettachIrq pin =>
    simp only [call, Action.pin] at holds other ⊢
    have does := dettach_cases s pin
    generalize stm32PinDettachIrq s pin = r at does
    cases does with
    | refused _ _ => rfl
    | none _ => rfl
    | clear used inside =>
      rcases alone with outside | free | own
      · lia
      · exact absurd free used
      · exact absurd (holds.pin.1.1.symm.trans own) other
  | irqEnable pin enabled stack =>
    simp only [call, Action.pin] at holds other ⊢
    have does := enable_cases s pin enabled stack
    generalize stm32PinIrqEnable s pin enabled stack = r at does
    have outside : pinStportMax ≤ pinPort pin ∨ (enabled ≠ pinIrqEnable ∧ enabled ≠ pinIrqDisable) := by
      rcases alone with outside | invalid | free | own
      · exact Or.inl outside
      · exact Or.inr invalid
      · exact absurd free holds.pin.2
      · exact absurd (holds.pin.1.1.symm.trans own) other
    cases does with
    | refused _ _ => rfl
    | enable on inside _ =>
      rcases outside with outside | invalid
      · lia
      · exact absurd on invalid.1
    | disable off inside =>
      rcases outside with outside | invalid
      · lia
      · exact absurd off invalid.2

theorem call_spares {a : Action} (inv : Inv tr s) (alone : Alone s a) : Spares tr a.pin s (call s a).1 := by
  intro port line b attached other
  have works := inv.works attached
  by_cases here : line = pinNo a.pin
  · subst here
    rw [call_idle inv alone attached (fun same => other ⟨same.symm, rfl⟩)]
    exact ⟨rfl, rfl, rfl, fun on => (works.enabled on).2⟩
  · have effect := call_onLine s a
    refine ⟨effect.tab line here, effect.exti line here, effect.mask line here, ?_⟩
    intro on
    refine effect.nvic inv.nvic line (inv.entry port line b attached).1 ?_
    rw [effect.mask line here]
    exact (works.enabled on).1

/-- A call for another pin of the line of an enabled one takes away its entry, its port
selection or its enable bit. -/
theorem call_disturbs {a : Action} (inv : Inv tr s) (used : InUse tr s a.pin)
    (spares : Spares tr a.pin s (call s a).1) : Alone s a := by
  obtain ⟨b, attached, on, known⟩ := used
  obtain ⟨_, _, holds⟩ := inv.entry _ _ b attached
  obtain ⟨masked, selected⟩ := inv.on _ _ b attached on
  by_cases own : pinPort (s.irqHdrTab (pinNo a.pin)).pin = pinPort a.pin
  · cases a with
    | attachIrq pin mode hdr args => trivial
    | dettachIrq pin => exact Or.inr (Or.inr own)
    | irqEnable pin enabled stack => exact Or.inr (Or.inr (Or.inr own))
  · obtain ⟨tab, exti, mask, _⟩ := spares _ _ b attached (fun is => own is.1.symm)
    cases a with
    | attachIrq pin mode hdr args => trivial
    | dettachIrq pin =>
      simp only [call, Action.pin] at tab
      have does := dettach_cases s pin
      generalize stm32PinDettachIrq s pin = r at does tab
      cases does with
      | refused outside _ => exact Or.inl outside
      | none free => exact Or.inr (Or.inl free)
      | clear busy inside =>
        simp only [Function.update_self] at tab
        exact absurd (congrArg PinIrqHdr.pin tab).symm busy
    | irqEnable pin enabled stack =>
      simp only [call, Action.pin] at tab exti mask selected masked holds own
      have does := enable_cases s pin enabled stack
      generalize stm32PinIrqEnable s pin enabled stack = r at does exti mask
      cases does with
      | refused _ why =>
        rcases why with outside | invalid | free
        · exact Or.inl outside
        · exact Or.inr (Or.inl invalid)
        · exact Or.inr (Or.inr (Or.inl free))
      | enable _ inside _ =>
        have port := (enableLine_exti s pin stack inside (by rw [holds.mode]; exact known)).1
        rw [exti, (selected known).1] at port
        exact absurd port own
      | disable _ _ =>
        have off : ((s.clearLine pin (pinNo pin)).releaseIrq (pinNo pin)).irqEnableMask (pinNo pin) = false := by
          have out : (s.clearLine pin (pinNo pin)).irqEnableMask (pinNo pin) = false := Function.update_self ..
          rcases releaseIrq_cases _ (pinNo_lt pin) out with same | ⟨disabled, _⟩
          · rw [same, out]
          · rw [disabled]
            exact out
        rw [off, masked] at mask
        cases mask

/-- As long as a line is used for one pin at a time, every attached pin works and no call
disturbs another one; a call that breaks this for an enabled pin does disturb it. -/
theorem pins_isolated (run : RunWhere machine Alone tr s) :
    (∀ port line a, attachment port line tr = some a → Works s port line a) ∧
      ∀ a s' es, machine.step s a = some (s', es) → (Alone s a → Spares tr a.pin s s') ∧
        (InUse tr s a.pin → Spares tr a.pin s s' → Alone s a) := by
  have inv : Inv tr s := by
    refine run.invariant (I := Inv) (fun _ => start_inv) ?_
    intro tr s a s' es _ inv alone taken
    cases Option.some.inj taken
    exact call_inv inv alone
  refine ⟨fun port line a => inv.works, ?_⟩
  intro a s' es taken
  cases Option.some.inj taken
  exact ⟨call_spares inv, call_disturbs inv⟩

theorem alone_of_ownLine (run : Run (machine.restrict (fun s a => decide (OwnLine s a.pin))) tr s) :
    RunWhere machine Alone tr s := by
  refine .ofRestrict ?_ run
  intro _ s a _ own
  have own := of_decide_eq_true own
  cases a with
  | attachIrq pin mode hdr args => trivial
  | dettachIrq pin => exact Or.inr own
  | irqEnable pin enabled stack => exact Or.inr (Or.inr own)

def resetState : State :=
  ⟨fun _ => ⟨-1, 0, 0, 0⟩, fun _ => false, fun _ => ⟨0, false, false, false, false⟩, fun _ => ⟨0, 0⟩, fun _ => false⟩

/-- A5 and B6 share an interrupt; disabling B6 leaves it enabled for A5. -/
theorem pins_isolated_shared : ∃ s, Works s 0 5 ⟨0, 100, 1, true⟩ ∧ s.irqEnableMask 6 = false := by
  obtain ⟨s, run, found⟩ := Run.shows
    (M := machine.restrict (fun s a => decide (OwnLine s a.pin)))
    (s := resetState) ⟨fun _ => rfl, fun _ => rfl⟩
    [.attachIrq 5 0 100 1, .attachIrq 22 1 200 2, .irqEnable 5 1 ⟨0, 0⟩, .irqEnable 22 1 ⟨0, 0⟩,
      .irqEnable 22 0 ⟨0, 0⟩]
    [.attachIrq 5 0 100 1 0, .attachIrq 22 1 200 2 0, .irqEnable 5 1 0, .irqEnable 22 1 0, .irqEnable 22 0 0]
    (fun s => !s.irqEnableMask 6) (by decide)
  have works := (pins_isolated (alone_of_ownLine run)).1 0 5 ⟨0, 100, 1, true⟩ (by decide)
  exact ⟨s, works, by simpa using found⟩

/-- B5 is disabled, which was never attached: the interrupt of A5 is disabled with it. -/
theorem pins_disturbed : ¬ ∀ tr s, Run machine tr s →
    (∀ port line a, attachment port line tr = some a → Works s port line a) ∧
      ∀ a s' es, machine.step s a = some (s', es) → Spares tr a.pin s s' := by
  intro isolated
  obtain ⟨s, run, found⟩ := Run.shows (M := machine)
    (s := resetState) ⟨fun _ => rfl, fun _ => rfl⟩
    [.attachIrq 5 0 100 1, .irqEnable 5 1 ⟨0, 0⟩, .irqEnable 21 0 ⟨0, 0⟩]
    [.attachIrq 5 0 100 1 0, .irqEnable 5 1 0, .irqEnable 21 0 0] (fun s => !s.irqEnableMask 5) (by decide)
  have works := (isolated _ s run).1 0 5 ⟨0, 100, 1, true⟩ (by decide)
  simp [(works.enabled rfl).1] at found

end RtThread.PinIrq

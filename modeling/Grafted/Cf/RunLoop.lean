import Mathlib.Algebra.Group.Nat.Defs
import Mathlib.Data.List.Nodup
import Grafted.Base.Traced

/-! CFRunLoop: the event loop with its per-mode sources, timers and observers.

One thread and its run loop. The objects callers hold are references into the
heaps of `World`; a reference is never freed, and one that was never returned
is passed over where the source would read stray memory. Modes are named by C
strings. Time is a parameter: `CFTime` has the `f64` operations the loop uses.

What a thread does is a `Prog`: calls of the API, and runs of the loop, each
with the code that answers its callbacks. A callback is a `Prog` again and may
run the loop again; it may depend on everything, since the world counts the
callbacks. `exec` runs it and records every step in an `Ev`.

The loop waits on an epoll set to which nothing is ever added, so a wait ends when
its time is over, and one with a negative timeout never ends. `exec` goes on after
every wait; what happens of a trace is what comes up to the first wait without end
(`happened`). -/
namespace Grafted.Cf.RunLoop
open Traced

/-- The `f64` operations the loop is written with. -/
class CFTime (T : Type) where
  /-- `now >= fire_date`. -/
  ge : T → T → Bool
  /-- `interval > 0.0`. -/
  isPositive : T → Bool
  add : T → T → T
  /-- `f64::MAX`. -/
  max : T
  /-- `if seconds > 1e9 { -1 } else { (seconds * 1000.0) as i32 }`. -/
  timeoutMs : T → Int
  /-- `1e10`. -/
  forever : T

/-- A clock never reads `f64::MAX` or more. -/
structure Clock (T : Type) [CFTime T] where
  reading : Nat → T
  below_max : ∀ n, CFTime.ge (reading n) CFTime.max = false

/-- Whole seconds, for runs on a given input. -/
instance : CFTime Nat where
  ge now fireDate := fireDate ≤ now
  isPositive interval := 0 < interval
  add := (· + ·)
  max := 2 ^ 256
  timeoutMs seconds := if 10 ^ 9 < seconds then -1 else seconds * 1000
  forever := 10 ^ 10

/-- A clock that stands still. -/
def midnight : Clock Nat := ⟨fun _ => 0, fun _ => by decide⟩

def K_CF_RUNLOOP_ENTRY : BitVec 64 := 1 <<< 0
def K_CF_RUNLOOP_BEFORE_TIMERS : BitVec 64 := 1 <<< 1
def K_CF_RUNLOOP_BEFORE_SOURCES : BitVec 64 := 1 <<< 2
def K_CF_RUNLOOP_BEFORE_WAITING : BitVec 64 := 1 <<< 5
def K_CF_RUNLOOP_AFTER_WAITING : BitVec 64 := 1 <<< 6
def K_CF_RUNLOOP_EXIT : BitVec 64 := 1 <<< 7

def K_CF_RUNLOOP_RUN_FINISHED : Int := 1
def K_CF_RUNLOOP_RUN_STOPPED : Int := 2
def K_CF_RUNLOOP_RUN_TIMED_OUT : Int := 3
def K_CF_RUNLOOP_RUN_HANDLED_SOURCE : Int := 4

def kCFRunLoopDefaultMode : String := "kCFRunLoopDefaultMode"
def kCFRunLoopCommonModes : String := "kCFRunLoopCommonModes"
def NSEventTrackingRunLoopMode : String := "NSEventTrackingRunLoopMode"
def NSModalPanelRunLoopMode : String := "NSModalPanelRunLoopMode"
def UITrackingRunLoopMode : String := "UITrackingRunLoopMode"

/-! ### Registries -/

/-- The index of an object in its heap. -/
abbrev Ref := Nat

/-- A vector that is only pushed to after `contains` was asked. -/
structure Registry where
  refs : List Ref
  nodup : refs.Nodup

namespace Registry

def empty : Registry := ⟨[], List.nodup_nil⟩

def add (r : Registry) (x : Ref) : Registry :=
  if h : x ∈ r.refs then r
  else ⟨r.refs.concat x, r.nodup.concat h⟩

/-- `retain(|&r| r != x)`. -/
def remove (r : Registry) (x : Ref) : Registry :=
  ⟨r.refs.filter (· != x), r.nodup.filter _⟩

end Registry

structure CFRunLoopModeInner where
  sources : Registry
  timers : Registry
  observers : Registry

namespace CFRunLoopModeInner

def new : CFRunLoopModeInner := ⟨.empty, .empty, .empty⟩

end CFRunLoopModeInner

structure CFRunLoopInner where
  modes : String → Option CFRunLoopModeInner
  commonModes : List String
  /-- The modes entered, the current one first. -/
  modeStack : List String
  stopped : Bool

/-- What `get_or_create_runloop` makes for a thread. -/
def CFRunLoopInner.new : CFRunLoopInner where
  modes name :=
    if name = kCFRunLoopDefaultMode ∨ name = NSEventTrackingRunLoopMode ∨
      name = NSModalPanelRunLoopMode then some .new else none
  commonModes := [kCFRunLoopDefaultMode, NSEventTrackingRunLoopMode]
  modeStack := []
  stopped := false

/-- The callbacks are addresses of functions of the program. -/
structure CFRunLoopSourceInner where
  perform : Option Nat
  info : Nat
  signaled : Bool

structure CFRunLoopTimerInner (T : Type) where
  fireDate : T
  interval : T
  callback : Option Nat

/-- A timer that does not repeat is never due again. -/
def CFRunLoopTimerInner.nextFireDate {T : Type} [CFTime T] (timer : CFRunLoopTimerInner T) (now : T) :
    T :=
  if CFTime.isPositive timer.interval then CFTime.add now timer.interval else CFTime.max

structure CFRunLoopObserverInner where
  activities : BitVec 64
  repeats : Bool
  order : Int
  callback : Option Nat
  info : Nat

/-! ### Mode names -/

/-- A mode argument: null, or the bytes at the pointer. -/
abbrev CFRunLoopMode := Option (Nat → BitVec 8)

/-- `is_ascii_graphic() || b == b' '`. -/
def isPrintable (b : BitVec 8) : Bool := 0x20 ≤ b && b ≤ 0x7e

/-- The bytes from `n` to the first NUL, of at most `room`, if all are printable. -/
def readName (p : Nat → BitVec 8) (n : Nat) : Nat → Option (List Char)
  | 0 => some []
  | room + 1 =>
    if p n = 0 then some []
    else if isPrintable (p n) then
      (readName p (n + 1) room).map (Char.ofNat (p n).toNat :: ·)
    else none

/-- `as_ptr()` of a name and its NUL. -/
def asPtr (name : String) : CFRunLoopMode :=
  some fun n => (name.toList[n]?.map fun c => BitVec.ofNat 8 c.toNat).getD 0

def modeNameFromPtr : CFRunLoopMode → String
  | none => kCFRunLoopDefaultMode
  | some p =>
    match readName p 0 64 with
    | some (c :: rest) => String.ofList (c :: rest)
    | _ => kCFRunLoopDefaultMode

/-! ### The world -/

/-- The thread's run loop, the objects, the clock and, of no effect on the code,
the number of activations and callbacks so far. -/
structure World (T : Type) [CFTime T] where
  rl : CFRunLoopInner
  sources : List CFRunLoopSourceInner
  timers : List (CFRunLoopTimerInner T)
  observers : List CFRunLoopObserverInner
  clock : Clock T
  readings : Nat
  activations : Nat
  callbacks : Nat

variable {T : Type} [CFTime T]

namespace World

def new (clock : Clock T) : World T := ⟨.new, [], [], [], clock, 0, 0, 0⟩

/-- The registries a mode argument stands for: itself, or the common modes. -/
def names (w : World T) (mode : CFRunLoopMode) (name : String) : Bool :=
  if modeNameFromPtr mode = kCFRunLoopCommonModes then name ∈ w.rl.commonModes
  else name = modeNameFromPtr mode

def setModes (w : World T) (modes : String → Option CFRunLoopModeInner) : World T :=
  {w with rl := {w.rl with modes := modes}}

/-- `modes.entry(name).or_insert_with(CFRunLoopModeInner::new)`. -/
def ensureMode (w : World T) (name : String) : World T :=
  w.setModes (Function.update w.rl.modes name (some ((w.rl.modes name).getD .new)))

def register (w : World T) (mode : CFRunLoopMode)
    (add : CFRunLoopModeInner → CFRunLoopModeInner) : World T :=
  w.setModes fun name =>
    if w.names mode name then some (add ((w.rl.modes name).getD .new)) else w.rl.modes name

def unregister (w : World T) (mode : CFRunLoopMode)
    (remove : CFRunLoopModeInner → CFRunLoopModeInner) : World T :=
  w.setModes fun name => if w.names mode name then (w.rl.modes name).map remove else w.rl.modes name

def pushMode (w : World T) (name : String) : World T :=
  {w with rl := {w.rl with modeStack := name :: w.rl.modeStack}}

def popMode (w : World T) : World T :=
  {w with rl := {w.rl with modeStack := w.rl.modeStack.tail}}

def setStopped (w : World T) (stopped : Bool) : World T :=
  {w with rl := {w.rl with stopped := stopped}}

def setSignaled (w : World T) (source : Ref) (signaled : Bool) : World T :=
  {w with sources := w.sources.modify source ({· with signaled := signaled})}

def setFireDate (w : World T) (timer : Ref) (fireDate : T) : World T :=
  {w with timers := w.timers.modify timer ({· with fireDate := fireDate})}

/-- The observers of a mode; none if the mode is not there. -/
def observersOf (w : World T) (mode : String) : List Ref :=
  ((w.rl.modes mode).map (·.observers.refs)).getD []

def sourcesOf (w : World T) (mode : String) : List Ref :=
  ((w.rl.modes mode).map (·.sources.refs)).getD []

def timersOf (w : World T) (mode : String) : List Ref :=
  ((w.rl.modes mode).map (·.timers.refs)).getD []

end World

/-! ### The API -/

/-- A call of the API; `rl` says that the run loop passed is not null. -/
inductive Api (T : Type) where
  | stop (rl : Bool)
  | wakeUp (rl : Bool)
  | copyCurrentMode (rl : Bool)
  | sourceCreate (context : Option (Option Nat × Nat))
  | sourceSignal (source : Option Ref)
  | containsSource (rl : Bool) (source : Option Ref) (mode : CFRunLoopMode)
  | addSource (rl : Bool) (source : Option Ref) (mode : CFRunLoopMode)
  | removeSource (rl : Bool) (source : Option Ref) (mode : CFRunLoopMode)
  | timerCreate (fireDate interval : T) (callback : Option Nat)
  | addTimer (rl : Bool) (timer : Option Ref) (mode : CFRunLoopMode)
  | removeTimer (rl : Bool) (timer : Option Ref) (mode : CFRunLoopMode)
  | observerCreate (activities : BitVec 64) (repeats : Bool) (order : Int) (callback : Option Nat)
      (info : Nat)
  | addObserver (rl : Bool) (observer : Option Ref) (mode : CFRunLoopMode)
  | removeObserver (rl : Bool) (observer : Option Ref) (mode : CFRunLoopMode)
  | addCommonMode (rl : Bool) (mode : CFRunLoopMode)
  | absoluteTimeGetCurrent

inductive Answer (T : Type) where
  | void
  | ref (object : Ref)
  | boolean (b : Bool)
  | modeName (name : Option String)
  | time (t : T)

namespace World

/-- The six `Add` and `Remove` calls do nothing when a pointer is null. -/
def unlessNull (w : World T) (rl : Bool) (object : Option Ref) (f : Ref → World T) : World T :=
  match rl, object with
  | true, some x => f x
  | _, _ => w

def cfRunLoopStop (w : World T) (rl : Bool) : World T := if rl then w.setStopped true else w

def cfRunLoopCopyCurrentMode (w : World T) (rl : Bool) : Option String :=
  if rl then
    match w.rl.modeStack.head? with
    | some name =>
      if name = NSEventTrackingRunLoopMode ∨ name = NSModalPanelRunLoopMode ∨
        name = UITrackingRunLoopMode then some name else some kCFRunLoopDefaultMode
    | none => some kCFRunLoopDefaultMode
  else none

def cfRunLoopSourceCreate (w : World T) (context : Option (Option Nat × Nat)) : World T :=
  let (perform, info) := context.getD (none, 0)
  {w with sources := w.sources ++ [⟨perform, info, false⟩]}

def cfRunLoopSourceSignal (w : World T) : Option Ref → World T
  | some source => w.setSignaled source true
  | none => w

def cfRunLoopContainsSource (w : World T) (rl : Bool) (source : Option Ref) (mode : CFRunLoopMode) :
    Bool :=
  match rl, source with
  | true, some x =>
    if modeNameFromPtr mode = kCFRunLoopCommonModes then
      w.rl.commonModes.any fun name => (w.sourcesOf name).contains x
    else (w.sourcesOf (modeNameFromPtr mode)).contains x
  | _, _ => false

def cfRunLoopAddSource (w : World T) (rl : Bool) (source : Option Ref) (mode : CFRunLoopMode) : World T :=
  w.unlessNull rl source fun x => w.register mode fun m => {m with sources := m.sources.add x}

def cfRunLoopRemoveSource (w : World T) (rl : Bool) (source : Option Ref) (mode : CFRunLoopMode) :
    World T :=
  w.unlessNull rl source fun x => w.unregister mode fun m => {m with sources := m.sources.remove x}

def cfRunLoopTimerCreate (w : World T) (fireDate interval : T) (callback : Option Nat) : World T :=
  {w with timers := w.timers ++ [⟨fireDate, interval, callback⟩]}

def cfRunLoopAddTimer (w : World T) (rl : Bool) (timer : Option Ref) (mode : CFRunLoopMode) : World T :=
  w.unlessNull rl timer fun x => w.register mode fun m => {m with timers := m.timers.add x}

def cfRunLoopRemoveTimer (w : World T) (rl : Bool) (timer : Option Ref) (mode : CFRunLoopMode) :
    World T :=
  w.unlessNull rl timer fun x => w.unregister mode fun m => {m with timers := m.timers.remove x}

def cfRunLoopObserverCreate (w : World T) (activities : BitVec 64) (repeats : Bool) (order : Int)
    (callback : Option Nat) (info : Nat) : World T :=
  {w with observers := w.observers ++ [⟨activities, repeats, order, callback, info⟩]}

def cfRunLoopAddObserver (w : World T) (rl : Bool) (observer : Option Ref) (mode : CFRunLoopMode) :
    World T :=
  w.unlessNull rl observer fun x => w.register mode fun m => {m with observers := m.observers.add x}

def cfRunLoopRemoveObserver (w : World T) (rl : Bool) (observer : Option Ref)
    (mode : CFRunLoopMode) : World T :=
  w.unlessNull rl observer fun x =>
    w.unregister mode fun m => {m with observers := m.observers.remove x}

def cfRunLoopAddCommonMode (w : World T) (rl : Bool) (mode : CFRunLoopMode) : World T :=
  if rl then
    let name := modeNameFromPtr mode
    let commonModes :=
      if name ∈ w.rl.commonModes then w.rl.commonModes else w.rl.commonModes ++ [name]
    World.ensureMode {w with rl := {w.rl with commonModes := commonModes}} name
  else w

/-- `current_absolute_time`: the next reading of the clock. -/
def currentAbsoluteTime (w : World T) : World T × T :=
  ({w with readings := w.readings + 1}, w.clock.reading w.readings)

def perform (w : World T) : Api T → World T × Answer T
  | .stop rl => (w.cfRunLoopStop rl, .void)
  | .wakeUp _ => (w, .void)
  | .copyCurrentMode rl => (w, .modeName (w.cfRunLoopCopyCurrentMode rl))
  | .sourceCreate context => (w.cfRunLoopSourceCreate context, .ref w.sources.length)
  | .sourceSignal source => (w.cfRunLoopSourceSignal source, .void)
  | .containsSource rl source mode => (w, .boolean (w.cfRunLoopContainsSource rl source mode))
  | .addSource rl source mode => (w.cfRunLoopAddSource rl source mode, .void)
  | .removeSource rl source mode => (w.cfRunLoopRemoveSource rl source mode, .void)
  | .timerCreate fireDate interval callback =>
    (w.cfRunLoopTimerCreate fireDate interval callback, .ref w.timers.length)
  | .addTimer rl timer mode => (w.cfRunLoopAddTimer rl timer mode, .void)
  | .removeTimer rl timer mode => (w.cfRunLoopRemoveTimer rl timer mode, .void)
  | .observerCreate activities repeats order callback info =>
    (w.cfRunLoopObserverCreate activities repeats order callback info, .ref w.observers.length)
  | .addObserver rl observer mode => (w.cfRunLoopAddObserver rl observer mode, .void)
  | .removeObserver rl observer mode => (w.cfRunLoopRemoveObserver rl observer mode, .void)
  | .addCommonMode rl mode => (w.cfRunLoopAddCommonMode rl mode, .void)
  | .absoluteTimeGetCurrent => (w.currentAbsoluteTime.1, .time w.currentAbsoluteTime.2)

end World

/-! ### Events -/

/-- One call of `CFRunLoopRunInMode`. -/
structure Activation where
  id : Nat
  mode : String
  deriving DecidableEq

/-- One call of a callback, by what it is called for. -/
inductive Invocation where
  | observer (o : Ref) (activity : BitVec 64)
  | source (s : Ref)
  | timer (t : Ref)
  deriving DecidableEq

/-- A callback in progress, and the activation that called it. -/
structure Frame where
  activation : Activation
  invocation : Invocation

inductive What (T : Type) where
  | api (call : Api T)
  | start (a : Activation)
  /-- The activation consumed a stop that was there before it. -/
  | refuse (a : Activation)
  | fire (a : Activation) (activity : BitVec 64)
  | call (a : Activation) (inv : Invocation)
  | ret (a : Activation) (inv : Invocation)
  | listSources (a : Activation) (sources : List Ref)
  | listTimers (a : Activation) (now : T) (timers : List Ref)
  | wait (a : Activation) (timeoutMs : Int)
  /-- A source or timer was handled and `return_after_source` is set. -/
  | handled (a : Activation)
  | leave (a : Activation) (result : Int)

/-- One thing that happened: the callbacks in progress, the innermost first, and
the world it happened in. -/
structure Ev (T : Type) [CFTime T] where
  frames : List Frame
  what : What T
  world : World T

/-- Code of the thread: a computation over the world that records events. -/
abbrev Act (T α : Type) [CFTime T] := Traced (World T) (Ev T) α

def record (frames : List Frame) (what : What T) : Act T Unit := emit fun w => ⟨frames, what, w⟩

/-! ### The loop -/

section Loop

variable (frames : List Frame) (callee : List Frame → Invocation → Act T Unit) (a : Activation)

/-- Call a callback. It runs with its own frame on the stack. -/
def callback (inv : Invocation) : Act T Unit := do
  modify fun w => {w with callbacks := w.callbacks + 1}
  record frames (.call a inv)
  callee (⟨a, inv⟩ :: frames) inv
  record frames (.ret a inv)

def fireObserver (activity : BitVec 64) (obs : Ref) : Act T Unit := do
  match ← read (·.observers[obs]?) with
  | some o =>
    if o.activities &&& activity ≠ 0 then
      if o.callback.isSome then callback frames callee a (.observer obs activity)
  | none => pure ()

/-- Fire the observers of the mode whose mask overlaps `activity`, from a copy of
the list. -/
def fireObservers (activity : BitVec 64) : Act T Unit := do
  record frames (.fire a activity)
  let toFire ← read (·.observersOf a.mode)
  each (fireObserver frames callee a activity) toFire

/-- The signal is cleared before the source performs. -/
def dispatchSource (returnAfterSource : Bool) (src : Ref) : Act T Bool := do
  match ← read (·.sources[src]?) with
  | some source =>
    if source.signaled then
      modify (·.setSignaled src false)
      if source.perform.isSome then callback frames callee a (.source src)
      pure returnAfterSource
    else pure false
  | none => pure false

/-- The fire date moves when the callback has returned. -/
def dispatchTimer (returnAfterSource : Bool) (now : T) (t : Ref) : Act T Bool := do
  match ← read (·.timers[t]?) with
  | some timer =>
    if CFTime.ge now timer.fireDate then
      if timer.callback.isSome then callback frames callee a (.timer t)
      modify (·.setFireDate t (timer.nextFireDate now))
      pure returnAfterSource
    else pure false
  | none => pure false

/-- Wait, and only then look at the stop. What follows the wait happens only where
the wait ends. -/
def waitPhase (seconds : T) : Act T Int := do
  fireObservers frames callee a K_CF_RUNLOOP_BEFORE_WAITING
  record frames (.wait a (min (CFTime.timeoutMs seconds) 100))
  fireObservers frames callee a K_CF_RUNLOOP_AFTER_WAITING
  let stopped ← read (·.rl.stopped)
  modify (·.setStopped false)
  pure (if stopped then K_CF_RUNLOOP_RUN_STOPPED else K_CF_RUNLOOP_RUN_TIMED_OUT)

/-- The early return: the stop is not looked at. -/
def handledSource : Act T Int := do
  record frames (.handled a)
  pure K_CF_RUNLOOP_RUN_HANDLED_SOURCE

def timerPhase (seconds : T) (returnAfterSource : Bool) : Act T Int := do
  let now ← read (·.currentAbsoluteTime.2)
  modify (·.currentAbsoluteTime.1)
  let timersToCheck ← read (·.timersOf a.mode)
  record frames (.listTimers a now timersToCheck)
  fireObservers frames callee a K_CF_RUNLOOP_BEFORE_TIMERS
  let handled ← untilTrue (dispatchTimer frames callee a returnAfterSource now) timersToCheck
  if handled then handledSource frames a else waitPhase frames callee a seconds

def sourcePhase (seconds : T) (returnAfterSource : Bool) : Act T Int := do
  let sourcesToCheck ← read (·.sourcesOf a.mode)
  record frames (.listSources a sourcesToCheck)
  fireObservers frames callee a K_CF_RUNLOOP_BEFORE_SOURCES
  let handled ← untilTrue (dispatchSource frames callee a returnAfterSource) sourcesToCheck
  if handled then handledSource frames a else timerPhase frames callee a seconds returnAfterSource

/-- The activation proper, entered when no stop is pending. Each of its three
returns fires the EXIT observers and pops the mode. -/
def enterMode (seconds : T) (returnAfterSource : Bool) : Act T Int := do
  modify (·.pushMode a.mode)
  fireObservers frames callee a K_CF_RUNLOOP_ENTRY
  let result ← sourcePhase frames callee a seconds returnAfterSource
  fireObservers frames callee a K_CF_RUNLOOP_EXIT
  modify (·.popMode)
  record frames (.leave a result)
  pure result

end Loop

def cfRunLoopRunInMode (frames : List Frame) (callee : List Frame → Invocation → Act T Unit)
    (mode : CFRunLoopMode) (seconds : T) (returnAfterSource : Bool) : Act T Int := do
  let a : Activation := ⟨← read (·.activations), modeNameFromPtr mode⟩
  record frames (.start a)
  modify fun w => World.ensureMode {w with activations := w.activations + 1} a.mode
  if ← read (·.rl.stopped) then
    modify (·.setStopped false)
    record frames (.refuse a)
    pure K_CF_RUNLOOP_RUN_STOPPED
  else enterMode frames callee a seconds returnAfterSource

/-! ### Programs -/

/-- Code of the thread between two returns to the loop. -/
inductive Prog (T : Type) [CFTime T] where
  | done
  | api (call : Api T) (next : Answer T → Prog T)
  | run (mode : CFRunLoopMode) (seconds : T) (returnAfterSource : Bool)
      (callee : Invocation → World T → Prog T) (next : Int → Prog T)

def exec : Prog T → List Frame → Act T Unit
  | .done, _ => pure ()
  | .api call next, frames => do
    record frames (.api call)
    let answer ← read (fun w => (w.perform call).2)
    modify fun w => (w.perform call).1
    exec (next answer) frames
  | .run mode seconds returnAfterSource callee next, frames => do
    let result ← cfRunLoopRunInMode frames (fun inner inv w => exec (callee inv w) inner w)
      mode seconds returnAfterSource
    exec (next result) frames

/-- A wait with a negative timeout: nothing ends it. -/
def Ev.endless (e : Ev T) : Bool :=
  match e.what with
  | .wait _ timeoutMs => timeoutMs < 0
  | _ => false

/-- What happens of a trace: the thread stays in the first wait without end. -/
def happened (t : List (Ev T)) : List (Ev T) := upTo Ev.endless t

/-- What happens in a thread with its run loop not yet made. -/
def ran (p : Prog T) (clock : Clock T) : List (Ev T) := happened (exec p [] (World.new clock)).trace

/-- `CFRunLoopRun`, as far as a number of turns goes: it turns until an activation
is stopped. -/
def cfRunLoopRun (callee : Invocation → World T → Prog T) (next : Prog T) :
    Nat → Prog T
  | 0 => .done
  | turns + 1 =>
    .run (asPtr kCFRunLoopDefaultMode) CFTime.forever false callee fun result =>
      if result = K_CF_RUNLOOP_RUN_STOPPED ∨ result = K_CF_RUNLOOP_RUN_FINISHED then next
      else cfRunLoopRun callee next turns

end Grafted.Cf.RunLoop

import Grafted.Cf.RunLoop

/-! How a property goes through the loop.

The callbacks are unknown code, so what is proved about a run is what composes:
a relation that every callback carries is carried by each phase of an activation
(`sourcePhase_keeps` and the rules before it), and one that an activation carries
whenever its callbacks do is carried by every program (`exec_keeps`). -/
namespace Grafted.Cf.RunLoop
open Traced

variable {T : Type} [CFTime T]

/-- The activation an event belongs to; a call of the API belongs to the callback
it is made from. -/
def What.activation : What T → Option Activation
  | .api _ => none
  | .start a | .refuse a | .fire a _ | .call a _ | .ret a _ | .listSources a _ | .listTimers a _ _
  | .wait a _ | .handled a | .leave a _ => some a

/-- The marks an activation leaves between entering and leaving, callbacks apart. -/
inductive Mark (a : Activation) : What T → Prop
  | fire (activity) : Mark a (.fire a activity)
  | listSources (sources) : Mark a (.listSources a sources)
  | listTimers (now timers) : Mark a (.listTimers a now timers)
  | wait (timeoutMs) : Mark a (.wait a timeoutMs)
  | handled : Mark a (.handled a)

/-- The marks but the firings. -/
inductive Note (a : Activation) : What T → Prop
  | listSources (sources) : Note a (.listSources a sources)
  | listTimers (now timers) : Note a (.listTimers a now timers)
  | wait (timeoutMs) : Note a (.wait a timeoutMs)
  | handled : Note a (.handled a)

omit [CFTime T] in
theorem Note.mark {a : Activation} {what : What T} (h : Note a what) : Mark a what := by
  cases h with
  | listSources sources => exact .listSources sources
  | listTimers now timers => exact .listTimers now timers
  | wait timeoutMs => exact .wait timeoutMs
  | handled => exact .handled

/-- What an activation leaves where it begins and where it ends. -/
inductive Edge : What T → Prop
  | start (a) : Edge (.start a)
  | refuse (a) : Edge (.refuse a)
  | leave (a result) : Edge (.leave a result)

/-! ### What the code between two runs leaves alone -/

/-- The mode stack and the activations are the same, and no observer or timer is
lost or changed. -/
structure Undisturbed (w w' : World T) : Prop where
  modeStack : w'.rl.modeStack = w.rl.modeStack
  activations : w'.activations = w.activations
  observers : w.observers <+: w'.observers
  timers : w.timers <+: w'.timers

theorem Undisturbed.of_eq {w w' : World T} (hstack : w'.rl.modeStack = w.rl.modeStack)
    (hactivations : w'.activations = w.activations) (hobservers : w'.observers = w.observers)
    (htimers : w'.timers = w.timers) : Undisturbed w w' :=
  ⟨hstack, hactivations, hobservers ▸ List.prefix_rfl, htimers ▸ List.prefix_rfl⟩

theorem unlessNull_induction {P : World T → Prop} {w : World T} {rl : Bool} {object : Option Ref}
    {f : Ref → World T} (hw : P w) (hf : ∀ x, P (f x)) : P (w.unlessNull rl object f) := by
  unfold World.unlessNull
  split
  · exact hf _
  · exact hw

/-- No call of the API but a run touches them. -/
theorem World.perform_undisturbed (w : World T) (call : Api T) : Undisturbed w (w.perform call).1 := by
  cases call with
  | stop rl => cases rl <;> exact .of_eq rfl rfl rfl rfl
  | sourceSignal source => cases source <;> exact .of_eq rfl rfl rfl rfl
  | addCommonMode rl mode => cases rl <;> exact .of_eq rfl rfl rfl rfl
  | observerCreate => exact ⟨rfl, rfl, List.prefix_append _ _, List.prefix_rfl⟩
  | timerCreate => exact ⟨rfl, rfl, List.prefix_rfl, List.prefix_append _ _⟩
  | addSource rl source mode | removeSource rl source mode | addTimer rl source mode
  | removeTimer rl source mode | addObserver rl source mode | removeObserver rl source mode =>
    exact unlessNull_induction (P := Undisturbed w) (.of_eq rfl rfl rfl rfl)
      fun _ => .of_eq rfl rfl rfl rfl
  | wakeUp | copyCurrentMode | sourceCreate | containsSource | absoluteTimeGetCurrent =>
    exact .of_eq rfl rfl rfl rfl

/-- No list of a mode names an object twice; of a mode that is not there they are empty. -/
theorem registry_nodup (mode : Option CFRunLoopModeInner)
    (registry : CFRunLoopModeInner → Registry) :
    ((mode.map fun m => (registry m).refs).getD []).Nodup := by
  cases mode with
  | none => exact List.nodup_nil
  | some m => exact (registry m).nodup

/-! ### Activations -/

/-- The activities between ENTRY and EXIT. -/
def Between (activity : BitVec 64) : Prop :=
  activity ≠ K_CF_RUNLOOP_ENTRY ∧ activity ≠ K_CF_RUNLOOP_EXIT

instance (activity : BitVec 64) : Decidable (Between activity) := inferInstanceAs (Decidable (_ ∧ _))

/-- An observer callback for one activity. -/
def ObserverOf (activity : BitVec 64) (inv : Invocation) : Prop := ∃ o, inv = .observer o activity

/-- The world a callback starts in: one callback more. -/
def World.called (w : World T) : World T := {w with callbacks := w.callbacks + 1}

theorem callback_apply (frames : List Frame) (callee : List Frame → Invocation → Act T Unit)
    (a : Activation) (inv : Invocation) (w : World T) :
    let r := callee (⟨a, inv⟩ :: frames) inv w.called
    callback frames callee a inv w = ⟨(), r.state,
      ⟨frames, .call a inv, w.called⟩ :: (r.trace ++ [⟨frames, .ret a inv, r.state⟩])⟩ := rfl

/-- The world an activation starts in: its number is taken and its mode is there. -/
def World.started (w : World T) (mode : CFRunLoopMode) : World T :=
  World.ensureMode {w with activations := w.activations + 1} (modeNameFromPtr mode)

theorem enterMode_apply (frames : List Frame) (callee : List Frame → Invocation → Act T Unit)
    (a : Activation) (seconds : T) (returnAfterSource : Bool) (w : World T) :
    let entry := fireObservers frames callee a K_CF_RUNLOOP_ENTRY (w.pushMode a.mode)
    let middle := sourcePhase frames callee a seconds returnAfterSource entry.state
    let exit := fireObservers frames callee a K_CF_RUNLOOP_EXIT middle.state
    enterMode frames callee a seconds returnAfterSource w =
      ⟨middle.value, exit.state.popMode, entry.trace ++ (middle.trace ++
        (exit.trace ++ [⟨frames, .leave a middle.value, exit.state.popMode⟩]))⟩ := rfl

theorem cfRunLoopRunInMode_apply (frames : List Frame)
    (callee : List Frame → Invocation → Act T Unit) (mode : CFRunLoopMode) (seconds : T)
    (returnAfterSource : Bool) (w : World T) :
    let a : Activation := ⟨w.activations, modeNameFromPtr mode⟩
    let r := (if w.rl.stopped then do
        modify (·.setStopped false)
        record frames (.refuse a)
        pure K_CF_RUNLOOP_RUN_STOPPED
      else enterMode frames callee a seconds returnAfterSource : Act T Int) (w.started mode)
    cfRunLoopRunInMode frames callee mode seconds returnAfterSource w =
      ⟨r.value, r.state, ⟨frames, .start a, w⟩ :: r.trace⟩ := rfl

theorem cfRunLoopRunInMode_refused (frames : List Frame)
    (callee : List Frame → Invocation → Act T Unit) (mode : CFRunLoopMode) (seconds : T)
    (returnAfterSource : Bool) {w : World T} (h : w.rl.stopped = true) :
    let a : Activation := ⟨w.activations, modeNameFromPtr mode⟩
    cfRunLoopRunInMode frames callee mode seconds returnAfterSource w =
      ⟨K_CF_RUNLOOP_RUN_STOPPED, (w.started mode).setStopped false,
        [⟨frames, .start a, w⟩, ⟨frames, .refuse a, (w.started mode).setStopped false⟩]⟩ := by
  intro a
  rw [cfRunLoopRunInMode_apply, if_pos h]
  rfl

theorem cfRunLoopRunInMode_entered (frames : List Frame)
    (callee : List Frame → Invocation → Act T Unit) (mode : CFRunLoopMode) (seconds : T)
    (returnAfterSource : Bool) {w : World T} (h : w.rl.stopped = false) :
    let a : Activation := ⟨w.activations, modeNameFromPtr mode⟩
    let r := enterMode frames callee a seconds returnAfterSource (w.started mode)
    cfRunLoopRunInMode frames callee mode seconds returnAfterSource w =
      ⟨r.value, r.state, ⟨frames, .start a, w⟩ :: r.trace⟩ := by
  intro a r
  rw [cfRunLoopRunInMode_apply, if_neg (Bool.eq_false_iff.mp h)]

section Phases
variable {B : World T → List (Ev T) → World T → Prop} {frames : List Frame}
  {callee : List Frame → Invocation → Act T Unit} {a : Activation}

theorem fireObserver_keeps (hB : Composes B) {activity : BitVec 64} {obs : Ref}
    (hcall : Keeps B (callback frames callee a (.observer obs activity))) :
    Keeps B (fireObserver frames callee a activity obs) := by
  refine Keeps.bind hB (Keeps.read hB _) fun found => ?_
  cases found with
  | none => exact Keeps.pure hB ()
  | some o =>
    dsimp only
    split_ifs
    · exact hcall
    · exact Keeps.pure hB ()
    · exact Keeps.pure hB ()

theorem fireObservers_keeps (hB : Composes B) {activity : BitVec 64}
    (hfire : Keeps B (record frames (.fire a activity)))
    (hcall : ∀ o, Keeps B (callback frames callee a (.observer o activity))) :
    Keeps B (fireObservers frames callee a activity) :=
  Keeps.bind hB hfire fun _ => Keeps.bind hB (Keeps.read hB _) fun toFire =>
    Keeps.each hB (fun obs => fireObserver_keeps hB (hcall obs)) toFire

theorem dispatchSource_keeps (hB : Composes B) {returnAfterSource : Bool} {src : Ref}
    (hclear : Keeps B (modify (·.setSignaled src false)))
    (hcall : Keeps B (callback frames callee a (.source src))) :
    Keeps B (dispatchSource frames callee a returnAfterSource src) := by
  refine Keeps.bind hB (Keeps.read hB _) fun found => ?_
  cases found with
  | none => exact Keeps.pure hB false
  | some source =>
    dsimp only
    split_ifs
    · exact Keeps.bind hB hclear fun _ => Keeps.bind hB hcall fun _ => Keeps.pure hB _
    · exact Keeps.bind hB hclear fun _ => Keeps.pure hB _
    · exact Keeps.pure hB false

theorem dispatchTimer_keeps (hB : Composes B) {returnAfterSource : Bool} {now : T} {t : Ref}
    (hdate : ∀ date, Keeps B (modify (·.setFireDate t date)))
    (hcall : Keeps B (callback frames callee a (.timer t))) :
    Keeps B (dispatchTimer frames callee a returnAfterSource now t) := by
  refine Keeps.bind hB (Keeps.read hB _) fun found => ?_
  cases found with
  | none => exact Keeps.pure hB false
  | some timer =>
    dsimp only
    split_ifs
    · exact Keeps.bind hB hcall fun _ => Keeps.bind hB (hdate _) fun _ => Keeps.pure hB _
    · exact Keeps.bind hB (hdate _) fun _ => Keeps.pure hB _
    · exact Keeps.pure hB false

theorem waitPhase_keeps (hB : Composes B) {seconds : T}
    (hnote : ∀ what, Note a what → Keeps B (record frames what))
    (hfire : ∀ activity, Between activity → Keeps B (fireObservers frames callee a activity))
    (hclear : Keeps B (modify (·.setStopped false))) :
    Keeps B (waitPhase frames callee a seconds) :=
  Keeps.bind hB (hfire _ (by decide)) fun _ => Keeps.bind hB (hnote _ (.wait _)) fun _ =>
    Keeps.bind hB (hfire _ (by decide)) fun _ => Keeps.bind hB (Keeps.read hB _) fun _ =>
      Keeps.bind hB hclear fun _ => Keeps.pure hB _

theorem handledSource_keeps (hB : Composes B)
    (hnote : ∀ what, Note a what → Keeps B (record frames what)) :
    Keeps B (handledSource (T := T) frames a) :=
  Keeps.bind hB (hnote _ .handled) fun _ => Keeps.pure hB _

theorem timerPhase_keeps (hB : Composes B) {seconds : T} {returnAfterSource : Bool}
    (hnote : ∀ what, Note a what → Keeps B (record frames what))
    (hfire : ∀ activity, Between activity → Keeps B (fireObservers frames callee a activity))
    (hclock : Keeps B (modify (·.currentAbsoluteTime.1)))
    (htimer : ∀ now t, Keeps B (dispatchTimer frames callee a returnAfterSource now t))
    (hwait : Keeps B (waitPhase frames callee a seconds)) :
    Keeps B (timerPhase frames callee a seconds returnAfterSource) := by
  refine Keeps.bind hB (Keeps.read hB _) fun now => Keeps.bind hB hclock fun _ =>
    Keeps.bind hB (Keeps.read hB _) fun timers => Keeps.bind hB (hnote _ (.listTimers _ _)) fun _ =>
    Keeps.bind hB (hfire _ (by decide)) fun _ =>
    Keeps.bind hB (Keeps.untilTrue hB fun t _ => htimer now t) fun handled => ?_
  cases handled with
  | true => exact handledSource_keeps hB hnote
  | false => exact hwait

theorem sourcePhase_keeps (hB : Composes B) {seconds : T} {returnAfterSource : Bool}
    (hnote : ∀ what, Note a what → Keeps B (record frames what))
    (hfire : ∀ activity, Between activity → Keeps B (fireObservers frames callee a activity))
    (hsource : ∀ src, Keeps B (dispatchSource frames callee a returnAfterSource src))
    (htimer : Keeps B (timerPhase frames callee a seconds returnAfterSource)) :
    Keeps B (sourcePhase frames callee a seconds returnAfterSource) := by
  refine Keeps.bind hB (Keeps.read hB _) fun sources =>
    Keeps.bind hB (hnote _ (.listSources _)) fun _ => Keeps.bind hB (hfire _ (by decide)) fun _ =>
    Keeps.bind hB (Keeps.untilTrue hB fun src _ => hsource src) fun handled => ?_
  cases handled with
  | true => exact handledSource_keeps hB hnote
  | false => exact htimer

end Phases

/-- What an activation does to the world between entering and leaving. -/
inductive PhaseMove : (World T → World T) → Prop
  | clearStopped : PhaseMove (·.setStopped false)
  | clearSignal (src : Ref) : PhaseMove (·.setSignaled src false)
  | setFireDate (t : Ref) (date : T) : PhaseMove (·.setFireDate t date)
  | readClock : PhaseMove (·.currentAbsoluteTime.1)
  | called : PhaseMove World.called

/-- The rule of phases, for what holds of a firing as a whole. -/
theorem sourcePhase_keeps_firings {B : World T → List (Ev T) → World T → Prop} {frames : List Frame}
    {callee : List Frame → Invocation → Act T Unit} {a : Activation} (hB : Composes B)
    (hnote : ∀ what : What T, Note a what → Keeps B (record frames what))
    (hmove : ∀ f : World T → World T, PhaseMove f → Keeps B (modify f))
    (hfire : ∀ activity, Keeps B (fireObservers frames callee a activity))
    (hcall : ∀ inv, (∀ o activity, inv ≠ .observer o activity) → Keeps B (callback frames callee a inv))
    (seconds : T) (returnAfterSource : Bool) :
    Keeps B (sourcePhase frames callee a seconds returnAfterSource) := by
  refine sourcePhase_keeps hB hnote (fun activity _ => hfire activity) (fun src => ?_)
    (timerPhase_keeps hB hnote (fun activity _ => hfire activity) (hmove _ .readClock)
      (fun now t => ?_)
      (waitPhase_keeps hB hnote (fun activity _ => hfire activity) (hmove _ .clearStopped)))
  · exact dispatchSource_keeps hB (hmove _ (.clearSignal src)) (hcall _ fun _ _ h => nomatch h)
  · exact dispatchTimer_keeps hB (fun date => hmove _ (.setFireDate t date))
      (hcall _ fun _ _ h => nomatch h)

/-- The rule of phases, for what needs nothing of where in the activation it is. -/
theorem phases_keep {B : World T → List (Ev T) → World T → Prop} {frames : List Frame}
    {callee : List Frame → Invocation → Act T Unit} {a : Activation} (hB : Composes B)
    (hrecord : ∀ what : What T, what.activation = some a → Keeps B (record frames what))
    (hmove : ∀ f : World T → World T, PhaseMove f → Keeps B (modify f))
    (hcallee : ∀ inv, Keeps B (callee (⟨a, inv⟩ :: frames) inv)) (seconds : T)
    (returnAfterSource : Bool) :
    (∀ activity, Keeps B (fireObservers frames callee a activity)) ∧
      Keeps B (sourcePhase frames callee a seconds returnAfterSource) := by
  have hcall : ∀ inv, Keeps B (callback frames callee a inv) := fun inv =>
    Keeps.bind hB (hmove _ .called) fun _ => Keeps.bind hB (hrecord (.call a inv) rfl) fun _ =>
      Keeps.bind hB (hcallee inv) fun _ => hrecord (.ret a inv) rfl
  have hfire : ∀ activity, Keeps B (fireObservers frames callee a activity) := fun activity =>
    fireObservers_keeps hB (hrecord (.fire a activity) rfl) fun o => hcall (.observer o activity)
  have hnote : ∀ what : What T, Note a what → Keeps B (record frames what) := fun what h =>
    hrecord what (by cases h <;> rfl)
  exact ⟨hfire, sourcePhase_keeps_firings hB hnote hmove hfire (fun inv _ => hcall inv) seconds
    returnAfterSource⟩

/-- What the loop itself does to the world. -/
inductive LoopMove : (World T → World T) → Prop
  | start (mode : String) :
    LoopMove fun w => World.ensureMode {w with activations := w.activations + 1} mode
  | pushMode (mode : String) : LoopMove (·.pushMode mode)
  | phase (f : World T → World T) (h : PhaseMove f) : LoopMove f
  | popMode : LoopMove (·.popMode)

/-- The rule of runs, from that of an activation's firings and phases. -/
theorem cfRunLoopRunInMode_keeps_phases {B : World T → List (Ev T) → World T → Prop}
    {frames : List Frame} {callee : List Frame → Invocation → Act T Unit} (hB : Composes B)
    (hedge : ∀ what : What T, Edge what → Keeps B (record frames what))
    (hmove : ∀ f : World T → World T, LoopMove f → Keeps B (modify f)) {seconds : T}
    {returnAfterSource : Bool}
    (hphases : ∀ a, (∀ activity, Keeps B (fireObservers frames callee a activity)) ∧
      Keeps B (sourcePhase frames callee a seconds returnAfterSource)) (mode : CFRunLoopMode) :
    Keeps B (cfRunLoopRunInMode frames callee mode seconds returnAfterSource) := by
  refine Keeps.bind hB (Keeps.read hB _) fun n => Keeps.bind hB (hedge _ (.start _)) fun _ =>
    Keeps.bind hB (hmove _ (.start _)) fun _ => Keeps.bind hB (Keeps.read hB _) fun stopped => ?_
  split_ifs
  · exact Keeps.bind hB (hmove _ (.phase _ .clearStopped)) fun _ =>
      Keeps.bind hB (hedge _ (.refuse _)) fun _ => Keeps.pure hB _
  · obtain ⟨hfire, hphase⟩ := hphases ⟨n, modeNameFromPtr mode⟩
    exact Keeps.bind hB (hmove _ (.pushMode _)) fun _ => Keeps.bind hB (hfire _) fun _ =>
      Keeps.bind hB hphase fun _ => Keeps.bind hB (hfire _) fun _ =>
        Keeps.bind hB (hmove _ .popMode) fun _ =>
          Keeps.bind hB (hedge _ (.leave _ _)) fun _ => Keeps.pure hB _

/-- The rule of runs, for what needs nothing of where in the run it is. -/
theorem cfRunLoopRunInMode_keeps {B : World T → List (Ev T) → World T → Prop} {frames : List Frame}
    {callee : List Frame → Invocation → Act T Unit} (hB : Composes B)
    (hrecord : ∀ what : What T, (∀ call, what ≠ .api call) → Keeps B (record frames what))
    (hmove : ∀ f : World T → World T, LoopMove f → Keeps B (modify f))
    (hcallee : ∀ a inv, Keeps B (callee (⟨a, inv⟩ :: frames) inv)) (mode : CFRunLoopMode) (seconds : T)
    (returnAfterSource : Bool) :
    Keeps B (cfRunLoopRunInMode frames callee mode seconds returnAfterSource) := by
  have howned : ∀ a (what : What T), what.activation = some a → Keeps B (record frames what) := by
    intro a what h
    refine hrecord what fun call hcall => ?_
    rw [hcall] at h
    exact nomatch h
  have hedge : ∀ what : What T, Edge what → Keeps B (record frames what) := by
    intro what h
    cases h with
    | start a => exact howned a _ rfl
    | refuse a => exact howned a _ rfl
    | leave a result => exact howned a _ rfl
  exact cfRunLoopRunInMode_keeps_phases hB hedge hmove (fun a => phases_keep hB (howned a)
    (fun f h => hmove f (.phase f h)) (hcallee a) seconds returnAfterSource) mode

/-- The rule of programs. `R` may speak of the callbacks in progress. -/
theorem exec_keeps {R : List Frame → World T → List (Ev T) → World T → Prop}
    (hR : ∀ frames, Composes (R frames))
    (hapi : ∀ frames call (w : World T), R frames w [⟨frames, .api call, w⟩] (w.perform call).1)
    (hrun : ∀ frames callee mode seconds returnAfterSource,
      (∀ a inv, Keeps (R (⟨a, inv⟩ :: frames)) (callee (⟨a, inv⟩ :: frames) inv)) →
      Keeps (R frames) (cfRunLoopRunInMode frames callee mode seconds returnAfterSource))
    (p : Prog T) (frames : List Frame) : Keeps (R frames) (exec p frames) := by
  induction p generalizing frames with
  | done => exact Keeps.pure (hR frames) ()
  | api call next ih => exact fun w => (hR frames).trans (hapi frames call w) (ih _ frames _)
  | run mode seconds returnAfterSource callee next ihCallee ihNext =>
    exact Keeps.bind (hR frames)
      (hrun frames _ mode seconds returnAfterSource fun a inv w => ihCallee inv w _ w)
      fun result => ihNext result frames

end Grafted.Cf.RunLoop

import Grafted.Cf.RunLoopRules

/-! Which activation a stop stops.

One flag serves all activations, and an activation looks at it before it starts
and once more after it has waited. A stop is answered by the activation it was
issued in, and by no other, where no callback starts an activation over a pending
stop, no EXIT observer stops, and no source or timer is handled with a stop
pending: so goes every piece of a run (`Stops`), were every wait to end. A call that
runs the loop is such a piece when its callbacks are (`cfRunLoopRunInMode_stops`). -/
namespace Grafted.Cf.RunLoop
open Traced

variable {T : Type} [CFTime T]

/-- The innermost activation at the event. -/
def issuer (frames : List Frame) : Option Activation := frames.head?.map (·.activation)

/-- A stop was issued there: in a callback of an activation, or outside all. -/
def StopFrom (i : Option Activation) (t : List (Ev T)) : Prop :=
  ∃ e ∈ t, e.what = .api (.stop true) ∧ issuer e.frames = i

/-- A callback that issues a stop is not an EXIT observer. -/
def mayStop : List Frame → Bool
  | ⟨_, .observer _ activity⟩ :: _ => activity != K_CF_RUNLOOP_EXIT
  | _ => true

/-- A callback starts no activation while a stop is pending, an EXIT observer
issues none, and none is pending when a source or a timer was handled. -/
def stopsInTime (e : Ev T) : Bool :=
  match e.what with
  | .start _ => e.frames.isEmpty || !e.world.rl.stopped
  | .api (.stop true) => mayStop e.frames
  | .handled _ => !e.world.rl.stopped
  | _ => true

theorem StopFrom.append {i : Option Activation} {t t' : List (Ev T)} :
    StopFrom i (t ++ t') ↔ StopFrom i t ∨ StopFrom i t' := by
  simp only [StopFrom, List.mem_append, or_and_right, exists_or]

theorem StopFrom.of_cons {i : Option Activation} {e : Ev T} {t : List (Ev T)}
    (he : e.what ≠ .api (.stop true)) : StopFrom i (e :: t) ↔ StopFrom i t := by
  simp only [StopFrom, List.mem_cons, or_and_right, exists_or, exists_eq_left, he, false_and,
    false_or]

/-! ### One step -/

/-- What a piece of a run does with the stops of the activations in it. `i` is
the activation it runs in, and `Q` describes the callbacks it calls the API from
itself. -/
structure Answered (i : Option Activation) (Q : List Frame → Prop) (w : World T) (t : List (Ev T))
    (w' : World T) : Prop where
  answered : ∀ b, StopFrom (some b) t → some b = i ∨
    ∃ e ∈ t, e.what = .leave b K_CF_RUNLOOP_RUN_STOPPED
  left : ∀ e ∈ t, ∀ b, e.what = .leave b K_CF_RUNLOOP_RUN_STOPPED → StopFrom (some b) t
  consumed : ∀ e ∈ t, ∀ b result, e.what = .leave b result → e.world.rl.stopped = false
  refused : ∀ e ∈ t, ∀ b, e.what = .refuse b → i = none ∧ e.frames = []
  issued : ∀ e ∈ t, ∀ call, e.what = .api call →
    Q e.frames ∨ ∃ b, issuer e.frames = some b ∧ w.activations ≤ b.id
  activations : w.activations ≤ w'.activations

/-- And what it does with the flag. -/
structure StopStep (i : Option Activation) (Q : List Frame → Prop) (w : World T) (t : List (Ev T))
    (w' : World T) : Prop extends Answered i Q w t w' where
  flag : w'.rl.stopped = true → w.rl.stopped = true ∨ StopFrom i t
  pending : i ≠ none → w.rl.stopped = true ∨ StopFrom i t → w'.rl.stopped = true
  refusedFor : ∀ e ∈ t, ∀ b, e.what = .refuse b → w.rl.stopped = true ∨ StopFrom i t

theorem Answered.append {i : Option Activation} {Q : List Frame → Prop} {w u v : World T}
    {t t' : List (Ev T)} (h : Answered i Q w t u) (h' : Answered i Q u t' v) :
    Answered i Q w (t ++ t') v := by
  refine ⟨fun b hb => ?_, fun e he b hleave => ?_, fun e he => ?_, fun e he => ?_,
    fun e he call hcall => ?_, Nat.le_trans h.activations h'.activations⟩
  · rcases StopFrom.append.mp hb with hb | hb
    · exact (h.answered b hb).imp_right fun ⟨e, he, hleave⟩ =>
        ⟨e, List.mem_append_left _ he, hleave⟩
    · exact (h'.answered b hb).imp_right fun ⟨e, he, hleave⟩ =>
        ⟨e, List.mem_append_right _ he, hleave⟩
  · rcases List.mem_append.mp he with he | he
    · exact StopFrom.append.mpr (.inl (h.left e he b hleave))
    · exact StopFrom.append.mpr (.inr (h'.left e he b hleave))
  · exact (List.mem_append.mp he).elim (h.consumed e) (h'.consumed e)
  · exact (List.mem_append.mp he).elim (h.refused e) (h'.refused e)
  · rcases List.mem_append.mp he with he | he
    · exact h.issued e he call hcall
    · exact (h'.issued e he call hcall).imp_right fun ⟨b, hb, hid⟩ =>
        ⟨b, hb, Nat.le_trans h.activations hid⟩

theorem StopStep.append {i : Option Activation} {Q : List Frame → Prop} {w u v : World T}
    {t t' : List (Ev T)} (h : StopStep i Q w t u) (h' : StopStep i Q u t' v) :
    StopStep i Q w (t ++ t') v := by
  have hback : u.rl.stopped = true ∨ StopFrom i t' → w.rl.stopped = true ∨ StopFrom i (t ++ t') := by
    rintro (hu | ht')
    · exact (h.flag hu).imp_right fun ht => StopFrom.append.mpr (.inl ht)
    · exact .inr (StopFrom.append.mpr (.inr ht'))
  refine ⟨h.toAnswered.append h'.toAnswered, fun hv => hback (h'.flag hv), fun hi hw => ?_,
    fun e he b hrefuse => ?_⟩
  · refine h'.pending hi ?_
    rcases hw with hw | ht
    · exact .inl (h.pending hi (.inl hw))
    rcases StopFrom.append.mp ht with ht | ht'
    · exact .inl (h.pending hi (.inr ht))
    · exact .inr ht'
  · rcases List.mem_append.mp he with he | he
    · exact (h.refusedFor e he b hrefuse).imp_right fun ht => StopFrom.append.mpr (.inl ht)
    · exact hback (h'.refusedFor e he b hrefuse)

theorem StopStep.weaken {i : Option Activation} {Q Q' : List Frame → Prop} {w w' : World T}
    {t : List (Ev T)} (h : StopStep i Q w t w') (hQ : ∀ fs, Q fs → Q' fs) : StopStep i Q' w t w' :=
  { h with issued := fun e he call hcall => (h.issued e he call hcall).imp_left (hQ e.frames) }

/-- Events that neither stop, leave nor refuse. -/
def Neutral (what : What T) : Prop :=
  (∀ call, what ≠ .api call) ∧ (∀ b result, what ≠ .leave b result) ∧ ∀ b, what ≠ .refuse b

theorem StopStep.quiet {i : Option Activation} {Q : List Frame → Prop} {w w' : World T}
    {t : List (Ev T)} (hstopped : w'.rl.stopped = w.rl.stopped)
    (hactivations : w.activations ≤ w'.activations) (ht : ∀ e ∈ t, Neutral e.what) :
    StopStep i Q w t w' := by
  have hno : ∀ j, ¬ StopFrom j t := fun j ⟨e, he, hstop, _⟩ => (ht e he).1 _ hstop
  exact {
    answered := fun b hb => absurd hb (hno _)
    left := fun e he b hleave => absurd hleave ((ht e he).2.1 b _)
    consumed := fun e he b result hleave => absurd hleave ((ht e he).2.1 b result)
    refused := fun e he b hrefuse => absurd hrefuse ((ht e he).2.2 b)
    issued := fun e he call hcall => absurd hcall ((ht e he).1 call)
    activations := hactivations
    flag := fun h => .inl (hstopped ▸ h)
    pending := fun _ h => hstopped ▸ h.resolve_right (hno i)
    refusedFor := fun e he b hrefuse => absurd hrefuse ((ht e he).2.2 b) }

/-! ### The step along the loop -/

/-- The activation is one already started. -/
def Known (i : Option Activation) (w : World T) : Prop := ∀ b, i = some b → b.id < w.activations

/-- A piece of a run whose stops are in time is a step. -/
def Stops (i : Option Activation) (Q : List Frame → Prop) (w : World T) (t : List (Ev T))
    (w' : World T) : Prop :=
  Known i w → (∀ e ∈ t, stopsInTime e = true) → StopStep i Q w t w'

theorem Known.mono {i : Option Activation} {w w' : World T} (h : Known i w)
    (hle : w.activations ≤ w'.activations) : Known i w' :=
  fun b hb => Nat.lt_of_lt_of_le (h b hb) hle

theorem Stops.composes (i : Option Activation) (Q : List Frame → Prop) :
    Composes (Stops (T := T) i Q) where
  refl w _ _ := .quiet rfl (Nat.le_refl _) fun _ h => (nomatch h)
  trans h h' hw ht := by
    have hstep := h hw fun e he => ht e (List.mem_append_left _ he)
    exact hstep.append (h' (hw.mono hstep.activations) fun e he => ht e (List.mem_append_right _ he))

theorem Stops.record {i : Option Activation} {Q : List Frame → Prop} (frames : List Frame)
    {what : What T} (hwhat : Neutral what) : Keeps (Stops i Q) (RunLoop.record frames what) :=
  fun _ _ _ => .quiet rfl (Nat.le_refl _) fun e he => by
    cases List.mem_singleton.mp he
    exact hwhat

theorem Stops.move {i : Option Activation} {Q : List Frame → Prop} {f : World T → World T}
    (hf : ∀ w, (f w).rl.stopped = w.rl.stopped ∧ w.activations = (f w).activations) :
    Keeps (Stops i Q) (modify f) :=
  fun w _ _ => .quiet (hf w).1 (Nat.le_of_eq (hf w).2) fun _ h => (nomatch h)

omit [CFTime T] in
theorem Mark.neutral {a : Activation} {what : What T} (h : Mark a what) : Neutral what := by
  cases h <;> exact ⟨fun _ h => (nomatch h), fun _ _ h => (nomatch h), fun _ h => (nomatch h)⟩

/-- The frames of the activation's own callbacks of some kind. -/
def OwnFrames (a : Activation) (frames : List Frame) (P : Invocation → Prop) (fs : List Frame) :
    Prop :=
  ∃ inv, P inv ∧ fs = ⟨a, inv⟩ :: frames

/-- What an activation has done when it has its result: the flag is down, and the
result says whether it was up. -/
structure Tested (a : Activation) (Q : List Frame → Prop) (w : World T)
    (out : Outcome (World T) (Ev T) Int) : Prop extends
    Answered (some a) Q w out.trace out.state where
  clear : out.state.rl.stopped = false
  result : out.value = K_CF_RUNLOOP_RUN_STOPPED ↔ w.rl.stopped = true ∨ StopFrom (some a) out.trace

def Tests (a : Activation) (Q : List Frame → Prop) (m : Act T Int) : Prop :=
  ∀ w, Known (some a) w → (∀ e ∈ (m w).trace, stopsInTime e = true) → Tested a Q w (m w)

theorem Tests.bind {a : Activation} {Q : List Frame → Prop} {α : Type} {m : Act T α}
    {f : α → Act T Int} (hm : Keeps (Stops (some a) Q) m) (hf : ∀ v, Tests a Q (f v)) :
    Tests a Q (m >>= f) := by
  intro w hw ht
  have hstep := hm w hw fun e he => ht e (List.mem_append_left _ he)
  have hrest := hf (m w).value (m w).state (hw.mono hstep.activations) fun e he =>
    ht e (List.mem_append_right _ he)
  refine ⟨hstep.toAnswered.append hrest.toAnswered, hrest.clear, hrest.result.trans ?_⟩
  rw [bind_apply, StopFrom.append, ← or_assoc]
  refine or_congr_left ⟨hstep.flag, hstep.pending (Option.some_ne_none a)⟩

section Phases
variable {frames : List Frame} {callee : List Frame → Invocation → Act T Unit} {a : Activation}
  (hcallee : ∀ inv, Keeps (Stops (some a) (· = ⟨a, inv⟩ :: frames))
    (callee (⟨a, inv⟩ :: frames) inv))
include hcallee

theorem callback_stops {P : Invocation → Prop} {inv : Invocation} (hinv : P inv) :
    Keeps (Stops (some a) (OwnFrames a frames P)) (callback frames callee a inv) := by
  have hbody : Keeps (Stops (some a) (OwnFrames a frames P)) (callee (⟨a, inv⟩ :: frames) inv) := by
    intro w hw ht
    exact (hcallee inv w hw ht).weaken fun _ hfs => ⟨inv, hinv, hfs⟩
  have hB := Stops.composes (T := T) (some a) (OwnFrames a frames P)
  have hcall : Neutral (T := T) (.call a inv) :=
    ⟨fun _ h => (nomatch h), fun _ _ h => (nomatch h), fun _ h => (nomatch h)⟩
  have hret : Neutral (T := T) (.ret a inv) :=
    ⟨fun _ h => (nomatch h), fun _ _ h => (nomatch h), fun _ h => (nomatch h)⟩
  exact Keeps.bind hB (Stops.move fun _ => ⟨rfl, rfl⟩) fun _ =>
    Keeps.bind hB (Stops.record frames hcall) fun _ => Keeps.bind hB hbody fun _ =>
      Stops.record frames hret

theorem fireObservers_stops (activity : BitVec 64) {P : Invocation → Prop}
    (hP : ∀ inv, ObserverOf activity inv → P inv) :
    Keeps (Stops (some a) (OwnFrames a frames P)) (fireObservers frames callee a activity) :=
  fireObservers_keeps (Stops.composes _ _) (Stops.record frames (Mark.neutral (.fire activity)))
    fun o => callback_stops hcallee (hP _ ⟨o, rfl⟩)

omit hcallee in
/-- The test after the wait. -/
theorem test_tests {Q : List Frame → Prop} : Tests (T := T) a Q (do
    let stopped ← read (·.rl.stopped)
    modify (·.setStopped false)
    pure (if stopped then K_CF_RUNLOOP_RUN_STOPPED else K_CF_RUNLOOP_RUN_TIMED_OUT)) := by
  intro w _ _
  have hquiet : StopStep (some a) Q w [] w := .quiet rfl (Nat.le_refl _) fun _ h => (nomatch h)
  refine ⟨{ hquiet.toAnswered with activations := Nat.le_refl _ }, rfl, ?_⟩
  have hno : ¬ StopFrom (some a) ([] : List (Ev T)) := fun ⟨_, he, _⟩ => nomatch he
  show (if w.rl.stopped then K_CF_RUNLOOP_RUN_STOPPED else K_CF_RUNLOOP_RUN_TIMED_OUT) = _ ↔
    _ ∨ StopFrom (some a) []
  rw [or_iff_left hno]
  cases w.rl.stopped <;> decide

omit hcallee in
/-- A source or a timer was handled: no stop is pending, so none is missed. -/
theorem handledSource_tests {Q : List Frame → Prop} : Tests (T := T) a Q (handledSource frames a) := by
  intro w _ ht
  have hdown : w.rl.stopped = false := by
    have h := ht _ (List.mem_singleton_self (⟨frames, .handled a, w⟩ : Ev T))
    simpa [stopsInTime] using h
  have hquiet : StopStep (some a) Q w [(⟨frames, .handled a, w⟩ : Ev T)] w :=
    .quiet rfl (Nat.le_refl _) fun e he => by
      cases List.mem_singleton.mp he
      exact Mark.neutral .handled
  have hvalue : K_CF_RUNLOOP_RUN_HANDLED_SOURCE ≠ K_CF_RUNLOOP_RUN_STOPPED := by decide
  refine ⟨hquiet.toAnswered, hdown, ⟨fun h => absurd h hvalue, fun h => ?_⟩⟩
  have hup := hquiet.pending (Option.some_ne_none a) h
  rw [hdown] at hup
  exact nomatch hup

theorem waitPhase_tests (seconds : T) :
    Tests a (OwnFrames a frames fun _ => True) (waitPhase frames callee a seconds) :=
  Tests.bind (fireObservers_stops hcallee _ fun _ _ => trivial) fun _ =>
    Tests.bind (Stops.record frames (Mark.neutral (.wait _))) fun _ =>
      Tests.bind (fireObservers_stops hcallee _ fun _ _ => trivial) fun _ => test_tests

theorem timerPhase_tests (seconds : T) (returnAfterSource : Bool) :
    Tests a (OwnFrames a frames fun _ => True)
      (timerPhase frames callee a seconds returnAfterSource) := by
  have hB := Stops.composes (T := T) (some a) (OwnFrames a frames fun _ => True)
  refine Tests.bind (Keeps.read hB _) fun now =>
    Tests.bind (Stops.move fun _ => ⟨rfl, rfl⟩) fun _ => Tests.bind (Keeps.read hB _) fun timers =>
    Tests.bind (Stops.record frames (Mark.neutral (.listTimers _ _))) fun _ =>
    Tests.bind (fireObservers_stops hcallee _ fun _ _ => trivial) fun _ =>
    Tests.bind (Keeps.untilTrue hB fun t _ => dispatchTimer_keeps hB
      (fun _ => Stops.move fun _ => ⟨rfl, rfl⟩) (callback_stops hcallee trivial)) fun handled => ?_
  cases handled with
  | true => exact handledSource_tests
  | false => exact waitPhase_tests hcallee seconds

theorem sourcePhase_tests (seconds : T) (returnAfterSource : Bool) :
    Tests a (OwnFrames a frames fun _ => True)
      (sourcePhase frames callee a seconds returnAfterSource) := by
  have hB := Stops.composes (T := T) (some a) (OwnFrames a frames fun _ => True)
  refine Tests.bind (Keeps.read hB _) fun sources =>
    Tests.bind (Stops.record frames (Mark.neutral (.listSources _))) fun _ =>
    Tests.bind (fireObservers_stops hcallee _ fun _ _ => trivial) fun _ =>
    Tests.bind (Keeps.untilTrue hB fun src _ => dispatchSource_keeps hB
      (Stops.move fun _ => ⟨rfl, rfl⟩) (callback_stops hcallee trivial)) fun handled => ?_
  cases handled with
  | true => exact handledSource_tests
  | false => exact timerPhase_tests hcallee seconds returnAfterSource

omit hcallee in
/-- The EXIT observers stop nothing. -/
theorem exitObservers_quiet {w : World T} {t : List (Ev T)} {w' : World T}
    (hstep : StopStep (some a) (OwnFrames a frames (ObserverOf K_CF_RUNLOOP_EXIT)) w t w')
    (hw : Known (some a) w) (ht : ∀ e ∈ t, stopsInTime e = true) : ¬ StopFrom (some a) t := by
  rintro ⟨e, he, hstop, hissuer⟩
  rcases hstep.issued e he _ hstop with ⟨inv, ⟨o, rfl⟩, hframes⟩ | ⟨b, hb, hid⟩
  · have htime := ht e he
    simp [stopsInTime, hstop, hframes, mayStop] at htime
  · cases hissuer.symm.trans hb
    exact absurd (hw a rfl) (Nat.not_lt.mpr hid)

/-- An activation that was entered returns STOPPED exactly when a stop was issued
in it, and leaves the flag down. -/
theorem enterMode_stops (seconds : T) (returnAfterSource : Bool) {w : World T}
    (hw : Known (some a) w) (hdown : w.rl.stopped = false)
    (ht : ∀ e ∈ (enterMode frames callee a seconds returnAfterSource w).trace, stopsInTime e = true) :
    let r := enterMode frames callee a seconds returnAfterSource w
    ∃ inner, r.trace = inner ++ [⟨frames, .leave a r.value, r.state⟩] ∧
      Answered (some a) (OwnFrames a frames fun _ => True) w inner r.state ∧
      r.state.rl.stopped = false ∧
      (r.value = K_CF_RUNLOOP_RUN_STOPPED ↔ StopFrom (some a) inner) := by
  rw [enterMode_apply] at ht ⊢
  have hentry := fireObservers_stops hcallee K_CF_RUNLOOP_ENTRY (P := fun _ => True)
    (fun _ _ => trivial) (w.pushMode a.mode) hw fun e he => ht e (by simp [he])
  generalize fireObservers frames callee a K_CF_RUNLOOP_ENTRY (w.pushMode a.mode) = entry
    at hentry ht ⊢
  have hw₁ : Known (some a) entry.state := hw.mono hentry.activations
  have hmiddle := sourcePhase_tests hcallee seconds returnAfterSource entry.state hw₁
    fun e he => ht e (by simp [he])
  generalize sourcePhase frames callee a seconds returnAfterSource entry.state = middle
    at hmiddle ht ⊢
  have hw₂ : Known (some a) middle.state := hw₁.mono hmiddle.activations
  have hexit := fireObservers_stops hcallee K_CF_RUNLOOP_EXIT (fun _ h => h) middle.state hw₂
    fun e he => ht e (by simp [he])
  generalize fireObservers frames callee a K_CF_RUNLOOP_EXIT middle.state = exit at hexit ht ⊢
  have hquiet := exitObservers_quiet hexit hw₂ fun e he => ht e (by simp [he])
  have hframes : ∀ fs, OwnFrames a frames (ObserverOf K_CF_RUNLOOP_EXIT) fs →
      OwnFrames a frames (fun _ => True) fs := fun _ ⟨inv, _, hfs⟩ => ⟨inv, trivial, hfs⟩
  have hexit' := hexit.weaken hframes
  have hanswered := hentry.toAnswered.append (hmiddle.toAnswered.append hexit'.toAnswered)
  refine ⟨entry.trace ++ (middle.trace ++ exit.trace), by simp, { hanswered with
    activations := hanswered.activations }, ?_, ?_⟩
  · by_contra hup
    rcases hexit.flag ((Bool.not_eq_false _).mp hup) with h | h
    · rw [hmiddle.clear] at h
      exact nomatch h
    · exact hquiet h
  · have hup : entry.state.rl.stopped = true ↔ StopFrom (some a) entry.trace := by
      refine ⟨fun h => (hentry.flag h).resolve_left ?_, fun h => hentry.pending (by simp) (.inr h)⟩
      rw [show (w.pushMode a.mode).rl.stopped = false from hdown]
      exact Bool.false_ne_true
    rw [hmiddle.result, hup, StopFrom.append, StopFrom.append, or_iff_left hquiet]

end Phases

/-- A refused activation consumes the stop of the code outside all callbacks. -/
theorem refused_step {w w' : World T} {a : Activation} (hup : w.rl.stopped = true)
    (hdown : w'.rl.stopped = false) (hle : w.activations ≤ w'.activations) :
    StopStep none (· = []) w [⟨[], .start a, w⟩, ⟨[], .refuse a, w'⟩] w' := by
  have hcases : ∀ e ∈ ([⟨[], .start a, w⟩, ⟨[], .refuse a, w'⟩] : List (Ev T)),
      e.frames = [] ∧ (e.what = .start a ∨ e.what = .refuse a) := by
    intro e he
    simp only [List.mem_cons, List.not_mem_nil, or_false] at he
    rcases he with rfl | rfl
    · exact ⟨rfl, .inl rfl⟩
    · exact ⟨rfl, .inr rfl⟩
  have hapi : ∀ e ∈ ([⟨[], .start a, w⟩, ⟨[], .refuse a, w'⟩] : List (Ev T)), ∀ call,
      e.what ≠ .api call := by
    intro e he call hcall
    rcases (hcases e he).2 with h | h <;> exact nomatch h.symm.trans hcall
  have hleave : ∀ e ∈ ([⟨[], .start a, w⟩, ⟨[], .refuse a, w'⟩] : List (Ev T)), ∀ b result,
      e.what ≠ .leave b result := by
    intro e he b result hleave
    rcases (hcases e he).2 with h | h <;> exact nomatch h.symm.trans hleave
  exact {
    answered := fun b ⟨e, he, hstop, _⟩ => absurd hstop (hapi e he _)
    left := fun e he b h => absurd h (hleave e he b _)
    consumed := fun e he b result h => absurd h (hleave e he b result)
    refused := fun e he _ _ => ⟨rfl, (hcases e he).1⟩
    issued := fun e he call h => absurd h (hapi e he call)
    activations := hle
    flag := fun h => nomatch hdown.symm.trans h
    pending := fun hi => absurd rfl hi
    refusedFor := fun _ _ _ _ => .inl hup }

/-- An entered activation, seen from the code that started it. -/
theorem entered_step {frames : List Frame} {a : Activation} {w w₀ w' : World T}
    {inner : List (Ev T)} {value : Int} (ha : a.id = w.activations)
    (hw₀ : w₀.activations = w.activations + 1) (hw : Known (issuer frames) w)
    (h : Answered (some a) (OwnFrames a frames fun _ => True) w₀ inner w')
    (hup : w.rl.stopped = false) (hdown : w'.rl.stopped = false)
    (hvalue : value = K_CF_RUNLOOP_RUN_STOPPED ↔ StopFrom (some a) inner) :
    StopStep (issuer frames) (· = frames) w
      (⟨frames, .start a, w⟩ :: (inner ++ [⟨frames, .leave a value, w'⟩])) w' := by
  have hfrom : ∀ j, StopFrom j (⟨frames, .start a, w⟩ ::
      (inner ++ [(⟨frames, .leave a value, w'⟩ : Ev T)])) ↔ StopFrom j inner := by
    intro j
    have hlast : ¬ StopFrom j [(⟨frames, .leave a value, w'⟩ : Ev T)] := by
      rintro ⟨e, he, hstop, -⟩
      cases List.mem_singleton.mp he
      cases hstop
    have hfirst : (What.start a : What T) ≠ .api (.stop true) := fun h => nomatch h
    rw [StopFrom.of_cons hfirst, StopFrom.append, or_iff_left hlast]
  have hevents : ∀ {e : Ev T}, e ∈ (⟨frames, .start a, w⟩ ::
      (inner ++ [(⟨frames, .leave a value, w'⟩ : Ev T)])) →
      e = ⟨frames, .start a, w⟩ ∨ e ∈ inner ∨ e = ⟨frames, .leave a value, w'⟩ := by
    intro e he
    simpa using he
  -- a stop inside is issued in this activation or a later one, never in an outer one
  have houter : ∀ {b}, issuer frames = some b → ¬ StopFrom (some b) inner := by
    rintro b hb ⟨e, he, hstop, hissuer⟩
    have hid := hw b hb
    rcases h.issued e he _ hstop with ⟨inv, -, hfs⟩ | ⟨c, hc, hle⟩
    · rw [hfs] at hissuer
      have hab : a = b := Option.some.inj hissuer
      rw [← hab, ha] at hid
      exact Nat.lt_irrefl _ hid
    · have hbc : b = c := Option.some.inj (hissuer.symm.trans hc)
      rw [hw₀, ← hbc] at hle
      omega
  refine ⟨⟨fun b hb => .inr ?_, fun e he b hleave => ?_, fun e he b result hleave => ?_,
    fun e he b hrefuse => ?_, fun e he call hcall => .inr ?_, ?_⟩, fun hup' => ?_,
    fun hi hw' => ?_, fun e he b hrefuse => ?_⟩
  · rcases h.answered b ((hfrom _).mp hb) with hself | ⟨e, he, hleave⟩
    · cases hself
      refine ⟨⟨frames, .leave a value, w'⟩, by simp, ?_⟩
      rw [hvalue.mpr ((hfrom _).mp hb)]
    · exact ⟨e, by simp [he], hleave⟩
  · rw [hfrom]
    rcases hevents he with rfl | he | rfl
    · cases hleave
    · exact h.left e he b hleave
    · cases hleave
      exact hvalue.mp rfl
  · rcases hevents he with rfl | he | rfl
    · cases hleave
    · exact h.consumed e he b result hleave
    · exact hdown
  · rcases hevents he with rfl | he | rfl
    · cases hrefuse
    · exact absurd (h.refused e he b hrefuse).1 (Option.some_ne_none a)
    · cases hrefuse
  · rcases hevents he with rfl | he | rfl
    · cases hcall
    · rcases h.issued e he call hcall with ⟨inv, -, hfs⟩ | ⟨c, hc, hle⟩
      · exact ⟨a, by rw [hfs]; rfl, Nat.le_of_eq ha.symm⟩
      · exact ⟨c, hc, by omega⟩
    · cases hcall
  · have hle := h.activations
    omega
  · rw [hdown] at hup'
    exact nomatch hup'
  · obtain ⟨b, hb⟩ := Option.ne_none_iff_exists'.mp hi
    rcases hw' with hw' | hstop
    · rw [hup] at hw'
      exact nomatch hw'
    · rw [hfrom, hb] at hstop
      exact absurd hstop (houter hb)
  · rcases hevents he with rfl | he | rfl
    · cases hrefuse
    · exact absurd (h.refused e he b hrefuse).1 (Option.some_ne_none a)
    · cases hrefuse

theorem cfRunLoopRunInMode_stops {frames : List Frame}
    {callee : List Frame → Invocation → Act T Unit}
    (hcallee : ∀ a inv, Keeps (Stops (some a) (· = ⟨a, inv⟩ :: frames))
      (callee (⟨a, inv⟩ :: frames) inv)) (mode : CFRunLoopMode) (seconds : T)
    (returnAfterSource : Bool) :
    Keeps (Stops (issuer frames) (· = frames))
      (cfRunLoopRunInMode frames callee mode seconds returnAfterSource) := by
  intro w hw ht
  cases hstopped : w.rl.stopped with
  | true =>
    rw [cfRunLoopRunInMode_refused frames callee mode seconds returnAfterSource hstopped] at ht ⊢
    -- only code outside all callbacks starts an activation over a stop
    obtain rfl : frames = [] := by
      have hstart := ht _ List.mem_cons_self
      simpa [stopsInTime, hstopped] using hstart
    exact refused_step hstopped rfl (Nat.le_succ _)
  | false =>
    rw [cfRunLoopRunInMode_entered frames callee mode seconds returnAfterSource hstopped] at ht ⊢
    obtain ⟨inner, htrace, hanswered, hdown, hvalue⟩ := enterMode_stops
      (hcallee ⟨w.activations, modeNameFromPtr mode⟩) seconds returnAfterSource (w := w.started mode)
      (fun b hb => by cases hb; exact Nat.lt_succ_self _) hstopped
      fun e he => ht e (List.mem_cons_of_mem _ he)
    dsimp only
    rw [htrace]
    exact entered_step rfl rfl hw hanswered hstopped hdown hvalue

/-- Only a stop moves the flag, of all the calls that are not a run. -/
theorem World.perform_stopped (w : World T) (call : Api T) :
    call = .stop true ∧ (w.perform call).1.rl.stopped = true ∨
      call ≠ .stop true ∧ (w.perform call).1.rl.stopped = w.rl.stopped := by
  cases call with
  | stop rl =>
    cases rl with
    | true => exact .inl ⟨rfl, rfl⟩
    | false => exact .inr ⟨fun h => (nomatch h), rfl⟩
  | sourceSignal source => cases source <;> exact .inr ⟨fun h => (nomatch h), rfl⟩
  | addCommonMode rl mode => cases rl <;> exact .inr ⟨fun h => (nomatch h), rfl⟩
  | addSource rl source mode | removeSource rl source mode | addTimer rl source mode
  | removeTimer rl source mode | addObserver rl source mode | removeObserver rl source mode =>
    exact .inr ⟨fun h => (nomatch h), unlessNull_induction (P := fun w' => w'.rl.stopped = w.rl.stopped)
      rfl fun _ => rfl⟩
  | wakeUp | copyCurrentMode | sourceCreate | containsSource | timerCreate | observerCreate
  | absoluteTimeGetCurrent => exact .inr ⟨fun h => (nomatch h), rfl⟩

theorem api_step (frames : List Frame) (call : Api T) (w : World T) :
    StopStep (issuer frames) (· = frames) w [⟨frames, .api call, w⟩] (w.perform call).1 := by
  have hwhat : ∀ e ∈ [(⟨frames, .api call, w⟩ : Ev T)], e.frames = frames ∧ e.what = .api call := by
    intro e he
    cases List.mem_singleton.mp he
    exact ⟨rfl, rfl⟩
  have hflag := w.perform_stopped call
  refine ⟨⟨fun b ⟨e, he, _, hissuer⟩ => .inl ?_, fun e he b hleave => ?_,
    fun e he b result hleave => ?_, fun e he b hrefuse => ?_, fun e he c _ => .inl (hwhat e he).1,
    Nat.le_of_eq (w.perform_undisturbed call).activations.symm⟩, fun hup => ?_, fun _ hw => ?_, fun e he b hrefuse => ?_⟩
  · rw [← hissuer, (hwhat e he).1]
  · cases (hwhat e he).2.symm.trans hleave
  · cases (hwhat e he).2.symm.trans hleave
  · cases (hwhat e he).2.symm.trans hrefuse
  · rcases hflag with ⟨rfl, -⟩ | ⟨-, hsame⟩
    · exact .inr ⟨_, List.mem_singleton_self _, rfl, rfl⟩
    · exact .inl (hsame ▸ hup)
  · rcases hflag with ⟨-, hup⟩ | ⟨hne, hsame⟩
    · exact hup
    · rw [hsame]
      refine hw.resolve_right ?_
      rintro ⟨e, he, hstop, -⟩
      cases (hwhat e he).2.symm.trans hstop
      exact hne rfl
  · cases (hwhat e he).2.symm.trans hrefuse

end Grafted.Cf.RunLoop

import Grafted.Cf.RunLoopModes

/-! What an observer sees of an activation.

The ENTRY observers come first in its trace and the EXIT observers last. An observer
that stays registered is called once for each, and what nested activations do lies
inside a callback of the activation (`activation_brackets`): not always between the
two, since a callback for ENTRY or EXIT may run the loop itself. In a wait without end
an activation stays for good. -/
namespace Grafted.Cf.RunLoop
open Traced

variable {T : Type} [CFTime T]

/-! ### What an observer sees -/

def K_ALL_ACTIVITIES : BitVec 64 :=
  K_CF_RUNLOOP_ENTRY ||| K_CF_RUNLOOP_BEFORE_TIMERS ||| K_CF_RUNLOOP_BEFORE_SOURCES |||
    K_CF_RUNLOOP_BEFORE_WAITING ||| K_CF_RUNLOOP_AFTER_WAITING ||| K_CF_RUNLOOP_EXIT

/-- An observer with a callback and a full activity mask. -/
structure WatchesAll (x : CFRunLoopObserverInner) : Prop where
  callback : x.callback.isSome
  mask : x.activities &&& K_ALL_ACTIVITIES = K_ALL_ACTIVITIES

theorem WatchesAll.watches {x : CFRunLoopObserverInner} (h : WatchesAll x) {activity : BitVec 64}
    (hall : K_ALL_ACTIVITIES &&& activity = activity) (hne : activity ≠ 0) :
    x.activities &&& activity ≠ 0 := by
  intro hzero
  apply hne
  calc
    activity = K_ALL_ACTIVITIES &&& activity := hall.symm
    _ = x.activities &&& K_ALL_ACTIVITIES &&& activity := by rw [h.mask]
    _ = x.activities &&& activity := by rw [BitVec.and_assoc, hall]
    _ = 0 := hzero

/-- The event is inside a callback of the activation; unless that is an ENTRY or
an EXIT callback, it lies between the ENTRY and the EXIT that `o` sees. -/
def Bracketed (o : Ref) (a : Activation) (before after : List (Ev T)) : Prop :=
  ∃ inv, InCallback a inv before after ∧
    (K_CF_RUNLOOP_ENTRY ∈ seen o a before ∨ ObserverOf K_CF_RUNLOOP_ENTRY inv) ∧
    (K_CF_RUNLOOP_EXIT ∈ seen o a after ∨ ObserverOf K_CF_RUNLOOP_EXIT inv)

theorem brackets_of_parts {o : Ref} {a : Activation} {entry middle exit : List (Ev T)}
    {first last : Ev T} (hentry : OwnTrace a (ObserverOf K_CF_RUNLOOP_ENTRY) entry)
    (hmiddle : OwnTrace a Middle middle) (hexit : OwnTrace a (ObserverOf K_CF_RUNLOOP_EXIT) exit)
    (hfirst : first.what.activation = some a) (hlast : last.what.activation = some a)
    (hseesEntry : seen o a entry = [K_CF_RUNLOOP_ENTRY])
    (hseesExit : seen o a exit = [K_CF_RUNLOOP_EXIT]) {before after : List (Ev T)} {e : Ev T}
    (he : first :: (entry ++ (middle ++ (exit ++ [last]))) = before ++ e :: after)
    (hown : e.what.activation ≠ some a) : Bracketed o a before after := by
  have hsees : ∀ {activity : BitVec 64} {t : List (Ev T)} (l r : List (Ev T)),
      seen o a t = [activity] → activity ∈ seen o a (l ++ t ++ r) := fun l r ht => by
    rw [seen_append, seen_append, ht]
    exact List.mem_append_left _ (List.mem_append_right _ (List.mem_singleton_self _))
  cases before with
  | nil =>
    obtain ⟨rfl, -⟩ := List.cons.inj he
    exact absurd hfirst hown
  | cons x before =>
    obtain ⟨rfl, hparts⟩ := List.cons.inj he
    rcases split_append hparts with ⟨c, hc, rfl⟩ | ⟨before₁, rfl, hparts₁⟩
    · -- among the ENTRY observers
      obtain ⟨inv, hinv, hin⟩ := hentry.inCallback hc hown
      have hext := hin.extend [first] (middle ++ (exit ++ [last]))
      refine ⟨inv, hext, .inr hinv, .inl ?_⟩
      have hmem := hsees (c ++ middle) [last] hseesExit
      simpa using hmem
    rcases split_append hparts₁ with ⟨c, hc, rfl⟩ | ⟨before₂, rfl, hparts₂⟩
    · -- between
      obtain ⟨inv, -, hin⟩ := hmiddle.inCallback hc hown
      have hext := hin.extend (first :: entry) (exit ++ [last])
      refine ⟨inv, hext, .inl (hsees [first] before₁ hseesEntry), .inl ?_⟩
      have hmem := hsees c [last] hseesExit
      simpa using hmem
    rcases split_append hparts₂ with ⟨c, hc, rfl⟩ | ⟨before₃, rfl, hlast'⟩
    · -- among the EXIT observers
      obtain ⟨inv, hinv, hin⟩ := hexit.inCallback hc hown
      have hext := hin.extend (first :: (entry ++ middle)) [last]
      refine ⟨inv, ?_, .inl ?_, .inr hinv⟩
      · simpa using hext
      · have hmem := hsees [first] (middle ++ before₂) hseesEntry
        simpa using hmem
    · cases before₃ with
      | nil =>
        obtain ⟨rfl, -⟩ := List.cons.inj hlast'
        exact absurd hlast hown
      | cons y rest =>
        have hlen := congrArg List.length hlast'
        simp at hlen

/-- A refused activation calls nothing, and comes to no wait. -/
theorem refused_quiet (callee : Invocation → World T → Prog T) (frames : List Frame)
    (mode : CFRunLoopMode) (seconds : T) (returnAfterSource : Bool) {w : World T}
    (hstopped : w.rl.stopped = true) {e : Ev T}
    (he : e ∈ (cfRunLoopRunInMode frames (answers callee) mode seconds returnAfterSource w).trace) :
    e.endless = false ∧ ∀ b inv, e.what ≠ .call b inv := by
  rw [cfRunLoopRunInMode_refused frames (answers callee) mode seconds returnAfterSource hstopped] at he
  simp only [List.mem_cons, List.not_mem_nil, or_false] at he
  rcases he with rfl | rfl
  · exact ⟨rfl, fun _ _ h => nomatch h⟩
  · exact ⟨rfl, fun _ _ h => nomatch h⟩

/-- What an observer that stays registered sees of an entered activation, were every
wait to end. -/
theorem observer_brackets (callee : Invocation → World T → Prog T) (frames : List Frame)
    (mode : CFRunLoopMode) (seconds : T) (returnAfterSource : Bool) {w : World T}
    (hstopped : w.rl.stopped = false) {o : Ref} {x : CFRunLoopObserverInner}
    (hx : w.observers[o]? = some x) (hwatch : WatchesAll x) :
    let a : Activation := ⟨w.activations, modeNameFromPtr mode⟩
    let r := cfRunLoopRunInMode frames (answers callee) mode seconds returnAfterSource w
    (∀ e ∈ r.trace, o ∈ e.world.observersOf a.mode) →
    (∃ mid, seen o a r.trace = K_CF_RUNLOOP_ENTRY :: mid ++ [K_CF_RUNLOOP_EXIT] ∧
      ∀ activity ∈ mid, Between activity) ∧
    ∀ before e after, r.trace = before ++ e :: after → e.what.activation ≠ some a →
      Bracketed o a before after := by
  intro a r hreg
  have hcallee : ∀ b inv, Keeps Nested (answers (T := T) callee (⟨b, inv⟩ :: frames) inv) :=
    fun b inv => answers_nested callee _ inv
  have hr : r = _ :=
    cfRunLoopRunInMode_entered frames (answers callee) mode seconds returnAfterSource hstopped
  rw [enterMode_apply] at hr
  set entry := fireObservers frames (answers callee) a K_CF_RUNLOOP_ENTRY
    ((w.started mode).pushMode a.mode)
  set middle := sourcePhase frames (answers callee) a seconds returnAfterSource entry.state
  set exit := fireObservers frames (answers callee) a K_CF_RUNLOOP_EXIT middle.state
  have htrace : r.trace = ⟨frames, .start a, w⟩ :: (entry.trace ++ (middle.trace ++ (exit.trace ++
      [⟨frames, .leave a middle.value, exit.state.popMode⟩]))) := congrArg Outcome.trace hr
  obtain ⟨hentry, hmiddle, hexit⟩ : Inside a (ObserverOf K_CF_RUNLOOP_ENTRY)
      ((w.started mode).pushMode a.mode) entry.trace entry.state ∧
    Inside a Middle entry.state middle.trace middle.state ∧
    Inside a (ObserverOf K_CF_RUNLOOP_EXIT) middle.state exit.trace exit.state :=
      enterMode_inside (hcallee a) seconds returnAfterSource (Nat.lt_succ_self _)
  have hseesEntry : seen o a entry.trace = [K_CF_RUNLOOP_ENTRY] := by
    refine fireObservers_seen (hcallee a) hwatch.callback
      (hwatch.watches (by decide) (by decide)) ⟨rfl, Nat.lt_succ_self _⟩ hx ?_
    refine hreg ⟨frames, .fire a K_CF_RUNLOOP_ENTRY, (w.started mode).pushMode a.mode⟩ ?_
    rw [htrace]
    exact List.mem_cons_of_mem _ (List.mem_append_left _ List.mem_cons_self)
  have hseesExit : seen o a exit.trace = [K_CF_RUNLOOP_EXIT] := by
    have hentered : Entered a middle.state :=
      ⟨hmiddle.modeStack ▸ hentry.modeStack ▸ rfl, Nat.lt_of_lt_of_le (Nat.lt_succ_self _)
        (Nat.le_trans hentry.activations hmiddle.activations)⟩
    refine fireObservers_seen (hcallee a) hwatch.callback
      (hwatch.watches (by decide) (by decide)) hentered
      (lookup_extended (hentry.observers.trans hmiddle.observers) hx) ?_
    refine hreg ⟨frames, .fire a K_CF_RUNLOOP_EXIT, middle.state⟩ ?_
    rw [htrace]
    exact List.mem_cons_of_mem _ (List.mem_append_right _ (List.mem_append_right _
      (List.mem_append_left _ List.mem_cons_self)))
  refine ⟨⟨seen o a middle.trace, ?_, fun activity hactivity => ?_⟩, fun before e after he hown => ?_⟩
  · have hends : seen o a [(⟨frames, .leave a middle.value, exit.state.popMode⟩ : Ev T)] = [] := rfl
    have hstart : seen o a [(⟨frames, .start a, w⟩ : Ev T)] = [] := rfl
    rw [htrace, ← List.singleton_append, seen_append, seen_append, seen_append, seen_append, hstart,
      hends, hseesEntry, hseesExit]
    rfl
  · obtain ⟨e, he, hcall⟩ := mem_seen.mp hactivity
    exact hmiddle.own.called he hcall o activity rfl
  · exact brackets_of_parts hentry.own hmiddle.own hexit.own rfl rfl hseesEntry hseesExit
      (htrace.symm.trans he) hown

/-- **Activations and what an observer sees of them.** Whatever the callbacks do,
every callback in an activation starts with the mode of its activation on top, and a
refused one calls nothing and waits for nothing. An activation that comes to no wait
without end returns, and leaves the mode stack as it found it. An observer of every
activity that stays registered sees ENTRY first and EXIT last, once each, of what
such an activation itself does; what else happens is inside a callback of the
activation. -/
theorem activation_brackets (callee : Invocation → World T → Prog T) (frames : List Frame)
    (mode : CFRunLoopMode) (seconds : T) (returnAfterSource : Bool) (w : World T) :
    let a : Activation := ⟨w.activations, modeNameFromPtr mode⟩
    let r := cfRunLoopRunInMode frames (answers callee) mode seconds returnAfterSource w
    let t := happened r.trace
    (∀ e ∈ t, CalledOnTop e) ∧
    (w.rl.stopped = true → ∀ e ∈ t, e.endless = false ∧ ∀ b inv, e.what ≠ .call b inv) ∧
    ((∀ e ∈ t, e.endless = false) →
      t = r.trace ∧ r.state.rl.modeStack = w.rl.modeStack ∧
      (w.rl.stopped = false → ∀ o x, w.observers[o]? = some x → WatchesAll x →
        (∀ e ∈ t, o ∈ e.world.observersOf a.mode) →
        (∃ mid, seen o a t = K_CF_RUNLOOP_ENTRY :: mid ++ [K_CF_RUNLOOP_EXIT] ∧
          ∀ activity ∈ mid, Between activity) ∧
        ∀ before e after, t = before ++ e :: after → e.what.activation ≠ some a →
          Bracketed o a before after)) := by
  intro a r t
  have hnested : Nested w r.trace r.state :=
    cfRunLoopRunInMode_nested (fun b inv => answers_nested callee _ inv) mode seconds
      returnAfterSource w
  have hpart : ∀ e ∈ t, e ∈ r.trace := fun e he => (upTo_isPrefix Ev.endless r.trace).subset he
  refine ⟨fun e he => hnested.onTop e (hpart e he), fun hstopped e he => ?_, fun hends => ?_⟩
  · exact refused_quiet callee frames mode seconds returnAfterSource hstopped (hpart e he)
  · have hall : t = r.trace := upTo_eq_self hends
    rw [hall]
    exact ⟨rfl, hnested.modeStack, fun hstopped o x hx hwatch =>
      observer_brackets callee frames mode seconds returnAfterSource hstopped hx hwatch⟩

/-- A run loop whose default mode has one observer, of every activity. -/
def watched : World Nat :=
  ((World.new midnight).cfRunLoopObserverCreate K_ALL_ACTIVITIES true 0 (some 1) 0).cfRunLoopAddObserver
    true (some 0) none

/-- An EXIT callback of the first activation that runs the loop once more. -/
def runsAgainOnExit (inv : Invocation) (w : World Nat) : Prog Nat :=
  if inv = .observer 0 K_CF_RUNLOOP_EXIT ∧ w.activations = 1 then
    .run none 0 false (fun _ _ => .done) fun _ => .done
  else .done

theorem activation_brackets_watched :
    ∃ mid, seen 0 ⟨0, kCFRunLoopDefaultMode⟩
        (happened (cfRunLoopRunInMode [] (answers runsAgainOnExit) none 0 false watched).trace) =
          K_CF_RUNLOOP_ENTRY :: mid ++ [K_CF_RUNLOOP_EXIT] ∧
      ∀ activity ∈ mid, Between activity :=
  (((activation_brackets runsAgainOnExit [] none 0 false watched).2.2 (by decide)).2.2 rfl 0 _ rfl
    ⟨rfl, by decide⟩ (by decide)).1

/-- All that `o` is called for, by whatever activation. -/
def seenOfAll (o : Ref) (t : List (Ev T)) : List (Activation × BitVec 64) :=
  t.filterMap fun e => match e.what with
    | .call b (.observer o' activity) => if o' = o then some (b, activity) else none
    | _ => none

/-- An observer can see a nested activation after EXIT: one its own EXIT callback
starts. -/
theorem nested_seen_after_exit :
    ¬ ∀ (callee : Invocation → World Nat → Prog Nat) (frames : List Frame) (mode : CFRunLoopMode)
      (seconds : Nat) (returnAfterSource : Bool) (w : World Nat) (o : Ref)
      (x : CFRunLoopObserverInner),
      let a : Activation := ⟨w.activations, modeNameFromPtr mode⟩
      let r := cfRunLoopRunInMode frames (answers callee) mode seconds returnAfterSource w
      let t := happened r.trace
      (∀ e ∈ t, e.endless = false) → w.rl.stopped = false → w.observers[o]? = some x →
      WatchesAll x → (∀ e ∈ t, o ∈ e.world.observersOf a.mode) →
      ∃ mid, seenOfAll o t = (a, K_CF_RUNLOOP_ENTRY) :: mid ++ [(a, K_CF_RUNLOOP_EXIT)] ∧
        ∀ p ∈ mid, p.1 = a → Between p.2 := by
  intro h
  obtain ⟨mid, hmid, -⟩ := h runsAgainOnExit [] none 0 false watched 0 _ (by decide) rfl rfl
    ⟨rfl, by decide⟩ (by decide)
  have hlast := congrArg List.getLast? hmid
  rw [List.getLast?_concat] at hlast
  exact absurd hlast (by decide)

end Grafted.Cf.RunLoop

import Grafted.Cf.RunLoopRules

/-! The mode stack, and the trace of an activation.

Every activation, at any depth, pops what it pushed, and runs its callbacks with
its own mode on top. In its trace its own callbacks come one after the other with
whatever they start inside them (`OwnTrace`). -/
namespace Grafted.Cf.RunLoop
open Traced

variable {T : Type} [CFTime T]

/-! ### The trace of an activation -/

/-- The events of one activation and those inside its callbacks, which are of
others. The callbacks satisfy `P`. -/
inductive OwnTrace (a : Activation) (P : Invocation → Prop) : List (Ev T) → Prop
  | nil : OwnTrace a P []
  | mark (e : Ev T) (rest : List (Ev T)) (he : Mark a e.what) (hrest : OwnTrace a P rest) :
      OwnTrace a P (e :: rest)
  | call (inv : Invocation) (e e' : Ev T) (body rest : List (Ev T)) (hinv : P inv)
      (he : e.what = .call a inv) (he' : e'.what = .ret a inv)
      (hbody : ∀ x ∈ body, x.what.activation ≠ some a) (hrest : OwnTrace a P rest) :
      OwnTrace a P (e :: (body ++ e' :: rest))

omit [CFTime T] in
theorem Mark.activation {a : Activation} {what : What T} (h : Mark a what) :
    what.activation = some a := by
  cases h <;> rfl

theorem OwnTrace.append {a : Activation} {P : Invocation → Prop} {t t' : List (Ev T)}
    (h : OwnTrace a P t) (h' : OwnTrace a P t') : OwnTrace a P (t ++ t') := by
  induction h with
  | nil => exact h'
  | mark e rest he _ ih => exact .mark e _ he ih
  | call inv e e' body rest hinv he he' hbody _ ih =>
    have heq : e :: (body ++ e' :: rest) ++ t' = e :: (body ++ e' :: (rest ++ t')) := by simp
    rw [heq]
    exact .call inv e e' body _ hinv he he' hbody ih

theorem OwnTrace.mono {a : Activation} {P Q : Invocation → Prop} (hPQ : ∀ inv, P inv → Q inv)
    {t : List (Ev T)} (h : OwnTrace a P t) : OwnTrace a Q t := by
  induction h with
  | nil => exact .nil
  | mark e rest he _ ih => exact .mark e rest he ih
  | call inv e e' body rest hinv he he' hbody _ ih =>
    exact .call inv e e' body rest (hPQ inv hinv) he he' hbody ih

/-- What happens between `before` and `after` happens inside the callback `inv` of
the activation. -/
def InCallback (a : Activation) (inv : Invocation) (before after : List (Ev T)) : Prop :=
  ∃ b e b' c e' c', before = b ++ e :: b' ∧ after = c ++ e' :: c' ∧
    e.what = .call a inv ∧ e'.what = .ret a inv ∧ ∀ x ∈ b' ++ c, x.what.activation ≠ some a

theorem InCallback.extend {a : Activation} {inv : Invocation} {before after : List (Ev T)}
    (h : InCallback a inv before after) (first last : List (Ev T)) :
    InCallback a inv (first ++ before) (after ++ last) := by
  obtain ⟨b, e, b', c, e', c', rfl, rfl, he, he', hbody⟩ := h
  exact ⟨first ++ b, e, b', c, e', c' ++ last, by simp, by simp, he, he', hbody⟩

/-- An event that is not the activation's own is inside one of its callbacks. -/
theorem OwnTrace.inCallback {a : Activation} {P : Invocation → Prop} {t : List (Ev T)}
    (h : OwnTrace a P t) {before after : List (Ev T)} {x : Ev T} (ht : t = before ++ x :: after)
    (hx : x.what.activation ≠ some a) : ∃ inv, P inv ∧ InCallback a inv before after := by
  induction h generalizing before with
  | nil => simp at ht
  | mark e rest he _ ih =>
    cases before with
    | nil =>
      cases ht
      exact absurd he.activation hx
    | cons y before =>
      obtain ⟨rfl, hrest⟩ := List.cons.inj ht
      obtain ⟨inv, hinv, hin⟩ := ih hrest
      refine ⟨inv, hinv, ?_⟩
      have hext := hin.extend [e] []
      rwa [List.append_nil] at hext
  | call inv e e' body rest hinv he he' hbody _ ih =>
    cases before with
    | nil =>
      cases ht
      exact absurd (congrArg What.activation he) hx
    | cons y before =>
      obtain ⟨rfl, hrest⟩ := List.cons.inj ht
      rcases split_append hrest with ⟨body', rfl, rfl⟩ | ⟨rest', rfl, hrest'⟩
      · refine ⟨inv, hinv, [], e, before, body', e', rest, rfl, rfl, he, he', fun y hy => hbody y ?_⟩
        rcases List.mem_append.mp hy with hy | hy
        · exact List.mem_append_left _ hy
        · exact List.mem_append_right _ (List.mem_cons_of_mem _ hy)
      · cases rest' with
        | nil =>
          obtain ⟨rfl, rfl⟩ := List.cons.inj hrest'
          exact absurd (congrArg What.activation he') hx
        | cons z rest' =>
          obtain ⟨rfl, hafter⟩ := List.cons.inj hrest'
          obtain ⟨inv', hinv', hin⟩ := ih hafter
          have hext := hin.extend (e :: body ++ [e']) []
          exact ⟨inv', hinv', by simpa using hext⟩

/-- The activities of an activation that an observer was called for, in order. -/
def seen (o : Ref) (a : Activation) (t : List (Ev T)) : List (BitVec 64) :=
  t.filterMap fun e => match e.what with
    | .call b (.observer o' activity) => if b = a ∧ o' = o then some activity else none
    | _ => none

theorem seen_append (o : Ref) (a : Activation) (t t' : List (Ev T)) :
    seen o a (t ++ t') = seen o a t ++ seen o a t' := List.filterMap_append

theorem seen_other (o : Ref) (a : Activation) {t : List (Ev T)}
    (h : ∀ x ∈ t, x.what.activation ≠ some a) : seen o a t = [] := by
  refine List.filterMap_eq_nil_iff.mpr fun x hx => ?_
  have hne := h x hx
  split
  · rename_i b o' activity hwhat
    rw [if_neg]
    rintro ⟨rfl, -⟩
    rw [hwhat] at hne
    exact hne rfl
  · rfl

theorem mem_seen {o : Ref} {a : Activation} {t : List (Ev T)} {activity : BitVec 64} :
    activity ∈ seen o a t ↔ ∃ e ∈ t, e.what = .call a (.observer o activity) := by
  refine List.mem_filterMap.trans ⟨?_, ?_⟩
  · rintro ⟨e, he, hsome⟩
    refine ⟨e, he, ?_⟩
    split at hsome
    · rename_i b o' activity' hwhat
      split_ifs at hsome with hown
      obtain ⟨rfl, rfl⟩ := hown
      cases hsome
      exact hwhat
    · exact nomatch hsome
  · rintro ⟨e, he, hwhat⟩
    exact ⟨e, he, by rw [hwhat]; exact if_pos ⟨rfl, rfl⟩⟩

/-- Every callback of the activation in its own trace is one of those allowed. -/
theorem OwnTrace.called {a : Activation} {P : Invocation → Prop} {t : List (Ev T)}
    (h : OwnTrace a P t) {e : Ev T} {inv : Invocation} (he : e ∈ t) (hcall : e.what = .call a inv) :
    P inv := by
  induction h with
  | nil => exact nomatch he
  | mark x rest hx _ ih =>
    rcases List.mem_cons.mp he with rfl | he
    · rw [hcall] at hx
      cases hx
    · exact ih he
  | call inv' x x' body rest hinv hx hx' hbody _ ih =>
    rcases List.mem_cons.mp he with rfl | he
    · cases hx.symm.trans hcall
      exact hinv
    rcases List.mem_append.mp he with he | he
    · exact absurd (congrArg What.activation hcall) (hbody e he)
    rcases List.mem_cons.mp he with rfl | he
    · cases hx'.symm.trans hcall
    · exact ih he

/-! ### The two relations -/

/-- A callback starts with the mode of its activation on top. -/
def CalledOnTop (e : Ev T) : Prop :=
  ∀ a inv, e.what = .call a inv → e.world.rl.modeStack.head? = some a.mode

/-- What any code does, activations it starts included. -/
structure Nested (w : World T) (t : List (Ev T)) (w' : World T) : Prop where
  modeStack : w'.rl.modeStack = w.rl.modeStack
  activations : w.activations ≤ w'.activations
  observers : w.observers <+: w'.observers
  onTop : ∀ e ∈ t, CalledOnTop e
  later : ∀ e ∈ t, ∀ b, e.what.activation = some b → w.activations ≤ b.id

/-- What an activation does between pushing and popping its mode. -/
structure Inside (a : Activation) (P : Invocation → Prop) (w : World T) (t : List (Ev T))
    (w' : World T) : Prop where
  modeStack : w'.rl.modeStack = w.rl.modeStack
  activations : w.activations ≤ w'.activations
  observers : w.observers <+: w'.observers
  onTop : ∀ e ∈ t, CalledOnTop e
  later : ∀ e ∈ t, ∀ b, e.what.activation = some b → a.id ≤ b.id
  own : OwnTrace a P t

/-- The activation is running, under its mode. -/
structure Entered (a : Activation) (w : World T) : Prop where
  top : w.rl.modeStack.head? = some a.mode
  id : a.id < w.activations

theorem Nested.composes : Composes (Nested (T := T)) where
  refl w := ⟨rfl, Nat.le_refl _, List.prefix_rfl, fun _ h => (nomatch h), fun _ h => (nomatch h)⟩
  trans h h' := by
    refine ⟨h'.modeStack.trans h.modeStack, Nat.le_trans h.activations h'.activations,
      h.observers.trans h'.observers, fun e he => ?_, fun e he b hb => ?_⟩
    · exact (List.mem_append.mp he).elim (h.onTop e) (h'.onTop e)
    · rcases List.mem_append.mp he with he | he
      · exact h.later e he b hb
      · exact Nat.le_trans h.activations (h'.later e he b hb)

theorem Inside.composes (a : Activation) (P : Invocation → Prop) :
    Composes fun (w : World T) t w' => Entered a w → Inside a P w t w' where
  refl w _ := ⟨rfl, Nat.le_refl _, List.prefix_rfl, fun _ h => (nomatch h), fun _ h => (nomatch h),
    .nil⟩
  trans h h' hw := by
    have hu := h hw
    have hv := h' ⟨hu.modeStack ▸ hw.top, Nat.lt_of_lt_of_le hw.id hu.activations⟩
    exact ⟨hv.modeStack.trans hu.modeStack, Nat.le_trans hu.activations hv.activations,
      hu.observers.trans hv.observers,
      fun e he => (List.mem_append.mp he).elim (hu.onTop e) (hv.onTop e),
      fun e he => (List.mem_append.mp he).elim (hu.later e) (hv.later e), hu.own.append hv.own⟩

theorem Inside.mark {a : Activation} {P : Invocation → Prop} (frames : List Frame) {what : What T}
    (h : Mark a what) :
    Keeps (fun w t w' => Entered a w → Inside a P w t w') (record frames what) := by
  intro w _
  refine ⟨rfl, Nat.le_refl _, List.prefix_rfl, fun e he b inv hcall => ?_, fun e he b hb => ?_,
    .mark _ _ h .nil⟩
  · cases List.mem_singleton.mp he
    cases hcall
    cases h
  · cases List.mem_singleton.mp he
    cases h.activation.symm.trans hb
    exact Nat.le_refl _

theorem Inside.move {a : Activation} {P : Invocation → Prop} {f : World T → World T}
    (hf : ∀ w, (f w).rl.modeStack = w.rl.modeStack ∧ (f w).activations = w.activations ∧
      (f w).observers = w.observers) :
    Keeps (fun w t w' => Entered a w → Inside a P w t w') (modify f) :=
  fun w _ => ⟨(hf w).1, Nat.le_of_eq (hf w).2.1.symm, (hf w).2.2 ▸ List.prefix_rfl, fun _ h => (nomatch h),
    fun _ h => (nomatch h), .nil⟩

section Activations
variable {frames : List Frame} {callee : List Frame → Invocation → Act T Unit} {a : Activation}
  {P : Invocation → Prop}

/-- A callback in the trace of its activation. -/
theorem Inside.callback {inv : Invocation} (hinv : P inv)
    (hcallee : Keeps Nested (callee (⟨a, inv⟩ :: frames) inv)) :
    Keeps (fun w t w' => Entered a w → Inside a P w t w')
      (RunLoop.callback frames callee a inv) := by
  intro w hw
  have h := hcallee w.called
  rw [callback_apply]
  refine ⟨h.modeStack, h.activations, h.observers, ?_, ?_, ?_⟩
  · intro e he b inv' hcall
    rcases List.mem_cons.mp he with rfl | he
    · cases hcall
      exact hw.top
    · rcases List.mem_append.mp he with he | he
      · exact h.onTop e he b inv' hcall
      · cases List.mem_singleton.mp he
        cases hcall
  · intro e he b hb
    rcases List.mem_cons.mp he with rfl | he
    · cases hb
      exact Nat.le_refl _
    · rcases List.mem_append.mp he with he | he
      · exact Nat.le_trans (Nat.le_of_lt hw.id) (h.later e he b hb)
      · cases List.mem_singleton.mp he
        cases hb
        exact Nat.le_refl _
  · refine .call inv _ _ _ [] hinv rfl rfl (fun x hx hown => ?_) .nil
    exact absurd (h.later x hx a hown) (Nat.not_le.mpr hw.id)

/-- A callback for neither ENTRY nor EXIT. -/
def Middle (inv : Invocation) : Prop := ∀ o activity, inv = .observer o activity → Between activity

variable (hcallee : ∀ inv, Keeps Nested (callee (⟨a, inv⟩ :: frames) inv))
include hcallee

theorem fireObservers_inside (activity : BitVec 64) :
    Keeps (fun w t w' => Entered a w → Inside a (ObserverOf activity) w t w')
      (fireObservers frames callee a activity) :=
  fireObservers_keeps (Inside.composes a _) (Inside.mark frames (.fire activity)) fun o =>
    Inside.callback ⟨o, rfl⟩ (hcallee _)

theorem sourcePhase_inside (seconds : T) (returnAfterSource : Bool) :
    Keeps (fun w t w' => Entered a w → Inside a Middle w t w')
      (sourcePhase frames callee a seconds returnAfterSource) := by
  have hB := Inside.composes (T := T) a Middle
  have hmark : ∀ what, Mark a what →
      Keeps (fun w t w' => Entered a w → Inside a Middle w t w') (record (T := T) frames what) :=
    fun what => Inside.mark frames
  have hfire : ∀ activity, Between activity →
      Keeps (fun w t w' => Entered a w → Inside a Middle w t w')
        (fireObservers frames callee a activity) := fun activity hbetween =>
    fireObservers_keeps hB (hmark _ (.fire activity)) fun o =>
      Inside.callback (fun _ _ h => by cases h; exact hbetween) (hcallee _)
  have hnote : ∀ what, Note a what →
      Keeps (fun w t w' => Entered a w → Inside a Middle w t w') (record (T := T) frames what) :=
    fun what h => hmark what h.mark
  refine sourcePhase_keeps hB hnote hfire (fun src => ?_)
    (timerPhase_keeps hB hnote hfire ?_ (fun now t => ?_) (waitPhase_keeps hB hnote hfire ?_))
  · exact dispatchSource_keeps hB (Inside.move fun _ => ⟨rfl, rfl, rfl⟩)
      (Inside.callback (fun _ _ h => nomatch h) (hcallee _))
  · exact Inside.move fun _ => ⟨rfl, rfl, rfl⟩
  · exact dispatchTimer_keeps hB (fun _ => Inside.move fun _ => ⟨rfl, rfl, rfl⟩)
      (Inside.callback (fun _ _ h => nomatch h) (hcallee _))
  · exact Inside.move fun _ => ⟨rfl, rfl, rfl⟩

variable {o : Ref} {x : CFRunLoopObserverInner} {activity : BitVec 64}

omit hcallee in
theorem lookup_extended {xs ys : List CFRunLoopObserverInner} (h : xs <+: ys) (hx : xs[o]? = some x) :
    ys[o]? = some x := by
  obtain ⟨rest, rfl⟩ := h
  exact (List.getElem?_append_left (List.getElem?_eq_some_iff.mp hx).1).trans hx

omit hcallee in
/-- An observer is called exactly when its mask and its callback are there. -/
theorem fireObserver_cases (activity : BitVec 64) (obs : Ref) (w : World T) :
    ((∃ y, w.observers[obs]? = some y ∧ y.activities &&& activity ≠ 0 ∧ y.callback.isSome) ∧
      fireObserver frames callee a activity obs w =
        callback frames callee a (.observer obs activity) w) ∨
    ((∀ y, w.observers[obs]? = some y → ¬ (y.activities &&& activity ≠ 0 ∧ y.callback.isSome)) ∧
      fireObserver frames callee a activity obs w = ⟨(), w, []⟩) := by
  cases hy : w.observers[obs]? with
  | none =>
    refine .inr ⟨fun y h => (nomatch h), ?_⟩
    simp only [fireObserver, bind_apply, read_apply, hy, pure_apply, List.append_nil]
  | some y =>
    have hrun : fireObserver frames callee a activity obs w =
        (if y.activities &&& activity ≠ 0 then
          if y.callback.isSome then callback frames callee a (.observer obs activity) else pure ()
        else pure () : Act T Unit) w := by
      simp only [fireObserver, bind_apply, read_apply, hy, List.nil_append]
    rw [hrun]
    split_ifs with hmask hcall
    · exact .inl ⟨⟨y, rfl, hmask, hcall⟩, rfl⟩
    · exact .inr ⟨fun z hz h => hcall (by cases hz; exact h.2), rfl⟩
    · exact .inr ⟨fun z hz h => hmask (by cases hz; exact h.1), rfl⟩

theorem fireObserver_seen (hcall : x.callback.isSome) (hmask : x.activities &&& activity ≠ 0)
    {w : World T} (hw : Entered a w) (hx : w.observers[o]? = some x) (obs : Ref) :
    seen o a (fireObserver frames callee a activity obs w).trace =
      if obs = o then [activity] else [] := by
  rcases fireObserver_cases activity obs w with ⟨-, hrun⟩ | ⟨hnot, hrun⟩ <;> rw [hrun]
  · have hbody : seen o a (callee (⟨a, .observer obs activity⟩ :: frames) (.observer obs activity)
        w.called).trace = [] := seen_other o a fun e he hown =>
      absurd ((hcallee _ w.called).later e he a hown) (Nat.not_le.mpr hw.id)
    rw [callback_apply]
    show seen o a ([_] ++ (_ ++ [_])) = _
    rw [seen_append, seen_append, hbody]
    by_cases hobs : obs = o
    · simp [seen, hobs]
    · simp [seen, hobs]
  · rw [if_neg]
    · rfl
    · rintro rfl
      exact hnot x hx ⟨hmask, hcall⟩

theorem each_seen (hcall : x.callback.isSome) (hmask : x.activities &&& activity ≠ 0)
    {refs : List Ref} (hnodup : refs.Nodup) {w : World T} (hw : Entered a w)
    (hx : w.observers[o]? = some x) :
    seen o a (each (fireObserver frames callee a activity) refs w).trace =
      if o ∈ refs then [activity] else [] := by
  induction refs generalizing w with
  | nil => rfl
  | cons obs rest ih =>
    obtain ⟨hnot, hrest⟩ := List.nodup_cons.mp hnodup
    have hkeeps : Keeps (fun w t w' => Entered a w → Inside a (fun _ => True) w t w')
        (RunLoop.callback frames callee a (.observer obs activity)) :=
      Inside.callback trivial (hcallee (.observer obs activity))
    have hstep := fireObserver_keeps (Inside.composes a fun _ => True) hkeeps w hw
    have hnext := ih hrest ⟨hstep.modeStack ▸ hw.top, Nat.lt_of_lt_of_le hw.id hstep.activations⟩
      (lookup_extended hstep.observers hx)
    have htrace : (each (fireObserver frames callee a activity) (obs :: rest) w).trace =
        (fireObserver frames callee a activity obs w).trace ++
          (each (fireObserver frames callee a activity) rest
            (fireObserver frames callee a activity obs w).state).trace := rfl
    rw [htrace, seen_append, hnext, fireObserver_seen hcallee hcall hmask hw hx]
    by_cases hobs : obs = o
    · subst hobs
      simp [hnot]
    · simp [hobs, Ne.symm hobs]

omit hcallee in
theorem World.observersOf_nodup (w : World T) (mode : String) : (w.observersOf mode).Nodup :=
  registry_nodup (w.rl.modes mode) (·.observers)

/-- A registered observer sees the activity once. -/
theorem fireObservers_seen (hcall : x.callback.isSome) (hmask : x.activities &&& activity ≠ 0)
    {w : World T} (hw : Entered a w) (hx : w.observers[o]? = some x)
    (hmem : o ∈ w.observersOf a.mode) :
    seen o a (fireObservers frames callee a activity w).trace = [activity] := by
  have htrace : (fireObservers frames callee a activity w).trace =
      [⟨frames, .fire a activity, w⟩] ++
        (each (fireObserver frames callee a activity) (w.observersOf a.mode) w).trace := rfl
  rw [htrace, seen_append, each_seen hcallee hcall hmask (w.observersOf_nodup a.mode) hw hx,
    if_pos hmem]
  rfl

/-- The three parts of an activation: the ENTRY observers, what is between, and
the EXIT observers. -/
theorem enterMode_inside (seconds : T) (returnAfterSource : Bool) {w : World T}
    (hid : a.id < w.activations) :
    let entry := fireObservers frames callee a K_CF_RUNLOOP_ENTRY (w.pushMode a.mode)
    let middle := sourcePhase frames callee a seconds returnAfterSource entry.state
    let exit := fireObservers frames callee a K_CF_RUNLOOP_EXIT middle.state
    Inside a (ObserverOf K_CF_RUNLOOP_ENTRY) (w.pushMode a.mode) entry.trace entry.state ∧
      Inside a Middle entry.state middle.trace middle.state ∧
      Inside a (ObserverOf K_CF_RUNLOOP_EXIT) middle.state exit.trace exit.state := by
  intro entry middle exit
  have hentry := fireObservers_inside hcallee K_CF_RUNLOOP_ENTRY (w.pushMode a.mode) ⟨rfl, hid⟩
  have hmiddle := sourcePhase_inside hcallee seconds returnAfterSource entry.state
    ⟨hentry.modeStack ▸ rfl, Nat.lt_of_lt_of_le hid hentry.activations⟩
  have hexit := fireObservers_inside hcallee K_CF_RUNLOOP_EXIT middle.state
    ⟨hmiddle.modeStack ▸ hentry.modeStack ▸ rfl,
      Nat.lt_of_lt_of_le hid (Nat.le_trans hentry.activations hmiddle.activations)⟩
  exact ⟨hentry, hmiddle, hexit⟩

end Activations

theorem cfRunLoopRunInMode_nested {frames : List Frame}
    {callee : List Frame → Invocation → Act T Unit}
    (hcallee : ∀ a inv, Keeps Nested (callee (⟨a, inv⟩ :: frames) inv)) (mode : CFRunLoopMode)
    (seconds : T) (returnAfterSource : Bool) :
    Keeps Nested (cfRunLoopRunInMode frames callee mode seconds returnAfterSource) := by
  intro w
  cases hstopped : w.rl.stopped with
  | true =>
    rw [cfRunLoopRunInMode_refused frames callee mode seconds returnAfterSource hstopped]
    refine ⟨rfl, Nat.le_succ _, List.prefix_rfl, ?_, ?_⟩
    · intro e he b inv hcall
      simp only [List.mem_cons, List.not_mem_nil, or_false] at he
      rcases he with rfl | rfl <;> cases hcall
    · intro e he b hb
      simp only [List.mem_cons, List.not_mem_nil, or_false] at he
      rcases he with rfl | rfl <;> cases hb <;> exact Nat.le_refl _
  | false =>
    rw [cfRunLoopRunInMode_entered frames callee mode seconds returnAfterSource hstopped,
      enterMode_apply]
    obtain ⟨hentry, hmiddle, hexit⟩ := enterMode_inside (hcallee ⟨w.activations, modeNameFromPtr mode⟩)
      seconds returnAfterSource (w := w.started mode) (Nat.lt_succ_self _)
    refine ⟨?_, ?_, ?_, ?_, ?_⟩
    · show List.tail _ = _
      rw [hexit.modeStack, hmiddle.modeStack, hentry.modeStack]
      rfl
    · exact Nat.le_trans (Nat.le_succ _) (Nat.le_trans hentry.activations
        (Nat.le_trans hmiddle.activations hexit.activations))
    · exact hentry.observers.trans (hmiddle.observers.trans hexit.observers)
    · intro e he
      simp only [List.mem_cons, List.mem_append, List.not_mem_nil, or_false] at he
      rcases he with rfl | he | he | he | rfl
      · exact fun _ _ h => nomatch h
      · exact hentry.onTop e he
      · exact hmiddle.onTop e he
      · exact hexit.onTop e he
      · exact fun _ _ h => nomatch h
    · intro e he b hb
      simp only [List.mem_cons, List.mem_append, List.not_mem_nil, or_false] at he
      rcases he with rfl | he | he | he | rfl
      · cases hb
        exact Nat.le_refl _
      · exact hentry.later e he b hb
      · exact hmiddle.later e he b hb
      · exact hexit.later e he b hb
      · cases hb
        exact Nat.le_refl _

theorem exec_nested (p : Prog T) (frames : List Frame) : Keeps Nested (exec p frames) := by
  refine exec_keeps (R := fun _ => Nested) (fun _ => Nested.composes) ?_ ?_ p frames
  · intro frames call w
    obtain ⟨hstack, hactivations, hobservers, -⟩ := w.perform_undisturbed call
    refine ⟨hstack, Nat.le_of_eq hactivations.symm, hobservers, ?_, ?_⟩
    · intro e he b inv hcall
      cases List.mem_singleton.mp he
      cases hcall
    · intro e he b hb
      cases List.mem_singleton.mp he
      cases hb
  · intro frames callee mode seconds returnAfterSource hcallee
    exact cfRunLoopRunInMode_nested hcallee mode seconds returnAfterSource

/-- The code that answers an activation's callbacks. -/
abbrev answers (callee : Invocation → World T → Prog T) : List Frame → Invocation → Act T Unit :=
  fun inner inv w => exec (callee inv w) inner w

theorem answers_nested (callee : Invocation → World T → Prog T) (frames : List Frame)
    (inv : Invocation) : Keeps Nested (answers callee frames inv) :=
  fun w => exec_nested (callee inv w) frames w

end Grafted.Cf.RunLoop

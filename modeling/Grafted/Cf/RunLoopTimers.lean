import Grafted.Cf.RunLoopRules

/-! Timers under re-entrancy.

The loop moves a timer's fire date when its callback has returned, so while the
callback runs the timer still looks due. A run of the loop in which no activation
lists a timer that is both in progress and due calls no timer that is in
progress, and calls a timer that does not repeat at most once
(`timer_callbacks_once`). The account is kept per step: the timers in progress
are frozen, and a timer called out of its turn is spent (`TimerStep`). -/
namespace Grafted.Cf.RunLoop
open Traced

variable {T : Type} [CFTime T]

def InProgress (t : Ref) (frames : List Frame) : Prop := ∃ f ∈ frames, f.invocation = .timer t

instance (t : Ref) (frames : List Frame) : Decidable (InProgress t frames) :=
  inferInstanceAs (Decidable (∃ f ∈ frames, f.invocation = .timer t))

/-- No listed timer is both in progress and due. -/
def Idle (frames : List Frame) (now : T) (timers : List Ref) (w : World T) : Prop :=
  ∀ t ∈ timers, InProgress t frames → ∀ x ∈ w.timers[t]?, CFTime.ge now x.fireDate = false

instance (frames : List Frame) (now : T) (timers : List Ref) (w : World T) :
    Decidable (Idle frames now timers w) :=
  inferInstanceAs (Decidable (∀ t ∈ timers, InProgress t frames →
    ∀ x ∈ w.timers[t]?, CFTime.ge now x.fireDate = false))

/-- The clock reading and the timers of an activation about to dispatch timers. -/
def Ev.listing (e : Ev T) : Option (T × List Ref) :=
  match e.what with
  | .listTimers _ now timers => some (now, timers)
  | _ => none

/-- If the event is an activation listing its timers, none of them is both in
progress and due. -/
def ListsIdle (e : Ev T) : Prop := ∀ l ∈ e.listing, Idle e.frames l.1 l.2 e.world

instance (e : Ev T) : Decidable (ListsIdle e) :=
  inferInstanceAs (Decidable (∀ l ∈ e.listing, Idle e.frames l.1 l.2 e.world))

def isCallOf (t : Ref) (e : Ev T) : Bool :=
  match e.what with
  | .call _ (.timer t') => t' = t
  | _ => false

/-- How often the callback of a timer was called. -/
def timerCalls (t : Ref) (trace : List (Ev T)) : Nat := trace.countP (isCallOf t)

theorem timerCalls_append (t : Ref) (l r : List (Ev T)) :
    timerCalls t (l ++ r) = timerCalls t l + timerCalls t r := List.countP_append

theorem timerCalls_cons (t : Ref) (e : Ev T) (r : List (Ev T)) :
    timerCalls t (e :: r) = timerCalls t [e] + timerCalls t r := timerCalls_append t [e] r

theorem timerCalls_eq_zero {t : Ref} {trace : List (Ev T)}
    (h : ∀ e ∈ trace, ∀ a, e.what ≠ .call a (.timer t)) : timerCalls t trace = 0 := by
  refine List.countP_eq_zero.mpr fun e he => ?_
  unfold isCallOf
  split
  · rename_i a t' hwhat
    have hne : t' ≠ t := fun heq => h e he a (heq ▸ hwhat)
    simpa using hne
  · exact Bool.false_ne_true

/-- What a piece of a run does to the timers, below the callbacks in progress. -/
structure TimerStep (frames : List Frame) (w : World T) (t : List (Ev T)) (w' : World T) : Prop where
  /-- A timer keeps its interval, and its fire date while it is in progress. -/
  kept : ∀ i x, w.timers[i]? = some x → ∃ y, w'.timers[i]? = some y ∧ y.interval = x.interval ∧
    (InProgress i frames → y.fireDate = x.fireDate)
  exist : ∀ i, 0 < timerCalls i t → i < w'.timers.length
  idle : ∀ e ∈ t, ∀ a i, e.what = .call a (.timer i) → ¬ InProgress i e.frames
  busy : ∀ i, InProgress i frames → timerCalls i t = 0
  /-- A timer that does not repeat is spent by its one call. -/
  once : ∀ i y, w'.timers[i]? = some y → CFTime.isPositive y.interval = false →
    timerCalls i t ≤ 1 ∧ (timerCalls i t = 1 → y.fireDate = CFTime.max) ∧
    ∀ x, w.timers[i]? = some x → x.fireDate = CFTime.max →
      timerCalls i t = 0 ∧ y.fireDate = CFTime.max

/-- A piece of a run that calls no timer, and only adds to the heap. -/
theorem TimerStep.quiet {frames : List Frame} {w w' : World T} {t : List (Ev T)}
    (htimers : w.timers <+: w'.timers) (hcalls : ∀ e ∈ t, ∀ a i, e.what ≠ .call a (.timer i)) :
    TimerStep frames w t w' := by
  obtain ⟨new, hnew⟩ := htimers
  have hzero : ∀ i, timerCalls i t = 0 := fun i =>
    timerCalls_eq_zero fun e he a => hcalls e he a i
  have hsame : ∀ i x, w.timers[i]? = some x → w'.timers[i]? = some x := fun i x hx => by
    rw [← hnew, List.getElem?_append_left (List.getElem?_eq_some_iff.mp hx).1, hx]
  refine ⟨fun i x hx => ⟨x, hsame i x hx, rfl, fun _ => rfl⟩, fun i hi => ?_,
    fun e he a i hcall => absurd hcall (hcalls e he a i), fun i _ => hzero i, fun i y hy _ => ?_⟩
  · rw [hzero] at hi
    exact absurd hi (Nat.lt_irrefl 0)
  · rw [hzero]
    refine ⟨Nat.zero_le 1, fun h => (nomatch h), fun x hx hmax => ⟨rfl, ?_⟩⟩
    cases (hsame i x hx).symm.trans hy
    exact hmax

theorem TimerStep.trans {frames : List Frame} {w u v : World T} {t t' : List (Ev T)}
    (h : TimerStep frames w t u) (h' : TimerStep frames u t' v) : TimerStep frames w (t ++ t') v := by
  refine ⟨?_, ?_, ?_, ?_, ?_⟩
  · intro i x hx
    obtain ⟨y, hy, hyx, hfrozen⟩ := h.kept i x hx
    obtain ⟨z, hz, hzy, hfrozen'⟩ := h'.kept i y hy
    exact ⟨z, hz, hzy.trans hyx, fun hi => (hfrozen' hi).trans (hfrozen hi)⟩
  · intro i hi
    rw [timerCalls_append] at hi
    by_cases hlater : 0 < timerCalls i t'
    · exact h'.exist i hlater
    · obtain ⟨y, hy⟩ : ∃ y, u.timers[i]? = some y :=
        ⟨_, List.getElem?_eq_getElem (h.exist i (by omega))⟩
      obtain ⟨z, hz, -⟩ := h'.kept i y hy
      exact (List.getElem?_eq_some_iff.mp hz).1
  · intro e he
    exact (List.mem_append.mp he).elim (h.idle e) (h'.idle e)
  · intro i hi
    rw [timerCalls_append, h.busy i hi, h'.busy i hi]
  · intro i z hz hpos
    rw [timerCalls_append]
    obtain ⟨hle', hspent', hmax'⟩ := h'.once i z hz hpos
    cases hu : u.timers[i]? with
    | none =>
      have hzero : timerCalls i t = 0 := by
        by_contra hne
        exact absurd (h.exist i (by omega)) (Nat.not_lt.mpr (List.getElem?_eq_none_iff.mp hu))
      rw [hzero, Nat.zero_add]
      refine ⟨hle', hspent', fun x hx => ?_⟩
      obtain ⟨y, hy, -⟩ := h.kept i x hx
      exact nomatch hu.symm.trans hy
    | some y =>
      obtain ⟨z', hz', hinterval, -⟩ := h'.kept i y hu
      cases hz.symm.trans hz'
      obtain ⟨hle, hspent, hmax⟩ := h.once i y hu (hinterval ▸ hpos)
      have hafter : y.fireDate = CFTime.max → timerCalls i t' = 0 ∧ z.fireDate = CFTime.max :=
        hmax' y hu
      refine ⟨?_, fun hone => ?_, fun x hx hxmax => ?_⟩
      · by_cases hone : timerCalls i t = 1
        · have := (hafter (hspent hone)).1
          omega
        · omega
      · by_cases hone' : timerCalls i t = 1
        · exact (hafter (hspent hone')).2
        · exact hspent' (by omega)
      · obtain ⟨hzero, hymax⟩ := hmax x hx hxmax
        obtain ⟨hzero', hzmax⟩ := hafter hymax
        exact ⟨by omega, hzmax⟩

/-! ### The account along the loop -/

/-- The timers in progress are there. -/
def FramesLive (frames : List Frame) (w : World T) : Prop :=
  ∀ i, InProgress i frames → i < w.timers.length

/-- From a world with `Pre`, a piece of a run whose listings are idle is a step. -/
def Accounted (Pre : World T → Prop) (frames : List Frame) (w : World T) (t : List (Ev T))
    (w' : World T) : Prop :=
  Pre w → (∀ e ∈ t, ListsIdle e) → TimerStep frames w t w'

theorem Accounted.composes {Pre : World T → Prop} {frames : List Frame}
    (hpre : ∀ {w t w'}, Pre w → TimerStep frames w t w' → Pre w') :
    Composes (Accounted Pre frames) where
  refl w _ _ := .quiet List.prefix_rfl fun _ h => (nomatch h)
  trans h h' hw ht := by
    have hstep := h hw fun e he => ht e (List.mem_append_left _ he)
    exact hstep.trans (h' (hpre hw hstep) fun e he => ht e (List.mem_append_right _ he))

theorem FramesLive.step {frames : List Frame} {w w' : World T} {t : List (Ev T)}
    (h : FramesLive frames w) (hstep : TimerStep frames w t w') : FramesLive frames w' := by
  intro i hi
  obtain ⟨y, hy, -⟩ := hstep.kept i _ (List.getElem?_eq_getElem (h i hi))
  exact (List.getElem?_eq_some_iff.mp hy).1

theorem Idle.step {frames : List Frame} {now : T} {timers : List Ref} {w w' : World T}
    {t : List (Ev T)} (h : Idle frames now timers w) (hlive : FramesLive frames w)
    (hstep : TimerStep frames w t w') : Idle frames now timers w' := by
  intro i hi hprogress y hy
  obtain ⟨y', hy', -, hfrozen⟩ := hstep.kept i _ (List.getElem?_eq_getElem (hlive i hprogress))
  cases hy.symm.trans hy'
  rw [hfrozen hprogress]
  exact h i hi hprogress _ (List.getElem?_eq_getElem (hlive i hprogress))

theorem Accounted.strengthen {Pre Pre' : World T → Prop} {frames : List Frame} {α : Type}
    {m : Act T α} (hpre : ∀ w, Pre' w → Pre w) (h : Keeps (Accounted Pre frames) m) :
    Keeps (Accounted Pre' frames) m :=
  fun w hw => h w (hpre w hw)

theorem Accounted.record {Pre : World T → Prop} {frames : List Frame} {what : What T}
    (hwhat : ∀ a i, what ≠ .call a (.timer i)) :
    Keeps (Accounted Pre frames) (RunLoop.record frames what) := by
  intro w _ _
  refine .quiet List.prefix_rfl fun e he a i => ?_
  cases List.mem_singleton.mp he
  exact hwhat a i

theorem Accounted.move {Pre : World T → Prop} {frames : List Frame} {f : World T → World T}
    (hf : ∀ w, w.timers <+: (f w).timers) : Keeps (Accounted Pre frames) (modify f) :=
  fun w _ _ => .quiet (hf w) fun _ h => (nomatch h)

theorem setFireDate_lookup (w : World T) (t : Ref) (date : T) (i : Ref) :
    (w.setFireDate t date).timers[i]? =
      if t = i then (w.timers[i]?).map ({· with fireDate := date}) else w.timers[i]? := by
  rw [World.setFireDate, List.getElem?_modify]
  split_ifs <;> simp

theorem inProgress_cons {i : Ref} {a : Activation} {inv : Invocation} {frames : List Frame} :
    InProgress i (⟨a, inv⟩ :: frames) ↔ inv = .timer i ∨ InProgress i frames := by
  simp only [InProgress, List.mem_cons, exists_eq_or_imp]

section Phases
variable {frames : List Frame} {callee : List Frame → Invocation → Act T Unit} {a : Activation}
  (hcallee : ∀ inv, Keeps (Accounted (FramesLive (⟨a, inv⟩ :: frames)) (⟨a, inv⟩ :: frames))
    (callee (⟨a, inv⟩ :: frames) inv))
include hcallee

/-- The callback of an observer or a source. -/
theorem callback_accounted {inv : Invocation} (hinv : ∀ i, inv ≠ .timer i) :
    Keeps (Accounted (FramesLive frames) frames) (callback frames callee a inv) := by
  intro w hlive hidle
  rw [callback_apply] at hidle ⊢
  have hsame : ∀ i, InProgress i (⟨a, inv⟩ :: frames) ↔ InProgress i frames := fun i =>
    inProgress_cons.trans (or_iff_right (hinv i))
  have hbody := hcallee inv w.called (fun i hi => hlive i ((hsame i).mp hi)) fun e he =>
    hidle e (List.mem_cons_of_mem _ (List.mem_append_left _ he))
  have hstep : TimerStep frames w.called _ _ :=
    ⟨fun i x hx => by simpa only [hsame] using hbody.kept i x hx, hbody.exist, hbody.idle,
      fun i hi => hbody.busy i ((hsame i).mpr hi), hbody.once⟩
  have hcall : TimerStep frames w [⟨frames, .call a inv, w.called⟩] w.called :=
    .quiet List.prefix_rfl fun e he b i hwhat => by
      cases List.mem_singleton.mp he
      cases hwhat
      exact hinv i rfl
  have hret : ∀ u : World T, TimerStep frames u [⟨frames, .ret a inv, u⟩] u := fun u =>
    .quiet List.prefix_rfl fun e he b i hwhat => by
      cases List.mem_singleton.mp he
      cases hwhat
  exact hcall.trans (hstep.trans (hret _))

omit hcallee in
/-- A listed timer is passed over, fired without a callback, or called. -/
theorem dispatchTimer_cases (returnAfterSource : Bool) (now : T) (t : Ref) (w : World T) :
    dispatchTimer frames callee a returnAfterSource now t w = ⟨false, w, []⟩ ∨
    ∃ x, w.timers[t]? = some x ∧ CFTime.ge now x.fireDate = true ∧
      (dispatchTimer frames callee a returnAfterSource now t w =
          ⟨returnAfterSource, w.setFireDate t (x.nextFireDate now), []⟩ ∨
        let r := callback frames callee a (.timer t) w
        dispatchTimer frames callee a returnAfterSource now t w =
          ⟨returnAfterSource, r.state.setFireDate t (x.nextFireDate now), r.trace⟩) := by
  cases hx : w.timers[t]? with
  | none =>
    refine .inl ?_
    simp only [dispatchTimer, bind_apply, read_apply, hx, pure_apply, List.append_nil]
  | some x =>
    have hrun : dispatchTimer frames callee a returnAfterSource now t w =
        (if CFTime.ge now x.fireDate then do
          if x.callback.isSome then callback frames callee a (.timer t)
          modify (·.setFireDate t (x.nextFireDate now))
          pure returnAfterSource
        else pure false : Act T Bool) w := by
      simp only [dispatchTimer, bind_apply, read_apply, hx, List.nil_append]
    rw [hrun]
    split_ifs with hdue hcallback
    · refine .inr ⟨x, rfl, hdue, .inr ?_⟩
      simp
    · exact .inr ⟨x, rfl, hdue, .inl rfl⟩
    · exact .inl rfl

/-- A due timer that is not in progress is called, and its fire date moved. -/
theorem timer_called {w : World T} {t : Ref} {now : T} {x : CFRunLoopTimerInner T}
    (hnow : CFTime.ge now CFTime.max = false) (hlive : FramesLive frames w)
    (hx : w.timers[t]? = some x) (hdue : CFTime.ge now x.fireDate = true)
    (hfree : ¬ InProgress t frames)
    (hidle : ∀ e ∈ (callback frames callee a (.timer t) w).trace, ListsIdle e) :
    TimerStep frames w (callback frames callee a (.timer t) w).trace
      ((callback frames callee a (.timer t) w).state.setFireDate t (x.nextFireDate now)) := by
  rw [callback_apply] at hidle ⊢
  have hframes : ∀ i, InProgress i (⟨a, .timer t⟩ :: frames) ↔ t = i ∨ InProgress i frames :=
    fun i => by rw [inProgress_cons, Invocation.timer.injEq]
  have hbody := hcallee (.timer t) w.called (fun i hi => by
    rcases (hframes i).mp hi with rfl | hi
    · exact (List.getElem?_eq_some_iff.mp hx).1
    · exact hlive i hi) fun e he =>
      hidle e (List.mem_cons_of_mem _ (List.mem_append_left _ he))
  generalize callee (⟨a, .timer t⟩ :: frames) (.timer t) w.called = body at hbody ⊢
  obtain ⟨y, hy, hinterval, -⟩ := hbody.kept t x hx
  have hcount : ∀ i, timerCalls i (⟨frames, .call a (.timer t), w.called⟩ ::
      (body.trace ++ [⟨frames, .ret a (.timer t), body.state⟩])) =
        (if t = i then 1 else 0) + timerCalls i body.trace := fun i => by
    rw [timerCalls_cons, timerCalls_append]
    by_cases hi : t = i <;> simp [timerCalls, isCallOf, hi]
  have hself : timerCalls t body.trace = 0 := hbody.busy t ((hframes t).mpr (.inl rfl))
  have hset := setFireDate_lookup body.state t (x.nextFireDate now)
  refine ⟨fun i z hz => ?_, fun i hi => ?_, fun e he b i hcall => ?_, fun i hi => ?_,
    fun i z hz hpos => ?_⟩
  · obtain ⟨z', hz', hzi, hfrozen⟩ := hbody.kept i z hz
    rw [hset, hz']
    by_cases hi : t = i
    · subst hi
      exact ⟨_, if_pos rfl, hzi, fun h => absurd h hfree⟩
    · exact ⟨z', if_neg hi, hzi, fun h => hfrozen ((hframes i).mpr (.inr h))⟩
  · rw [hcount] at hi
    have hlt : i < body.state.timers.length := by
      by_cases heq : t = i
      · subst heq
        exact (List.getElem?_eq_some_iff.mp hy).1
      · rw [if_neg heq, Nat.zero_add] at hi
        exact hbody.exist i hi
    rwa [World.setFireDate, List.length_modify]
  · rcases List.mem_cons.mp he with rfl | he
    · cases hcall
      exact hfree
    rcases List.mem_append.mp he with he | he
    · exact hbody.idle e he b i hcall
    · cases List.mem_singleton.mp he
      cases hcall
  · have hne : t ≠ i := fun heq => hfree (heq ▸ hi)
    rw [hcount, if_neg hne, hbody.busy i ((hframes i).mpr (.inr hi))]
  · rw [hcount]
    rw [hset] at hz
    by_cases heq : t = i
    · subst heq
      rw [if_pos rfl, hy] at hz
      cases hz
      rw [if_pos rfl, hself]
      refine ⟨Nat.le_refl 1, fun _ => ?_, fun z' hz' hmax => ?_⟩
      · have hstays : CFTime.isPositive x.interval = false := hinterval ▸ hpos
        simp only [CFRunLoopTimerInner.nextFireDate, hstays, Bool.false_eq_true, if_false]
      · cases hx.symm.trans hz'
        rw [hmax, hnow] at hdue
        exact nomatch hdue
    · rw [if_neg heq] at hz ⊢
      rw [Nat.zero_add]
      exact hbody.once i z hz hpos

omit hcallee in
/-- A due timer without a callback has its fire date moved. -/
theorem timer_moved {w : World T} {t : Ref} {now : T} {x : CFRunLoopTimerInner T}
    (hnow : CFTime.ge now CFTime.max = false) (hx : w.timers[t]? = some x)
    (hdue : CFTime.ge now x.fireDate = true) (hfree : ¬ InProgress t frames) :
    TimerStep frames w [] (w.setFireDate t (x.nextFireDate now)) := by
  have hset := setFireDate_lookup w t (x.nextFireDate now)
  refine ⟨fun i z hz => ?_, fun i hi => absurd hi (Nat.lt_irrefl 0), fun e he => (nomatch he),
    fun _ _ => rfl, fun i z hz _ => ⟨Nat.zero_le 1, fun h => (nomatch h), fun z' hz' hmax =>
      ⟨rfl, ?_⟩⟩⟩
  · rw [hset, hz]
    by_cases hi : t = i
    · subst hi
      exact ⟨_, if_pos rfl, rfl, fun h => absurd h hfree⟩
    · exact ⟨z, if_neg hi, rfl, fun _ => rfl⟩
  · rw [hset] at hz
    by_cases hi : t = i
    · subst hi
      cases hx.symm.trans hz'
      rw [hmax, hnow] at hdue
      exact nomatch hdue
    · rw [if_neg hi, hz'] at hz
      cases hz
      exact hmax

theorem dispatchTimer_accounted {now : T} (hnow : CFTime.ge now CFTime.max = false)
    {timers : List Ref} {t : Ref} (ht : t ∈ timers) (returnAfterSource : Bool) :
    Keeps (Accounted (fun w => FramesLive frames w ∧ Idle frames now timers w) frames)
      (dispatchTimer frames callee a returnAfterSource now t) := by
  intro w ⟨hlive, hready⟩ hidle
  rcases @dispatchTimer_cases _ _ frames callee a returnAfterSource now t w with hrun | ⟨x, hx, hdue, hrun⟩
  · rw [hrun]
    exact .quiet List.prefix_rfl fun _ h => (nomatch h)
  have hfree : ¬ InProgress t frames := fun h => by
    rw [hready t ht h x hx] at hdue
    exact nomatch hdue
  rcases hrun with hrun | hrun
  · rw [hrun]
    exact timer_moved hnow hx hdue hfree
  · rw [hrun] at hidle ⊢
    exact timer_called hcallee hnow hlive hx hdue hfree hidle

theorem fireObservers_accounted (activity : BitVec 64) :
    Keeps (Accounted (FramesLive frames) frames) (fireObservers frames callee a activity) :=
  fireObservers_keeps (Accounted.composes FramesLive.step) (Accounted.record fun _ _ h => nomatch h)
    fun _ => callback_accounted hcallee fun _ h => nomatch h

theorem waitPhase_accounted (seconds : T) :
    Keeps (Accounted (FramesLive frames) frames) (waitPhase frames callee a seconds) :=
  waitPhase_keeps (Accounted.composes FramesLive.step)
    (fun _ hnote => Accounted.record fun _ _ h => by rw [h] at hnote; cases hnote)
    (fun activity _ => fireObservers_accounted hcallee activity)
    (Accounted.move fun _ => List.prefix_rfl)

/-- What follows the listing of the timers in an activation. -/
theorem timersListed_accounted (now : T) (hnow : CFTime.ge now CFTime.max = false)
    (timers : List Ref) (seconds : T) (returnAfterSource : Bool) :
    Keeps (Accounted (fun w => FramesLive frames w ∧ Idle frames now timers w) frames) (do
      fireObservers frames callee a K_CF_RUNLOOP_BEFORE_TIMERS
      let handled ← untilTrue (dispatchTimer frames callee a returnAfterSource now) timers
      if handled then handledSource frames a else waitPhase frames callee a seconds) := by
  have hcomposes : Composes (Accounted (T := T)
      (fun w => FramesLive frames w ∧ Idle frames now timers w) frames) :=
    Accounted.composes fun h hstep => ⟨h.1.step hstep, h.2.step h.1 hstep⟩
  refine Keeps.bind hcomposes (Accounted.strengthen (fun _ h => h.1) (fireObservers_accounted hcallee _))
    fun _ => Keeps.bind hcomposes
      (Keeps.untilTrue hcomposes fun t ht => dispatchTimer_accounted hcallee hnow ht returnAfterSource)
    fun handled => ?_
  cases handled with
  | true =>
    exact handledSource_keeps hcomposes fun _ hnote =>
      Accounted.record fun _ _ h => by rw [h] at hnote; cases hnote
  | false => exact Accounted.strengthen (fun _ h => h.1) (waitPhase_accounted hcallee seconds)

theorem timerPhase_accounted (seconds : T) (returnAfterSource : Bool) :
    Keeps (Accounted (FramesLive frames) frames)
      (timerPhase frames callee a seconds returnAfterSource) := by
  intro w hlive hidle
  let w' : World T := w.currentAbsoluteTime.1
  let listing : Ev T := ⟨frames, .listTimers a w.currentAbsoluteTime.2 (w'.timersOf a.mode), w'⟩
  have hlist : TimerStep frames w [listing] w' := .quiet List.prefix_rfl fun e he b i h => by
    cases List.mem_singleton.mp he
    cases h
  have hready : Idle frames w.currentAbsoluteTime.2 (w'.timersOf a.mode) w' :=
    hidle listing List.mem_cons_self _ rfl
  exact hlist.trans (timersListed_accounted hcallee _ (w.clock.below_max _) _ seconds
    returnAfterSource w' ⟨hlive, hready⟩ fun e he => hidle e (List.mem_cons_of_mem _ he))

theorem enterMode_accounted (seconds : T) (returnAfterSource : Bool) :
    Keeps (Accounted (FramesLive frames) frames)
      (enterMode frames callee a seconds returnAfterSource) := by
  have hcomposes : Composes (Accounted (T := T) (FramesLive frames) frames) :=
    Accounted.composes FramesLive.step
  have hnote : ∀ what : What T, Note a what →
      Keeps (Accounted (FramesLive frames) frames) (record frames what) := fun _ hnote =>
    Accounted.record fun _ _ h => by rw [h] at hnote; cases hnote
  have hfire := fireObservers_accounted hcallee
  refine Keeps.bind hcomposes (Accounted.move fun _ => List.prefix_rfl) fun _ =>
    Keeps.bind hcomposes (hfire _) fun _ => Keeps.bind hcomposes ?_ fun result =>
    Keeps.bind hcomposes (hfire _) fun _ =>
    Keeps.bind hcomposes (Accounted.move fun _ => List.prefix_rfl) fun _ =>
    Keeps.bind hcomposes (Accounted.record fun _ _ h => nomatch h) fun _ => Keeps.pure hcomposes _
  exact sourcePhase_keeps hcomposes hnote (fun activity _ => hfire activity)
    (fun src => dispatchSource_keeps hcomposes (Accounted.move fun _ => List.prefix_rfl)
      (callback_accounted hcallee fun _ h => nomatch h))
    (timerPhase_accounted hcallee seconds returnAfterSource)

end Phases

theorem exec_accounted (p : Prog T) (frames : List Frame) :
    Keeps (Accounted (FramesLive frames) frames) (exec p frames) := by
  refine exec_keeps (R := fun frames => Accounted (FramesLive frames) frames)
    (fun _ => Accounted.composes FramesLive.step) ?_ ?_ p frames
  · intro frames call w _ _
    refine .quiet (w.perform_undisturbed call).timers fun e he a i h => ?_
    cases List.mem_singleton.mp he
    cases h
  · intro frames callee mode seconds returnAfterSource hcallee
    have hcomposes : Composes (Accounted (T := T) (FramesLive frames) frames) :=
      Accounted.composes FramesLive.step
    refine Keeps.bind hcomposes (Keeps.read hcomposes _) fun id =>
      Keeps.bind hcomposes (Accounted.record fun _ _ h => nomatch h) fun _ =>
      Keeps.bind hcomposes (Accounted.move fun _ => List.prefix_rfl) fun _ =>
      Keeps.bind hcomposes (Keeps.read hcomposes _) fun stopped => ?_
    cases stopped with
    | true =>
      exact Keeps.bind hcomposes (Accounted.move fun _ => List.prefix_rfl) fun _ =>
        Keeps.bind hcomposes (Accounted.record fun _ _ h => nomatch h) fun _ =>
        Keeps.pure hcomposes _
    | false => exact enterMode_accounted (hcallee _) seconds returnAfterSource

/-- **Timer callbacks, one at a time and once.** In a run in which no activation
lists a timer that is in progress and due, no timer is called while it is in
progress, and one that does not repeat is called at most once. -/
theorem timer_callbacks_once (p : Prog T) (clock : Clock T)
    (h : ∀ e ∈ (exec p [] (World.new clock)).trace, ListsIdle e) :
    (∀ e ∈ (exec p [] (World.new clock)).trace, ∀ a t, e.what = .call a (.timer t) →
      ¬ InProgress t e.frames) ∧
    ∀ t x, (exec p [] (World.new clock)).state.timers[t]? = some x →
      CFTime.isPositive x.interval = false →
      timerCalls t (exec p [] (World.new clock)).trace ≤ 1 := by
  have hstep := exec_accounted p [] (World.new clock) (fun _ hi => by simp [InProgress] at hi) h
  exact ⟨hstep.idle, fun t x hx hpos => (hstep.once t x hx hpos).1⟩

/-- A thread that adds a timer that does not repeat to the default mode and runs
it; the first time the timer fires, its callback runs the loop in `inner`. -/
def timerThread (inner : CFRunLoopMode) : Prog Nat :=
  .api (.timerCreate 0 0 (some 1)) fun _ =>
  .api (.addTimer true (some 0) none) fun _ =>
  .run none 0 false (fun inv w =>
    if inv = .timer 0 ∧ w.activations = 1 then
      .run inner 0 false (fun _ _ => .done) fun _ => .done
    else .done) fun _ => .done

/-- The callback may run the loop in a mode without its timer. -/
theorem timer_callbacks_once_tracking :
    timerCalls 0 (exec (timerThread (asPtr NSEventTrackingRunLoopMode)) [] (World.new midnight)).trace ≤ 1 := by
  have hinterval : (exec (timerThread (asPtr NSEventTrackingRunLoopMode)) []
      (World.new midnight)).state.timers[0]?.map (·.interval) = some 0 := by decide +kernel
  obtain ⟨x, hx, hzero⟩ := Option.map_eq_some_iff.mp hinterval
  have hpos : CFTime.isPositive x.interval = false := by
    rw [hzero]
    rfl
  exact (timer_callbacks_once (timerThread (asPtr NSEventTrackingRunLoopMode)) midnight (by decide +kernel)).2
    0 x hx hpos

/-- A callback that runs the loop in its own mode is called again. -/
theorem timer_called_again :
    ¬ ∀ (p : Prog Nat) (clock : Clock Nat),
      (∀ e ∈ (exec p [] (World.new clock)).trace, ∀ a t, e.what = .call a (.timer t) →
        ¬ InProgress t e.frames) ∧
      ∀ t x, (exec p [] (World.new clock)).state.timers[t]? = some x →
        CFTime.isPositive x.interval = false →
        timerCalls t (exec p [] (World.new clock)).trace ≤ 1 := by
  intro h
  have hinterval : (exec (timerThread none) [] (World.new midnight)).state.timers[0]?.map (·.interval) =
      some 0 := by decide +kernel
  obtain ⟨x, hx, hzero⟩ := Option.map_eq_some_iff.mp hinterval
  have hpos : CFTime.isPositive x.interval = false := by
    rw [hzero]
    rfl
  exact absurd ((h (timerThread none) midnight).2 0 x hx hpos) (by decide +kernel)

end Grafted.Cf.RunLoop

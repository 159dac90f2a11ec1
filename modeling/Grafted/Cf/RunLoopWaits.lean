import Grafted.Cf.RunLoopStop

/-! Stops, and waits without end.

A thread in a wait with a negative timeout stays there, and with it every activation
in progress. So what a run does with its stops is told up to any event of it
(`StopsUpTo`), the activations in progress there left out, and with that a stop is
answered in every run whose stops are in time and that comes to no such wait where
one was issued (`stop_answered`). `CFRunLoopRun` waits like that in every turn, and
so comes back only where a stop was there before it (`cfRunLoopRun_stays`). -/
namespace Grafted.Cf.RunLoop
open Traced

variable {T : Type} [CFTime T]

/-! ### Up to an event -/

/-- The event is the activation's own, or inside one of its callbacks. -/
def InProgressAt (b : Activation) (e : Ev T) : Prop :=
  e.what.activation = some b ∨ ∃ f ∈ e.frames, f.activation = b

/-- `Answered`, for the piece of a run that came before the event `e`. -/
structure AnsweredBefore (i : Option Activation) (e : Ev T) (t : List (Ev T)) : Prop where
  answered : ∀ b, StopFrom (some b) t → some b = i ∨ InProgressAt b e ∨
    ∃ x ∈ t, x.what = .leave b K_CF_RUNLOOP_RUN_STOPPED
  left : ∀ x ∈ t, ∀ b, x.what = .leave b K_CF_RUNLOOP_RUN_STOPPED → StopFrom (some b) t
  consumed : ∀ x ∈ t, ∀ b result, x.what = .leave b result → x.world.rl.stopped = false
  refused : ∀ x ∈ t, ∀ b, x.what = .refuse b → i = none ∧ x.frames = []

theorem Answered.before {i : Option Activation} {Q : List Frame → Prop} {w w' : World T}
    {t : List (Ev T)} (h : Answered i Q w t w') (e : Ev T) : AnsweredBefore i e t :=
  ⟨fun b hb => (h.answered b hb).imp_right .inr, h.left, h.consumed, h.refused⟩

theorem AnsweredBefore.append {i : Option Activation} {e : Ev T} {t t' : List (Ev T)}
    (h : AnsweredBefore i e t) (h' : AnsweredBefore i e t') : AnsweredBefore i e (t ++ t') := by
  refine ⟨fun b hb => ?_, fun x hx b hleave => ?_, fun x hx => ?_, fun x hx => ?_⟩
  · rcases StopFrom.append.mp hb with hb | hb
    · exact (h.answered b hb).imp_right fun hb => hb.imp_right fun ⟨x, hx, hleave⟩ =>
        ⟨x, List.mem_append_left _ hx, hleave⟩
    · exact (h'.answered b hb).imp_right fun hb => hb.imp_right fun ⟨x, hx, hleave⟩ =>
        ⟨x, List.mem_append_right _ hx, hleave⟩
  · rcases List.mem_append.mp hx with hx | hx
    · exact StopFrom.append.mpr (.inl (h.left x hx b hleave))
    · exact StopFrom.append.mpr (.inr (h'.left x hx b hleave))
  · exact (List.mem_append.mp hx).elim (h.consumed x) (h'.consumed x)
  · exact (List.mem_append.mp hx).elim (h.refused x) (h'.refused x)

theorem AnsweredBefore.quiet {i : Option Activation} {e : Ev T} {t : List (Ev T)}
    (ht : ∀ x ∈ t, Neutral x.what) : AnsweredBefore i e t where
  answered b hb := by
    obtain ⟨x, hx, hstop, -⟩ := hb
    exact absurd hstop ((ht x hx).1 _)
  left x hx b hleave := absurd hleave ((ht x hx).2.1 b _)
  consumed x hx b result hleave := absurd hleave ((ht x hx).2.1 b result)
  refused x hx b hrefuse := absurd hrefuse ((ht x hx).2.2 b)

/-- Seen from outside an activation in progress. -/
theorem AnsweredBefore.outer {a : Activation} {e : Ev T} {t : List (Ev T)}
    (h : AnsweredBefore (some a) e t) (he : InProgressAt a e) (i : Option Activation) :
    AnsweredBefore i e t ∧ ∀ x ∈ t, ∀ b, x.what ≠ .refuse b := by
  have hnone : ∀ x ∈ t, ∀ b, x.what ≠ .refuse b := fun x hx b hrefuse =>
    Option.some_ne_none a (h.refused x hx b hrefuse).1
  refine ⟨⟨fun b hb => .inr ?_, h.left, h.consumed, fun x hx b hrefuse =>
    absurd hrefuse (hnone x hx b)⟩, hnone⟩
  refine (h.answered b hb).elim (fun hself => .inl ?_) id
  cases hself
  exact he

/-- A piece of an activation: all in it is the activation's, and where its stops are
in time up to an event, they are answered up to it. -/
structure Piece (a : Activation) (w : World T) (t : List (Ev T)) (w' : World T) : Prop where
  inside : ∀ e ∈ t, InProgressAt a e
  whole : Known (some a) w → (∀ e ∈ t, stopsInTime e = true) →
    Answered (some a) (fun _ => True) w t w'
  before : Known (some a) w → ∀ {done e rest}, t = done ++ e :: rest →
    (∀ x ∈ done, stopsInTime x = true) → AnsweredBefore (some a) e done

theorem Piece.composes (a : Activation) : Composes (Piece (T := T) a) where
  refl w := by
    have hquiet : StopStep (some a) (fun _ => True) w [] w :=
      .quiet rfl (Nat.le_refl _) fun _ h => (nomatch h)
    exact ⟨fun _ h => (nomatch h), fun _ _ => hquiet.toAnswered, fun _ _ _ _ ht => by simp at ht⟩
  trans {w u v t t'} h h' := by
    have hknown : Known (some a) w → (∀ e ∈ t, stopsInTime e = true) → Known (some a) u :=
      fun hw ht => hw.mono (h.whole hw ht).activations
    refine ⟨fun e he => (List.mem_append.mp he).elim (h.inside e) (h'.inside e), fun hw ht => ?_,
      fun hw {done e rest} hsplit hdone => ?_⟩
    · have hfirst : ∀ e ∈ t, stopsInTime e = true := fun e he => ht e (List.mem_append_left _ he)
      exact (h.whole hw hfirst).append
        (h'.whole (hknown hw hfirst) fun e he => ht e (List.mem_append_right _ he))
    · rcases split_append hsplit with ⟨rest', ht, -⟩ | ⟨done', rfl, ht'⟩
      · exact h.before hw ht hdone
      · have hfirst : ∀ e ∈ t, stopsInTime e = true := fun e he =>
          hdone e (List.mem_append_left _ he)
        exact ((h.whole hw hfirst).before e).append
          (h'.before (hknown hw hfirst) ht' fun x hx => hdone x (List.mem_append_right _ hx))

theorem Piece.record {a : Activation} (frames : List Frame) {what : What T} (h : Neutral what)
    (hown : what.activation = some a) : Keeps (Piece a) (RunLoop.record frames what) := by
  intro w
  have hneutral : ∀ e ∈ [(⟨frames, what, w⟩ : Ev T)], Neutral e.what := by
    intro e he
    cases List.mem_singleton.mp he
    exact h
  have hquiet : StopStep (some a) (fun _ => True) w [(⟨frames, what, w⟩ : Ev T)] w :=
    .quiet rfl (Nat.le_refl _) hneutral
  refine ⟨fun e he => ?_, fun _ _ => hquiet.toAnswered, fun _ {done e rest} hsplit _ => ?_⟩
  · cases List.mem_singleton.mp he
    exact .inl hown
  · refine .quiet fun x hx => hneutral x ?_
    show x ∈ (RunLoop.record frames what w).trace
    rw [hsplit]
    exact List.mem_append_left _ hx

theorem Piece.move {a : Activation} {f : World T → World T}
    (hf : ∀ w, w.activations = (f w).activations) : Keeps (Piece a) (modify f) := by
  intro w
  have hempty := (Piece.composes a).refl w
  refine ⟨hempty.inside, fun hw ht => ?_, hempty.before⟩
  exact { hempty.whole hw ht with activations := Nat.le_of_eq (hf w) }

/-- Code that runs under `frames`: `Stops`, and what it has done when it comes to an event. -/
structure StopsUpTo (frames : List Frame) (w : World T) (t : List (Ev T)) (w' : World T) :
    Prop where
  stops : Stops (issuer frames) (· = frames) w t w'
  within : ∀ e ∈ t, frames <:+ e.frames
  before : Known (issuer frames) w → ∀ {done e rest}, t = done ++ e :: rest →
    (∀ x ∈ done, stopsInTime x = true) → AnsweredBefore (issuer frames) e done ∧
      ∀ x ∈ done, ∀ b, x.what = .refuse b → w.rl.stopped = true ∨ StopFrom (issuer frames) done

theorem StopsUpTo.composes (frames : List Frame) : Composes (StopsUpTo (T := T) frames) where
  refl w := ⟨(Stops.composes _ _).refl w, fun _ h => (nomatch h), fun _ _ _ _ ht => by simp at ht⟩
  trans {w u v t t'} h h' := by
    refine ⟨(Stops.composes _ _).trans h.stops h'.stops,
      fun e he => (List.mem_append.mp he).elim (h.within e) (h'.within e),
      fun hw {done e rest} hsplit hdone => ?_⟩
    rcases split_append hsplit with ⟨rest', ht, -⟩ | ⟨done', rfl, ht'⟩
    · exact h.before hw ht hdone
    · have hstep := h.stops hw fun x hx => hdone x (List.mem_append_left _ hx)
      obtain ⟨hrest, hfor⟩ := h'.before (hw.mono hstep.activations) ht' fun x hx =>
        hdone x (List.mem_append_right _ hx)
      refine ⟨(hstep.before e).append hrest, fun x hx b hrefuse => ?_⟩
      rw [StopFrom.append, ← or_assoc]
      rcases List.mem_append.mp hx with hx | hx
      · exact .inl (hstep.refusedFor x hx b hrefuse)
      · exact (hfor x hx b hrefuse).imp_left hstep.flag

/-- A callback, from what its code does. -/
theorem callback_piece {frames : List Frame} {callee : List Frame → Invocation → Act T Unit}
    {a : Activation} {inv : Invocation}
    (hcallee : Keeps (StopsUpTo (⟨a, inv⟩ :: frames)) (callee (⟨a, inv⟩ :: frames) inv)) :
    Keeps (Piece a) (callback frames callee a inv) := by
  have hbody : Keeps (Piece a) (callee (⟨a, inv⟩ :: frames) inv) := by
    intro w
    obtain ⟨hstops, hwithin, hbefore⟩ := hcallee w
    refine ⟨fun e he => .inr ⟨⟨a, inv⟩, (hwithin e he).subset List.mem_cons_self, rfl⟩,
      fun hw ht => ((hstops hw ht).weaken fun _ _ => trivial).toAnswered,
      fun hw {done e rest} ht hdone => (hbefore hw ht hdone).1⟩
  have hB := Piece.composes (T := T) a
  have hcall : Neutral (T := T) (.call a inv) :=
    ⟨fun _ h => (nomatch h), fun _ _ h => (nomatch h), fun _ h => (nomatch h)⟩
  have hret : Neutral (T := T) (.ret a inv) :=
    ⟨fun _ h => (nomatch h), fun _ _ h => (nomatch h), fun _ h => (nomatch h)⟩
  exact Keeps.bind hB (Piece.move fun _ => rfl) fun _ =>
    Keeps.bind hB (Piece.record frames hcall rfl) fun _ => Keeps.bind hB hbody fun _ =>
      Piece.record frames hret rfl

/-- The firings and the phases of an activation. -/
theorem phases_piece {frames : List Frame} {callee : List Frame → Invocation → Act T Unit}
    {a : Activation}
    (hcallee : ∀ inv, Keeps (StopsUpTo (⟨a, inv⟩ :: frames)) (callee (⟨a, inv⟩ :: frames) inv))
    (seconds : T) (returnAfterSource : Bool) :
    (∀ activity, Keeps (Piece a) (fireObservers frames callee a activity)) ∧
      Keeps (Piece a) (sourcePhase frames callee a seconds returnAfterSource) := by
  have hB := Piece.composes (T := T) a
  have hmark : ∀ what : What T, Mark a what → Keeps (Piece a) (record frames what) :=
    fun what h => Piece.record frames h.neutral (by cases h <;> rfl)
  have hfire : ∀ activity, Keeps (Piece a) (fireObservers frames callee a activity) :=
    fun activity => fireObservers_keeps hB (hmark _ (.fire activity)) fun o =>
      callback_piece (hcallee (.observer o activity))
  refine ⟨hfire, sourcePhase_keeps_firings hB (fun what h => hmark what h.mark) ?_ hfire
    (fun inv _ => callback_piece (hcallee inv)) seconds returnAfterSource⟩
  intro f hf
  cases hf <;> exact Piece.move fun _ => rfl

/-- What an activation that was entered has done when it comes to an event. -/
theorem enterMode_before {frames : List Frame} {callee : List Frame → Invocation → Act T Unit}
    {a : Activation}
    (hcallee : ∀ inv, Keeps (StopsUpTo (⟨a, inv⟩ :: frames)) (callee (⟨a, inv⟩ :: frames) inv))
    (seconds : T) (returnAfterSource : Bool) {w : World T} (hw : Known (some a) w)
    {done rest : List (Ev T)} {e : Ev T}
    (ht : (enterMode frames callee a seconds returnAfterSource w).trace = done ++ e :: rest)
    (hdone : ∀ x ∈ done, stopsInTime x = true) :
    InProgressAt a e ∧ AnsweredBefore (some a) e done := by
  obtain ⟨hfire, hphase⟩ := phases_piece hcallee seconds returnAfterSource
  have hB := Piece.composes (T := T) a
  have hinner := hB.trans (hB.trans (hfire K_CF_RUNLOOP_ENTRY (w.pushMode a.mode)) (hphase _))
    (hfire K_CF_RUNLOOP_EXIT _)
  rw [enterMode_apply] at ht
  dsimp only at ht
  rw [← List.append_assoc, ← List.append_assoc] at ht
  rcases split_append ht with ⟨rest', hin, -⟩ | ⟨done', rfl, hlast⟩
  · refine ⟨hinner.inside e ?_, hinner.before hw hin hdone⟩
    rw [hin]
    exact List.mem_append_right _ List.mem_cons_self
  · rcases List.singleton_eq_append_iff.mp hlast with ⟨rfl, h⟩ | ⟨-, h⟩
    · obtain ⟨rfl, -⟩ := List.cons.inj h
      rw [List.append_nil] at hdone ⊢
      exact ⟨.inl rfl, (hinner.whole hw hdone).before _⟩
    · exact nomatch h

/-- Before its first event nothing has been done, and before the second it was only started. -/
theorem started_before {frames : List Frame} {a : Activation} {w : World T}
    {e : Ev T} {t done rest : List (Ev T)} (ht : ⟨frames, .start a, w⟩ :: t = done ++ e :: rest) :
    done = [] ∨ ∃ done', done = ⟨frames, .start a, w⟩ :: done' ∧ t = done' ++ e :: rest := by
  cases done with
  | nil => exact .inl rfl
  | cons x done' =>
    obtain ⟨rfl, h⟩ := List.cons.inj ht
    exact .inr ⟨done', rfl, h⟩

theorem cfRunLoopRunInMode_upTo {frames : List Frame}
    {callee : List Frame → Invocation → Act T Unit}
    (hcallee : ∀ a inv, Keeps (StopsUpTo (⟨a, inv⟩ :: frames)) (callee (⟨a, inv⟩ :: frames) inv))
    (mode : CFRunLoopMode) (seconds : T) (returnAfterSource : Bool) :
    Keeps (StopsUpTo frames) (cfRunLoopRunInMode frames callee mode seconds returnAfterSource) := by
  have hstops : Keeps (Stops (issuer frames) (· = frames))
      (cfRunLoopRunInMode frames callee mode seconds returnAfterSource) :=
    cfRunLoopRunInMode_stops (fun a inv w => (hcallee a inv w).stops) mode seconds returnAfterSource
  have hwithin : Keeps (fun (_ : World T) (t : List (Ev T)) _ => ∀ e ∈ t, frames <:+ e.frames)
      (cfRunLoopRunInMode frames callee mode seconds returnAfterSource) :=
    cfRunLoopRunInMode_keeps (Composes.events _)
      (fun what _ w e he => by
        cases List.mem_singleton.mp he
        exact List.suffix_rfl)
      (fun _ _ _ _ he => nomatch he)
      (fun a inv w e he => (List.suffix_cons _ frames).trans ((hcallee a inv w).within e he))
      mode seconds returnAfterSource
  intro w
  refine ⟨hstops w, hwithin w, fun hw {done e rest} ht hdone => ?_⟩
  set a : Activation := ⟨w.activations, modeNameFromPtr mode⟩
  have hstart : ∀ x ∈ [(⟨frames, .start a, w⟩ : Ev T)], Neutral x.what := by
    intro x hx
    cases List.mem_singleton.mp hx
    exact ⟨fun _ h => (nomatch h), fun _ _ h => (nomatch h), fun _ h => (nomatch h)⟩
  cases hstopped : w.rl.stopped with
  | true =>
    rw [cfRunLoopRunInMode_refused frames callee mode seconds returnAfterSource hstopped] at ht
    rcases started_before ht with rfl | ⟨done', rfl, hrest⟩
    · exact ⟨.quiet fun _ h => (nomatch h), fun _ h => (nomatch h)⟩
    · rcases List.singleton_eq_append_iff.mp hrest with ⟨rfl, -⟩ | ⟨-, h⟩
      · exact ⟨.quiet hstart, fun _ _ _ _ => .inl rfl⟩
      · exact nomatch h
  | false =>
    rw [cfRunLoopRunInMode_entered frames callee mode seconds returnAfterSource hstopped] at ht
    rcases started_before ht with rfl | ⟨done', rfl, hrest⟩
    · exact ⟨.quiet fun _ h => (nomatch h), fun _ h => (nomatch h)⟩
    · obtain ⟨hin, hinner⟩ := enterMode_before (hcallee a) seconds returnAfterSource
        (fun b hb => by cases hb; exact Nat.lt_succ_self _) hrest
        fun x hx => hdone x (List.mem_cons_of_mem _ hx)
      obtain ⟨houter, hnone⟩ := hinner.outer hin (issuer frames)
      refine ⟨(AnsweredBefore.quiet hstart).append houter, fun x hx b hrefuse => ?_⟩
      rcases List.mem_cons.mp hx with rfl | hx
      · exact nomatch hrefuse
      · exact absurd hrefuse (hnone x hx b)

theorem exec_upTo (p : Prog T) (frames : List Frame) :
    Keeps (StopsUpTo frames) (exec p frames) := by
  refine exec_keeps (R := StopsUpTo) StopsUpTo.composes ?_
    (fun _ _ mode seconds returnAfterSource hcallee =>
      cfRunLoopRunInMode_upTo hcallee mode seconds returnAfterSource) p frames
  intro frames call w
  refine ⟨fun _ _ => api_step frames call w, fun e he => ?_, fun _ {done e rest} ht _ => ?_⟩
  · cases List.mem_singleton.mp he
    exact List.suffix_rfl
  · rcases List.singleton_eq_append_iff.mp ht with ⟨rfl, -⟩ | ⟨-, h⟩
    · exact ⟨.quiet fun _ h => (nomatch h), fun _ h => (nomatch h)⟩
    · exact nomatch h

/-! ### Runs -/

theorem Ev.wait_of_endless {e : Ev T} (h : e.endless = true) :
    ∃ a timeoutMs, e.what = .wait a timeoutMs := by
  unfold Ev.endless at h
  split at h
  · exact ⟨_, _, ‹_›⟩
  · exact nomatch h

/-- The run comes to no wait without end in an activation, or in a callback of one, in
which a stop was issued. -/
def NoStopAtEndlessWait (t : List (Ev T)) : Prop :=
  ∀ done e rest, t = done ++ e :: rest → e.endless = true → ∀ b, InProgressAt b e →
    ¬ StopFrom (some b) done

/-- **A stop is answered where it was issued.** In a run whose stops are in time, and
that comes to no wait without end where one was issued, an activation in which a stop
was issued returns STOPPED, and one that returns STOPPED had a stop issued in it, or
was refused for a stop issued outside all callbacks. Every activation that was not
refused leaves the flag down. -/
theorem stop_answered (p : Prog T) (clock : Clock T)
    (htime : ∀ e ∈ ran p clock, stopsInTime e = true) (hwait : NoStopAtEndlessWait (ran p clock)) :
    let trace := ran p clock
    (∀ a, StopFrom (some a) trace → ∃ e ∈ trace, e.what = .leave a K_CF_RUNLOOP_RUN_STOPPED) ∧
    (∀ e ∈ trace, ∀ a, e.what = .leave a K_CF_RUNLOOP_RUN_STOPPED → StopFrom (some a) trace) ∧
    (∀ e ∈ trace, ∀ a, e.what = .refuse a → e.frames = [] ∧ StopFrom none trace) ∧
    (∀ e ∈ trace, ∀ a result, e.what = .leave a result → e.world.rl.stopped = false) := by
  intro trace
  have hknown : Known none (World.new clock) := fun _ hb => nomatch hb
  have hrun := exec_upTo p [] (World.new clock)
  rcases upTo_cases Ev.endless (exec p [] (World.new clock)).trace with
    ⟨hall, -⟩ | ⟨done, last, rest, htrace, hcut, hlast⟩
  · -- every wait ended
    have hran : ran p clock = (exec p [] (World.new clock)).trace := hall
    have hstep := hrun.stops hknown fun e he => htime e (by rw [hran]; exact he)
    rw [show trace = _ from hran]
    refine ⟨fun a ha => (hstep.answered a ha).resolve_left (fun h => nomatch h), hstep.left,
      fun e he a hrefuse => ⟨(hstep.refused e he a hrefuse).2, ?_⟩, hstep.consumed⟩
    exact (hstep.refusedFor e he a hrefuse).resolve_left Bool.false_ne_true
  · -- the thread stays in a wait without end
    have hran : ran p clock = done ++ [last] := hcut
    have hlast_mem : ∀ x ∈ done, x ∈ ran p clock := fun x hx => by
      rw [hran]
      exact List.mem_append_left _ hx
    obtain ⟨hbefore, hfor⟩ := hrun.before hknown htrace fun x hx => htime x (hlast_mem x hx)
    obtain ⟨a₀, ms, hwhat⟩ := last.wait_of_endless hlast
    have hstop : ∀ i, StopFrom i (done ++ [last]) ↔ StopFrom i done := by
      intro i
      have hnone : ¬ StopFrom i [last] := by
        rintro ⟨e, he, hstop, -⟩
        cases List.mem_singleton.mp he
        exact nomatch hwhat.symm.trans hstop
      rw [StopFrom.append, or_iff_left hnone]
    have hmem : ∀ {e : Ev T}, e ∈ done ++ [last] → (∀ a ms, e.what ≠ .wait a ms) → e ∈ done := by
      intro e he hnot
      refine (List.mem_append.mp he).resolve_right fun h => ?_
      cases List.mem_singleton.mp h
      exact hnot _ _ hwhat
    rw [show trace = _ from hran]
    refine ⟨fun a ha => ?_, fun e he a hleave => ?_, fun e he a hrefuse => ?_,
      fun e he a result hleave => ?_⟩
    · have hdone := (hstop _).mp ha
      rcases hbefore.answered a hdone with h | hin | ⟨e, he, hleave⟩
      · exact nomatch h
      · exact absurd hdone (hwait done last [] hran hlast a hin)
      · exact ⟨e, List.mem_append_left _ he, hleave⟩
    · have he' := hmem he fun a ms h => nomatch hleave.symm.trans h
      exact (hstop _).mpr (hbefore.left e he' a hleave)
    · have he' := hmem he fun a ms h => nomatch hrefuse.symm.trans h
      exact ⟨(hbefore.refused e he' a hrefuse).2, (hstop _).mpr
        ((hfor e he' a hrefuse).resolve_left Bool.false_ne_true)⟩
    · exact hbefore.consumed e (hmem he fun a ms h => nomatch hleave.symm.trans h) a result hleave

/-- A thread that runs the loop once, with an observer that stops it before it
waits. -/
def stoppingThread : Prog Nat :=
  .api (.observerCreate K_CF_RUNLOOP_BEFORE_WAITING true 0 (some 1) 0) fun _ =>
  .api (.addObserver true (some 0) none) fun _ =>
  .run none 0 false (fun _ _ => .api (.stop true) fun _ => .done) fun _ => .done

theorem stop_answered_before_waiting :
    ∃ e ∈ ran stoppingThread midnight,
      e.what = .leave ⟨0, kCFRunLoopDefaultMode⟩ K_CF_RUNLOOP_RUN_STOPPED := by
  have hends : ∀ e ∈ ran stoppingThread midnight, e.endless = false := by decide
  refine (stop_answered stoppingThread midnight (by decide) fun done e rest hran hendless => ?_).1 _
    ⟨_, List.mem_of_getElem? (i := 10) rfl, rfl, rfl⟩
  have hend := hends e (by rw [hran]; exact List.mem_append_right _ List.mem_cons_self)
  exact nomatch hendless.symm.trans hend

/-- What an activation returned. -/
def Ev.returned (e : Ev T) : Option (Activation × Int) :=
  match e.what with
  | .leave a result => some (a, result)
  | .refuse a => some (a, K_CF_RUNLOOP_RUN_STOPPED)
  | _ => none

/-- A thread that runs the loop for one source, whose callback stops it. -/
def stoppingSource : Prog Nat :=
  .api (.sourceCreate (some (some 1, 0))) fun _ =>
  .api (.addSource true (some 0) none) fun _ =>
  .api (.sourceSignal (some 0)) fun _ =>
  .run none 0 true (fun _ _ => .api (.stop true) fun _ => .done) fun _ => .done

/-- A stop from the callback of a source that is handled at once is not answered. -/
theorem stop_missed :
    ¬ ∀ (p : Prog Nat) (clock : Clock Nat) (a : Activation), StopFrom (some a) (ran p clock) →
      ∃ e ∈ ran p clock, e.returned = some (a, K_CF_RUNLOOP_RUN_STOPPED) := by
  intro h
  have hreturned := h stoppingSource midnight ⟨0, kCFRunLoopDefaultMode⟩
    ⟨_, List.mem_of_getElem? (i := 8) rfl, rfl, rfl⟩
  exact absurd hreturned (by decide)

/-! ### `CFRunLoopRun` -/

/-- The computation comes to the wait of the activation. -/
def Waits {α : Type} (a : Activation) (seconds : T) (m : Act T α) : Prop :=
  ∀ w, ∃ e ∈ (m w).trace, e.what = .wait a (min (CFTime.timeoutMs seconds) 100)

section Waits
variable {α β : Type} {a : Activation} {seconds : T}

theorem Waits.first {m : Act T α} {f : α → Act T β} (hm : Waits a seconds m) :
    Waits a seconds (m >>= f) := by
  intro w
  obtain ⟨e, he, hwait⟩ := hm w
  exact ⟨e, List.mem_append_left _ he, hwait⟩

theorem Waits.then {m : Act T α} {f : α → Act T β} (hf : ∀ v, Waits a seconds (f v)) :
    Waits a seconds (m >>= f) := by
  intro w
  obtain ⟨e, he, hwait⟩ := hf (m w).value (m w).state
  exact ⟨e, List.mem_append_right _ he, hwait⟩

/-- A loop that no element ends. -/
theorem Waits.unhandled {dispatch : Ref → Act T Bool}
    (hdispatch : ∀ x w, (dispatch x w).value = false) (refs : List Ref) {m m' : Act T β}
    (hm : Waits a seconds m) :
    Waits a seconds (untilTrue dispatch refs >>= fun handled => if handled then m' else m) := by
  intro w
  obtain ⟨e, he, hwait⟩ := hm (untilTrue dispatch refs w).state
  refine ⟨e, List.mem_append_right _ ?_, hwait⟩
  have hfalse : (untilTrue dispatch refs w).value = false :=
    untilTrue_value.mpr fun _ x _ _ => hdispatch x _
  rw [hfalse]
  exact he

variable (frames : List Frame) (callee : List Frame → Invocation → Act T Unit)

theorem dispatchSource_unhandled (src : Ref) (w : World T) :
    (dispatchSource frames callee a false src w).value = false := by
  simp only [dispatchSource, bind_apply, read_apply]
  cases w.sources[src]? with
  | none => rfl
  | some source =>
    dsimp only
    split_ifs <;> rfl

theorem dispatchTimer_unhandled (now : T) (t : Ref) (w : World T) :
    (dispatchTimer frames callee a false now t w).value = false := by
  simp only [dispatchTimer, bind_apply, read_apply]
  cases w.timers[t]? with
  | none => rfl
  | some timer =>
    dsimp only
    split_ifs <;> rfl

/-- Without `return_after_source` an activation that was entered comes to its wait. -/
theorem enterMode_waits (seconds : T) :
    Waits a seconds (enterMode frames callee a seconds false) := by
  have hwait : Waits a seconds (waitPhase frames callee a seconds) := by
    refine Waits.then fun _ => Waits.first fun w => ?_
    exact ⟨_, List.mem_singleton_self _, rfl⟩
  have htimer : Waits a seconds (timerPhase frames callee a seconds false) :=
    Waits.then fun now => Waits.then fun _ => Waits.then fun timers => Waits.then fun _ =>
      Waits.then fun _ => Waits.unhandled (dispatchTimer_unhandled frames callee now) timers hwait
  have hsource : Waits a seconds (sourcePhase frames callee a seconds false) :=
    Waits.then fun sources => Waits.then fun _ => Waits.then fun _ =>
      Waits.unhandled (dispatchSource_unhandled frames callee) sources htimer
  exact Waits.then fun _ => Waits.then fun _ => Waits.first hsource

end Waits

/-- A turn of `CFRunLoopRun` that finds no stop stays in its wait. -/
theorem cfRunLoopRun_stays (hforever : CFTime.timeoutMs (CFTime.forever : T) < 0)
    (callee : Invocation → World T → Prog T) (next : Prog T) (turns : Nat) (frames : List Frame)
    {w : World T} (hstopped : w.rl.stopped = false) :
    ∃ done e, happened (exec (cfRunLoopRun callee next (turns + 1)) frames w).trace = done ++ [e] ∧
      e.endless = true := by
  have hwaits : ∃ e ∈ (exec (cfRunLoopRun callee next (turns + 1)) frames w).trace,
      e.endless = true := by
    let answer : List Frame → Invocation → Act T Unit :=
      fun inner inv w => exec (callee inv w) inner w
    obtain ⟨e, he, hwait⟩ := enterMode_waits frames answer CFTime.forever
      (a := ⟨w.activations, modeNameFromPtr (asPtr kCFRunLoopDefaultMode)⟩)
      (w.started (asPtr kCFRunLoopDefaultMode))
    have hturn : e ∈ (cfRunLoopRunInMode frames answer (asPtr kCFRunLoopDefaultMode)
        CFTime.forever false w).trace := by
      rw [cfRunLoopRunInMode_entered frames answer _ _ _ hstopped]
      exact List.mem_cons_of_mem _ he
    have hnegative : min (CFTime.timeoutMs (CFTime.forever : T)) 100 < 0 :=
      Int.lt_of_le_of_lt (Int.min_le_left _ _) hforever
    exact ⟨e, List.mem_append_left _ hturn, by simp [Ev.endless, hwait, hnegative]⟩
  rcases upTo_cases Ev.endless (exec (cfRunLoopRun callee next (turns + 1)) frames w).trace with
    ⟨-, hnone⟩ | ⟨done, e, rest, -, hcut, hlast⟩
  · obtain ⟨e, he, hend⟩ := hwaits
    exact nomatch hend.symm.trans (hnone e he)
  · exact ⟨done, e, hcut, hlast⟩

/-- Whole seconds: `CFRunLoopRun` passes more than 1e9. -/
example : CFTime.timeoutMs (CFTime.forever : Nat) < 0 := by decide

end Grafted.Cf.RunLoop

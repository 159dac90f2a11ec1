import Grafted.Cf.RunLoopModes

/-! Which sources an activation performs.

The loop goes over a copy of its mode's sources and handles those it finds
signalled when it comes to them (`Handles`): it clears the signal and calls the
perform function, which may signal, register and run the loop as it likes. What
the loop does apart from its callbacks is followed for one source at a time.
Between its callbacks it leaves the signal of the source alone (`LeftAlone`), but
for the one clearing just before the call, so a signal raised while the source
performs, or later, is there when the activation returns (`sources_performed`). -/
namespace Grafted.Cf.RunLoop
open Traced

variable {T : Type} [CFTime T]

/-- Whether a source is signalled, if it is there. -/
def World.signal (w : World T) (s : Ref) : Option Bool := (w.sources[s]?).map (·.signaled)

theorem World.signal_setSignaled (w : World T) (src s : Ref) (signaled : Bool) :
    (w.setSignaled src signaled).signal s =
      if src = s then (w.signal s).map fun _ => signaled else w.signal s := by
  rw [World.signal, World.setSignaled, List.getElem?_modify, World.signal]
  split_ifs <;> cases w.sources[s]? <;> rfl

/-- The source has a function to perform. -/
def World.performs (w : World T) (s : Ref) : Bool := ((w.sources[s]?).bind (·.perform)).isSome

/-! ### What the loop leaves alone -/

/-- The events of the activation and those inside its callbacks, as far as they
concern the source: none is a call of it, and its signal moves in callbacks only. -/
inductive LeftAlone (a : Activation) (s : Ref) : World T → List (Ev T) → World T → Prop
  | nil (w w' : World T) (h : w'.signal s = w.signal s) : LeftAlone a s w [] w'
  | own (w w' : World T) (e : Ev T) (rest : List (Ev T)) (he : e.what.activation = some a)
      (hcall : ∀ inv, e.what ≠ .call a inv) (h : e.world.signal s = w.signal s)
      (hrest : LeftAlone a s e.world rest w') : LeftAlone a s w (e :: rest) w'
  | call (w w' : World T) (inv : Invocation) (e e' : Ev T) (body rest : List (Ev T))
      (hinv : inv ≠ .source s) (he : e.what = .call a inv) (h : e.world.signal s = w.signal s)
      (hbody : ∀ x ∈ body, x.what.activation ≠ some a) (he' : e'.what = .ret a inv)
      (hrest : LeftAlone a s e'.world rest w') : LeftAlone a s w (e :: (body ++ e' :: rest)) w'

namespace LeftAlone
variable {a : Activation} {s : Ref} {w u v : World T} {t t' : List (Ev T)}

theorem of_signal (h : LeftAlone a s u t v) (hu : u.signal s = w.signal s) : LeftAlone a s w t v := by
  cases h with
  | nil _ _ h => exact .nil _ _ (h.trans hu)
  | own _ _ e rest he hcall h hrest => exact .own _ _ e rest he hcall (h.trans hu) hrest
  | call _ _ inv e e' body rest hinv he h hbody he' hrest =>
    exact .call _ _ inv e e' body rest hinv he (h.trans hu) hbody he' hrest

theorem append (h : LeftAlone a s w t u) (h' : LeftAlone a s u t' v) : LeftAlone a s w (t ++ t') v := by
  induction h with
  | nil _ _ h => exact h'.of_signal h
  | own _ _ e rest he hcall h _ ih => exact .own _ _ e _ he hcall h (ih h')
  | call _ _ inv e e' body rest hinv he h hbody he' _ ih =>
    have heq : e :: (body ++ e' :: rest) ++ t' = e :: (body ++ e' :: (rest ++ t')) := by simp
    rw [heq]
    exact .call _ _ inv e e' body _ hinv he h hbody he' (ih h')

theorem not_called (h : LeftAlone a s w t u) {e : Ev T} (he : e ∈ t) : e.what ≠ .call a (.source s) := by
  induction h with
  | nil => exact nomatch he
  | own _ _ x rest _ hcall _ _ ih =>
    rcases List.mem_cons.mp he with rfl | he
    · exact hcall _
    · exact ih he
  | call _ _ inv x x' body rest hinv hx _ hbody hx' _ ih =>
    intro hcall
    rcases List.mem_cons.mp he with rfl | he
    · cases hx.symm.trans hcall
      exact hinv rfl
    rcases List.mem_append.mp he with he | he
    · exact hbody e he (congrArg What.activation hcall)
    rcases List.mem_cons.mp he with rfl | he
    · cases hx'.symm.trans hcall
    · exact ih he hcall

end LeftAlone

/-- A piece of the activation that leaves the source alone. -/
def Apart (a : Activation) (s : Ref) (w : World T) (t : List (Ev T)) (w' : World T) : Prop :=
  a.id < w.activations → w.activations ≤ w'.activations ∧ LeftAlone a s w t w'

theorem Apart.composes (a : Activation) (s : Ref) : Composes (Apart (T := T) a s) where
  refl w _ := ⟨Nat.le_refl _, .nil w w rfl⟩
  trans h h' hw := by
    obtain ⟨hle, halone⟩ := h hw
    obtain ⟨hle', halone'⟩ := h' (Nat.lt_of_lt_of_le hw hle)
    exact ⟨Nat.le_trans hle hle', halone.append halone'⟩

theorem Apart.record {a : Activation} {s : Ref} (frames : List Frame) {what : What T}
    (h : Mark a what) : Keeps (Apart a s) (RunLoop.record frames what) := by
  intro w _
  have hcall : ∀ inv, what ≠ .call a inv := by
    rintro inv rfl
    cases h
  exact ⟨Nat.le_refl _, .own w w _ [] h.activation hcall rfl (.nil w w rfl)⟩

theorem Apart.move {a : Activation} {s : Ref} {f : World T → World T}
    (hf : ∀ w, (f w).signal s = w.signal s ∧ (f w).activations = w.activations) :
    Keeps (Apart a s) (modify f) :=
  fun w _ => ⟨Nat.le_of_eq (hf w).2.symm, .nil w (f w) (hf w).1⟩

section Phases
variable {frames : List Frame} {callee : List Frame → Invocation → Act T Unit} {a : Activation}
  {s : Ref} (hcallee : ∀ inv, Keeps Nested (callee (⟨a, inv⟩ :: frames) inv))
include hcallee

/-- The events of a callback are of other activations. -/
theorem callee_others {inv : Invocation} {w : World T} (hw : a.id < w.activations) :
    ∀ x ∈ (callee (⟨a, inv⟩ :: frames) inv w.called).trace, x.what.activation ≠ some a :=
  fun x hx hown => Nat.not_lt.mpr ((hcallee inv w.called).later x hx a hown) hw

theorem callback_apart {inv : Invocation} (hinv : inv ≠ .source s) :
    Keeps (Apart a s) (callback frames callee a inv) := by
  intro w hw
  rw [callback_apply]
  exact ⟨(hcallee inv w.called).activations,
    .call _ _ inv _ _ _ [] hinv rfl rfl (callee_others hcallee hw) rfl (.nil _ _ rfl)⟩

theorem fireObservers_apart (activity : BitVec 64) :
    Keeps (Apart a s) (fireObservers frames callee a activity) :=
  fireObservers_keeps (Apart.composes a s) (Apart.record frames (.fire activity)) fun _ =>
    callback_apart hcallee fun h => nomatch h

theorem dispatchSource_apart {src : Ref} (returnAfterSource : Bool) (hsrc : src ≠ s) :
    Keeps (Apart a s) (dispatchSource frames callee a returnAfterSource src) := by
  refine dispatchSource_keeps (Apart.composes a s) (Apart.move fun w => ⟨?_, rfl⟩)
    (callback_apart hcallee fun h => hsrc (Invocation.source.inj h))
  rw [World.signal_setSignaled, if_neg hsrc]

/-- What follows the loop over the sources. -/
theorem afterSources_apart (seconds : T) (returnAfterSource handled : Bool) :
    Keeps (Apart a s) (if handled then handledSource frames a
      else timerPhase frames callee a seconds returnAfterSource : Act T Int) := by
  have hB := Apart.composes (T := T) a s
  have hnote : ∀ what, Note a what → Keeps (Apart a s) (record (T := T) frames what) :=
    fun what h => Apart.record frames h.mark
  have hfire : ∀ activity, Between activity →
      Keeps (Apart a s) (fireObservers frames callee a activity) :=
    fun activity _ => fireObservers_apart hcallee activity
  split_ifs
  · exact handledSource_keeps hB hnote
  · refine timerPhase_keeps hB hnote hfire ?_ (fun now t => ?_) (waitPhase_keeps hB hnote hfire ?_)
    · exact Apart.move fun _ => ⟨rfl, rfl⟩
    · exact dispatchTimer_keeps hB (fun _ => Apart.move fun _ => ⟨rfl, rfl⟩)
        (callback_apart hcallee fun h => nomatch h)
    · exact Apart.move fun _ => ⟨rfl, rfl⟩

end Phases

/-! ### The loop over the sources -/

section Loop
variable (frames : List Frame) (callee : List Frame → Invocation → Act T Unit) (a : Activation)
  (returnAfterSource : Bool)

/-- The world in which the loop, begun in `w`, comes to the source after `before`. -/
def comesTo (before : List Ref) (w : World T) : World T :=
  (untilTrue (dispatchSource frames callee a returnAfterSource) before w).state

/-- The loop over `listed` comes to `s` after the sources `before` and finds it
signalled. With `return_after_source`, it found none of those signalled. -/
structure Handles (listed : List Ref) (w : World T) (before : List Ref) (s : Ref) : Prop where
  listed : ∃ after, listed = before ++ s :: after
  goesOn : returnAfterSource = true → ∀ earlier x rest, before = earlier ++ x :: rest →
    (comesTo frames callee a returnAfterSource earlier w).signal x ≠ some true
  signalled : (comesTo frames callee a returnAfterSource before w).signal s = some true

end Loop

/-- From where the loop has come to a signalled source: its signal is cleared, its
function is called if it has one, and then the source is left alone. -/
inductive Takes (a : Activation) (s : Ref) : World T → List (Ev T) → World T → Prop
  | perform (w w' : World T) (e e' : Ev T) (body rest : List (Ev T)) (h : w.performs s = true)
      (he : e.what = .call a (.source s)) (hworld : e.world = (w.setSignaled s false).called)
      (hbody : ∀ x ∈ body, x.what.activation ≠ some a) (he' : e'.what = .ret a (.source s))
      (hrest : LeftAlone a s e'.world rest w') : Takes a s w (e :: (body ++ e' :: rest)) w'
  | nothing (w w' : World T) (t : List (Ev T)) (h : w.performs s = false)
      (ht : LeftAlone a s (w.setSignaled s false) t w') : Takes a s w t w'

theorem Takes.append {a : Activation} {s : Ref} {w u v : World T} {t t' : List (Ev T)}
    (h : Takes a s w t u) (h' : LeftAlone a s u t' v) : Takes a s w (t ++ t') v := by
  cases h with
  | perform _ e e' body rest h he hworld hbody he' hrest =>
    have heq : e :: (body ++ e' :: rest) ++ t' = e :: (body ++ e' :: (rest ++ t')) := by simp
    rw [heq]
    exact .perform _ _ e e' body _ h he hworld hbody he' (hrest.append h')
  | nothing _ _ h ht => exact .nothing _ _ _ h (ht.append h')

def isSourceCall (a : Activation) (s : Ref) (e : Ev T) : Bool :=
  match e.what with
  | .call b (.source x) => b = a && x = s
  | _ => false

theorem isSourceCall_iff {a : Activation} {s : Ref} {e : Ev T} :
    isSourceCall a s e = true ↔ e.what = .call a (.source s) := by
  unfold isSourceCall
  split
  · rename_i b x hwhat
    rw [hwhat, Bool.and_eq_true, decide_eq_true_iff, decide_eq_true_iff]
    exact ⟨fun ⟨hb, hx⟩ => by rw [hb, hx], fun h => by cases h; exact ⟨rfl, rfl⟩⟩
  · rename_i hne
    exact ⟨fun h => (nomatch h), fun h => absurd h (hne a s)⟩

theorem sourceCalls_zero {a : Activation} {s : Ref} {t : List (Ev T)}
    (h : ∀ e ∈ t, e.what ≠ .call a (.source s)) : t.countP (isSourceCall a s) = 0 :=
  List.countP_eq_zero.mpr fun e he hcall => h e he (isSourceCall_iff.mp hcall)

/-- What the calls of a handled source are: one, with the signal down, if it has a
function to perform. -/
theorem Takes.calls {a : Activation} {s : Ref} {w w' : World T} {t : List (Ev T)}
    (h : Takes a s w t w') (hs : w.signal s = some true) :
    ((∃ e ∈ t, e.what = .call a (.source s)) ↔ w.performs s = true) ∧
      t.countP (isSourceCall a s) ≤ 1 ∧
      ∀ e ∈ t, e.what = .call a (.source s) → e.world.signal s = some false := by
  cases h with
  | perform _ e e' body rest h he hworld hbody he' hrest =>
    have hlater : ∀ x ∈ body ++ e' :: rest, x.what ≠ .call a (.source s) := by
      intro x hx hcall
      rcases List.mem_append.mp hx with hx | hx
      · exact hbody x hx (congrArg What.activation hcall)
      rcases List.mem_cons.mp hx with rfl | hx
      · cases he'.symm.trans hcall
      · exact hrest.not_called hx hcall
    refine ⟨⟨fun _ => h, fun _ => ⟨e, List.mem_cons_self, he⟩⟩, ?_, fun x hx hcall => ?_⟩
    · rw [List.countP_cons, sourceCalls_zero hlater]
      split_ifs <;> omega
    · rcases List.mem_cons.mp hx with rfl | hx
      · have hcleared : (w.setSignaled s false).signal s = some false := by
          rw [World.signal_setSignaled, if_pos rfl, hs]
          rfl
        rw [hworld]
        exact hcleared
      · exact absurd hcall (hlater x hx)
  | nothing _ _ h ht =>
    refine ⟨⟨fun ⟨e, he, hcall⟩ => absurd hcall (ht.not_called he), fun hp => ?_⟩, ?_,
      fun x hx hcall => absurd hcall (ht.not_called hx)⟩
    · rw [h] at hp
      exact nomatch hp
    · rw [sourceCalls_zero fun e he => ht.not_called he]
      exact Nat.zero_le 1

theorem dispatchSource_signalled (frames : List Frame) (callee : List Frame → Invocation → Act T Unit)
    (a : Activation) (returnAfterSource : Bool) {s : Ref} {w : World T} (h : w.signal s = some true) :
    let r := (if w.performs s then callback frames callee a (.source s) else pure () : Act T Unit)
      (w.setSignaled s false)
    dispatchSource frames callee a returnAfterSource s w = ⟨returnAfterSource, r.state, r.trace⟩ := by
  cases hs : w.sources[s]? with
  | none =>
    rw [World.signal, hs] at h
    exact nomatch h
  | some source =>
    rw [World.signal, hs] at h
    have hsignaled : source.signaled = true := Option.some.inj h
    have hperforms : w.performs s = source.perform.isSome := by
      rw [World.performs, hs]
      rfl
    simp only [dispatchSource, bind_apply, read_apply, hs, hsignaled, if_true, modify_apply,
      List.nil_append, hperforms]
    split_ifs
    · simp only [bind_apply, pure_apply, List.append_nil]
    · rfl

theorem dispatchSource_unsignalled (frames : List Frame)
    (callee : List Frame → Invocation → Act T Unit) (a : Activation) (returnAfterSource : Bool) {s : Ref}
    {w : World T} (h : w.signal s ≠ some true) :
    dispatchSource frames callee a returnAfterSource s w = ⟨false, w, []⟩ := by
  cases hs : w.sources[s]? with
  | none => simp only [dispatchSource, bind_apply, read_apply, hs, pure_apply, List.append_nil]
  | some source =>
    have hdown : ¬ source.signaled = true := fun hup => h (by rw [World.signal, hs, ← hup]; rfl)
    simp only [dispatchSource, bind_apply, read_apply, hs, if_neg hdown, pure_apply, List.append_nil]

section Activations
variable {frames : List Frame} {callee : List Frame → Invocation → Act T Unit} {a : Activation}
  {returnAfterSource : Bool}

theorem dispatchSource_value {s : Ref} {w : World T} :
    (dispatchSource frames callee a returnAfterSource s w).value = false ↔
      (returnAfterSource = true → w.signal s ≠ some true) := by
  by_cases hs : w.signal s = some true
  · rw [dispatchSource_signalled frames callee a returnAfterSource hs]
    refine ⟨fun hno hyes => absurd (hno.symm.trans hyes) Bool.false_ne_true, fun h => ?_⟩
    exact Bool.eq_false_iff.mpr fun hyes => h hyes hs
  · rw [dispatchSource_unsignalled frames callee a returnAfterSource hs]
    exact ⟨fun _ _ => hs, fun _ => rfl⟩

/-- The loop comes past `before` when it finds none of it signalled, or goes on after
what it handles. -/
theorem loop_value {before : List Ref} {w : World T} :
    (untilTrue (dispatchSource frames callee a returnAfterSource) before w).value = false ↔
      (returnAfterSource = true → ∀ earlier x rest, before = earlier ++ x :: rest →
        (comesTo frames callee a returnAfterSource earlier w).signal x ≠ some true) := by
  rw [untilTrue_value]
  constructor
  · intro h hyes earlier x rest hbefore
    exact dispatchSource_value.mp (h earlier x rest hbefore) hyes
  · intro h earlier x rest hbefore
    exact dispatchSource_value.mpr fun hyes => h hyes earlier x rest hbefore

omit [CFTime T] in
theorem split_unique {s : Ref} {before after before' after' : List Ref} (hbefore : s ∉ before)
    (hafter : s ∉ after) (h : before ++ s :: after = before' ++ s :: after') : before' = before := by
  rcases split_append h with ⟨rest, rfl, -⟩ | ⟨rest, hrest, htail⟩
  · exact absurd (List.mem_append_right _ List.mem_cons_self) hbefore
  · cases rest with
    | nil => rw [hrest, List.append_nil]
    | cons x rest =>
      obtain ⟨-, rfl⟩ := List.cons.inj htail
      exact absurd (List.mem_append_right _ List.mem_cons_self) hafter

theorem Handles.mem {listed before : List Ref} {w : World T} {s : Ref}
    (h : Handles frames callee a returnAfterSource listed w before s) : s ∈ listed := by
  obtain ⟨after, rfl⟩ := h.listed
  exact List.mem_append_right _ List.mem_cons_self

variable {s : Ref} (hcallee : ∀ inv, Keeps Nested (callee (⟨a, inv⟩ :: frames) inv))
include hcallee

variable (returnAfterSource) in
theorem loop_apart {xs : List Ref} (h : s ∉ xs) :
    Keeps (Apart a s) (untilTrue (dispatchSource frames callee a returnAfterSource) xs) :=
  Keeps.untilTrue (Apart.composes a s) fun _ hx =>
    dispatchSource_apart hcallee returnAfterSource fun heq => h (heq ▸ hx)

variable (returnAfterSource) in
/-- The turn of a signalled source. -/
theorem dispatchSource_takes {w : World T} (hw : a.id < w.activations) (hs : w.signal s = some true) :
    let r := dispatchSource frames callee a returnAfterSource s w
    w.activations ≤ r.state.activations ∧ Takes a s w r.trace r.state := by
  rw [dispatchSource_signalled frames callee a returnAfterSource hs]
  cases hperforms : w.performs s with
  | false => exact ⟨Nat.le_refl _, .nothing _ _ _ hperforms (.nil _ _ rfl)⟩
  | true =>
    rw [if_pos rfl, callback_apply]
    exact ⟨(hcallee (.source s) (w.setSignaled s false).called).activations,
      .perform _ _ _ _ _ [] hperforms rfl rfl (callee_others hcallee hw) rfl (.nil _ _ rfl)⟩

variable (returnAfterSource) in
/-- The loop over a list with the source in it, when nothing before ends it. -/
theorem loop_reached {before after : List Ref} (hbefore : s ∉ before) (hafter : s ∉ after) {w : World T}
    (hw : a.id < w.activations)
    (hvalue : (untilTrue (dispatchSource frames callee a returnAfterSource) before w).value = false) :
    let u := comesTo frames callee a returnAfterSource before w
    let loop := untilTrue (dispatchSource frames callee a returnAfterSource) (before ++ s :: after) w
    w.activations ≤ loop.state.activations ∧
    (u.signal s = some true →
      ∃ t t', loop.trace = t ++ t' ∧ LeftAlone a s w t u ∧ Takes a s u t' loop.state) ∧
    (u.signal s ≠ some true → LeftAlone a s w loop.trace loop.state) := by
  intro u
  obtain ⟨hle, halone⟩ := loop_apart returnAfterSource hcallee hbefore w hw
  have hu : a.id < u.activations := Nat.lt_of_lt_of_le hw hle
  have hrest : ∀ ended : Bool, Keeps (Apart a s) (if ended then pure true
      else untilTrue (dispatchSource frames callee a returnAfterSource) after : Act T Bool) := by
    intro ended
    cases ended with
    | true => exact Keeps.pure (Apart.composes a s) true
    | false => exact loop_apart returnAfterSource hcallee hafter
  rw [untilTrue_reached s after hvalue]
  by_cases hs : u.signal s = some true
  · obtain ⟨hle', htakes⟩ := dispatchSource_takes returnAfterSource hcallee hu hs
    obtain ⟨hle'', hafter'⟩ := hrest _ _ (Nat.lt_of_lt_of_le hu hle')
    exact ⟨Nat.le_trans hle (Nat.le_trans hle' hle''),
      fun _ => ⟨_, _, rfl, halone, htakes.append hafter'⟩, fun hno => absurd hs hno⟩
  · have hskip : dispatchSource frames callee a returnAfterSource s
        (untilTrue (dispatchSource frames callee a returnAfterSource) before w).state = ⟨false, u, []⟩ :=
      dispatchSource_unsignalled frames callee a returnAfterSource hs
    rw [hskip]
    obtain ⟨hle', hafter'⟩ := hrest false u hu
    exact ⟨Nat.le_trans hle hle', fun hyes => absurd hyes hs, fun _ => halone.append hafter'⟩

variable (returnAfterSource) in
/-- The loop over the sources, for one of them: handled, or left alone. -/
theorem loop_takes {listed : List Ref} (hnodup : listed.Nodup) {w : World T}
    (hw : a.id < w.activations) :
    let loop := untilTrue (dispatchSource frames callee a returnAfterSource) listed w
    w.activations ≤ loop.state.activations ∧
    (∀ before, Handles frames callee a returnAfterSource listed w before s →
      ∃ t t', loop.trace = t ++ t' ∧
        LeftAlone a s w t (comesTo frames callee a returnAfterSource before w) ∧
        Takes a s (comesTo frames callee a returnAfterSource before w) t' loop.state) ∧
    ((∀ before, ¬ Handles frames callee a returnAfterSource listed w before s) →
      LeftAlone a s w loop.trace loop.state) := by
  by_cases hmem : s ∈ listed
  · obtain ⟨before, after, rfl⟩ := List.append_of_mem hmem
    obtain ⟨hbefore, hafter⟩ : s ∉ before ∧ s ∉ after := by
      rw [List.nodup_append] at hnodup
      obtain ⟨-, hcons, hdisjoint⟩ := hnodup
      exact ⟨fun h => hdisjoint s h s List.mem_cons_self rfl, (List.nodup_cons.mp hcons).1⟩
    have honly : ∀ {other}, Handles frames callee a returnAfterSource (before ++ s :: after) w other s →
        other = before := by
      intro other h
      obtain ⟨after', hafter'⟩ := h.listed
      exact split_unique hbefore hafter hafter'
    cases hvalue : (untilTrue (dispatchSource frames callee a returnAfterSource) before w).value with
    | true =>
      -- ended before the source
      obtain ⟨hle, halone⟩ := loop_apart returnAfterSource hcallee hbefore w hw
      rw [untilTrue_append, bind_apply, hvalue, if_pos rfl, pure_apply, List.append_nil]
      refine ⟨hle, fun other h => ?_, fun _ => halone⟩
      cases honly h
      exact absurd (hvalue.symm.trans (loop_value.mpr h.goesOn)) (by decide)
    | false =>
      obtain ⟨hle, hhandled, hpassed⟩ := loop_reached returnAfterSource hcallee hbefore hafter hw hvalue
      refine ⟨hle, fun other h => ?_, fun hno => hpassed fun hs => ?_⟩
      · cases honly h
        exact hhandled h.signalled
      · exact hno before ⟨⟨after, rfl⟩, loop_value.mp hvalue, hs⟩
  · obtain ⟨hle, halone⟩ := loop_apart returnAfterSource hcallee hmem w hw
    exact ⟨hle, fun before h => absurd h.mem hmem, fun _ => halone⟩

omit hcallee in
theorem sourcePhase_apply (seconds : T) (w : World T) :
    let fired := fireObservers frames callee a K_CF_RUNLOOP_BEFORE_SOURCES w
    let loop := untilTrue (dispatchSource frames callee a returnAfterSource) (w.sourcesOf a.mode)
      fired.state
    let rest := (if loop.value then handledSource frames a
      else timerPhase frames callee a seconds returnAfterSource : Act T Int) loop.state
    sourcePhase frames callee a seconds returnAfterSource w = ⟨rest.value, rest.state,
      ⟨frames, .listSources a (w.sourcesOf a.mode), w⟩ ::
        (fired.trace ++ (loop.trace ++ rest.trace))⟩ := rfl

omit hcallee in
variable (returnAfterSource) in
/-- What an activation does around its loop over the sources leaves every source
alone. -/
theorem cfRunLoopRunInMode_around (mode : CFRunLoopMode) (seconds : T) {w : World T}
    (hcallee : ∀ a inv, Keeps Nested (callee (⟨a, inv⟩ :: frames) inv)) (h : w.rl.stopped = false) :
    let a : Activation := ⟨w.activations, modeNameFromPtr mode⟩
    let r := cfRunLoopRunInMode frames callee mode seconds returnAfterSource w
    let entry := fireObservers frames callee a K_CF_RUNLOOP_ENTRY ((w.started mode).pushMode a.mode)
    let start := (fireObservers frames callee a K_CF_RUNLOOP_BEFORE_SOURCES entry.state).state
    let loop := untilTrue (dispatchSource frames callee a returnAfterSource)
      (entry.state.sourcesOf a.mode) start
    ∃ first last, r.trace = first ++ (loop.trace ++ last) ∧ a.id < start.activations ∧
      ∀ s, LeftAlone a s w first start ∧
        (start.activations ≤ loop.state.activations → LeftAlone a s loop.state last r.state) := by
  intro a r entry start loop
  have hr : r = _ :=
    cfRunLoopRunInMode_entered frames callee mode seconds returnAfterSource h
  rw [enterMode_apply, sourcePhase_apply] at hr
  have hbefore : a.id < ((w.started mode).pushMode a.mode).activations := Nat.lt_succ_self _
  set fired := fireObservers frames callee a K_CF_RUNLOOP_BEFORE_SOURCES entry.state
  set rest := (if loop.value then handledSource frames a
    else timerPhase frames callee a seconds returnAfterSource : Act T Int) loop.state with hrest
  set exit := fireObservers frames callee a K_CF_RUNLOOP_EXIT rest.state
  have hentry : entry.state.activations ≥ w.activations + 1 :=
    (fireObservers_apart (s := 0) (hcallee a) K_CF_RUNLOOP_ENTRY _ hbefore).1
  have hstart : start.activations ≥ entry.state.activations :=
    (fireObservers_apart (s := 0) (hcallee a) K_CF_RUNLOOP_BEFORE_SOURCES entry.state hentry).1
  refine ⟨⟨frames, .start a, w⟩ :: (entry.trace ++
      (⟨frames, .listSources a (entry.state.sourcesOf a.mode), entry.state⟩ :: fired.trace)),
    rest.trace ++ (exit.trace ++ [⟨frames, .leave a rest.value, exit.state.popMode⟩]), ?_,
    Nat.le_trans hentry hstart, fun s => ⟨?_, fun hle => ?_⟩⟩
  · rw [hr]
    simp only [List.cons_append, List.append_assoc]
    rfl
  · have hone : LeftAlone a s w entry.trace entry.state :=
      (fireObservers_apart (hcallee a) K_CF_RUNLOOP_ENTRY _ hbefore).2.of_signal rfl
    have htwo := (fireObservers_apart (s := s) (hcallee a) K_CF_RUNLOOP_BEFORE_SOURCES entry.state
      hentry).2
    have hlisting : LeftAlone a s entry.state
        (⟨frames, .listSources a (entry.state.sourcesOf a.mode), entry.state⟩ :: fired.trace)
        start := .own _ _ _ _ rfl (fun _ hcall => nomatch hcall) rfl htwo
    exact .own _ _ _ _ rfl (fun _ hcall => nomatch hcall) rfl (hone.append hlisting)
  · have hloop : a.id < loop.state.activations :=
      Nat.lt_of_lt_of_le hentry (Nat.le_trans hstart hle)
    obtain ⟨hle', hone⟩ := afterSources_apart (s := s) (hcallee a) seconds returnAfterSource loop.value
      loop.state hloop
    have htwo := (fireObservers_apart (s := s) (hcallee a) K_CF_RUNLOOP_EXIT rest.state
      (Nat.lt_of_lt_of_le hloop hle')).2
    refine hone.append (htwo.append ?_)
    rw [hr]
    exact .own _ _ _ [] rfl (fun _ hcall => nomatch hcall) rfl (.nil _ _ rfl)

end Activations

/-- The sources of a mode are listed once each. -/
theorem World.sourcesOf_nodup (w : World T) (mode : String) : (w.sourcesOf mode).Nodup :=
  registry_nodup (w.rl.modes mode) (·.sources)

/-- **The sources an activation performs.** Whatever the callbacks do, an activation
that no stop refuses calls a source if and only if the source was listed for its mode
after the ENTRY observers, is signalled when the loop comes to it, has a function,
and no source before it ended the activation. It calls it at most once, with the
signal already down. Up to that clearing and from it on, only callbacks move the
signal of the source; of one that is not handled, such as one registered in other
modes only, they alone move it all along. -/
theorem sources_performed (callee : Invocation → World T → Prog T) (frames : List Frame)
    (mode : CFRunLoopMode) (seconds : T) (returnAfterSource : Bool) (w : World T)
    (h : w.rl.stopped = false) :
    let a : Activation := ⟨w.activations, modeNameFromPtr mode⟩
    let r := cfRunLoopRunInMode frames (answers callee) mode seconds returnAfterSource w
    let entry := fireObservers frames (answers callee) a K_CF_RUNLOOP_ENTRY
      ((w.started mode).pushMode a.mode)
    let listed := entry.state.sourcesOf a.mode
    let start := (fireObservers frames (answers callee) a K_CF_RUNLOOP_BEFORE_SOURCES entry.state).state
    ∀ s,
      ((∃ e ∈ r.trace, e.what = .call a (.source s)) ↔
        ∃ before, Handles frames (answers callee) a returnAfterSource listed start before s ∧
          (comesTo frames (answers callee) a returnAfterSource before start).performs s = true) ∧
      r.trace.countP (isSourceCall a s) ≤ 1 ∧
      (∀ e ∈ r.trace, e.what = .call a (.source s) → e.world.signal s = some false) ∧
      (∀ before, Handles frames (answers callee) a returnAfterSource listed start before s →
        ∃ t t', r.trace = t ++ t' ∧
          LeftAlone a s w t (comesTo frames (answers callee) a returnAfterSource before start) ∧
          Takes a s (comesTo frames (answers callee) a returnAfterSource before start) t' r.state) ∧
      ((∀ before, ¬ Handles frames (answers callee) a returnAfterSource listed start before s) →
        LeftAlone a s w r.trace r.state) ∧
      (s ∉ listed → LeftAlone a s w r.trace r.state) := by
  intro a r entry listed start s
  have hcallee : ∀ b inv, Keeps Nested (answers (T := T) callee (⟨b, inv⟩ :: frames) inv) :=
    fun b inv => answers_nested callee _ inv
  obtain ⟨first, last, htrace, hid, haround⟩ := cfRunLoopRunInMode_around
    returnAfterSource mode seconds hcallee h
  obtain ⟨hle, hhandled, hunhandled⟩ := loop_takes returnAfterSource
    (s := s) (hcallee a) (entry.state.sourcesOf_nodup a.mode) hid
  obtain ⟨hfirst, hlast⟩ := haround s
  specialize hlast hle
  have hquiet : (∀ before, ¬ Handles frames (answers callee) a returnAfterSource listed start before s) →
      LeftAlone a s w r.trace r.state := by
    intro hno
    rw [htrace]
    exact hfirst.append ((hunhandled hno).append hlast)
  have hsplit : ∀ before, Handles frames (answers callee) a returnAfterSource listed start before s →
      ∃ t t', r.trace = t ++ t' ∧
        LeftAlone a s w t (comesTo frames (answers callee) a returnAfterSource before start) ∧
        Takes a s (comesTo frames (answers callee) a returnAfterSource before start) t' r.state := by
    intro before hhandles
    obtain ⟨t, t', hloop, halone, htakes⟩ := hhandled before hhandles
    refine ⟨first ++ t, t' ++ last, ?_, hfirst.append halone, htakes.append hlast⟩
    rw [htrace, hloop]
    simp only [List.append_assoc]
  by_cases hex : ∃ before, Handles frames (answers callee) a returnAfterSource listed start before s
  · obtain ⟨before, hhandles⟩ := hex
    obtain ⟨t, t', ht, halone, htakes⟩ := hsplit before hhandles
    obtain ⟨hcalls, hone, hdown⟩ := htakes.calls hhandles.signalled
    have hzero := fun e he => halone.not_called (e := e) he
    have hmem : ∀ e, e.what = .call a (.source s) → (e ∈ r.trace ↔ e ∈ t') := by
      intro e hcall
      rw [ht, List.mem_append]
      exact or_iff_right fun he => hzero e he hcall
    refine ⟨⟨fun ⟨e, he, hcall⟩ => ?_, fun ⟨other, hother, hperforms⟩ => ?_⟩, ?_,
      fun e he hcall => hdown e ((hmem e hcall).mp he) hcall, hsplit, hquiet,
      fun hs => absurd hhandles.mem hs⟩
    · exact ⟨before, hhandles, hcalls.mp ⟨e, (hmem e hcall).mp he, hcall⟩⟩
    · obtain ⟨t₂, t₂', ht₂, -, htakes₂⟩ := hsplit other hother
      obtain ⟨e, he, hcall⟩ := (htakes₂.calls hother.signalled).1.mpr hperforms
      exact ⟨e, by rw [ht₂]; exact List.mem_append_right _ he, hcall⟩
    · rw [ht, List.countP_append, sourceCalls_zero hzero, Nat.zero_add]
      exact hone
  · have hno : ∀ before, ¬ Handles frames (answers callee) a returnAfterSource listed start before s :=
      fun before h => hex ⟨before, h⟩
    have hnever := fun e he => (hquiet hno).not_called (e := e) he
    refine ⟨⟨fun ⟨e, he, hcall⟩ => absurd hcall (hnever e he), fun ⟨before, h, _⟩ => absurd h (hno before)⟩,
      ?_, fun e he hcall => absurd hcall (hnever e he), hsplit, hquiet, fun _ => hquiet hno⟩
    rw [sourceCalls_zero hnever]
    exact Nat.zero_le 1

/-- A run loop whose default mode has one source, signalled. -/
def ready : World Nat :=
  (((World.new midnight).cfRunLoopSourceCreate (some (some 1, 0))).cfRunLoopAddSource
    true (some 0) none).cfRunLoopSourceSignal (some 0)

/-- A perform function that signals its source and runs the loop once more. -/
def signalsAgain (inv : Invocation) (w : World Nat) : Prog Nat :=
  if inv = .source 0 ∧ w.activations = 1 then
    .api (.sourceSignal (some 0)) fun _ => .run none 0 false (fun _ _ => .done) fun _ => .done
  else .done

theorem sources_performed_ready :
    (cfRunLoopRunInMode [] (answers signalsAgain) none 0 false ready).trace.countP
      (isSourceCall ⟨0, kCFRunLoopDefaultMode⟩ 0) ≤ 1 :=
  (sources_performed signalsAgain [] none 0 false ready rfl 0).2.1

end Grafted.Cf.RunLoop

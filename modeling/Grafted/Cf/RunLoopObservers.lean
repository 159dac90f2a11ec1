import Grafted.Cf.RunLoopModes

/-! How often an observer is called.

Nothing reads an observer's `repeats`: its callback is called at every firing that finds
it, and only there (`exec_tallied`). So an observer that does not repeat is called at most
once in a run in which at most one firing finds it, and in no other, with the observers
created before a firing finds them (`observers_once`). -/
namespace Grafted.Cf.RunLoop
open Traced

variable {T : Type} [CFTime T]

def isObserverCall (o : Ref) (e : Ev T) : Bool :=
  match e.what with
  | .call _ (.observer o' _) => o' = o
  | _ => false

/-- How often the callback of an observer was called. -/
def observerCalls (o : Ref) (trace : List (Ev T)) : Nat := trace.countP (isObserverCall o)

/-- The mask overlaps, and there is a callback. -/
def Wants (x : CFRunLoopObserverInner) (activity : BitVec 64) : Prop :=
  x.activities &&& activity ≠ 0 ∧ x.callback.isSome

instance (x : CFRunLoopObserverInner) (activity : BitVec 64) : Decidable (Wants x activity) :=
  inferInstanceAs (Decidable (_ ∧ _))

/-- A firing in a mode the observer is registered in, for an activity it wants. -/
def finds (o : Ref) (x : CFRunLoopObserverInner) (e : Ev T) : Bool :=
  match e.what with
  | .fire a activity => o ∈ e.world.observersOf a.mode ∧ Wants x activity
  | _ => false

/-- How many firings find the observer. -/
def findings (o : Ref) (x : CFRunLoopObserverInner) (trace : List (Ev T)) : Nat :=
  trace.countP (finds o x)

/-- The observer, if it is there, is this one. -/
def Fits (o : Ref) (x : CFRunLoopObserverInner) (w : World T) : Prop :=
  ∀ y, w.observers[o]? = some y → y = x

def Created (o : Ref) (w : World T) : Prop := o < w.observers.length

/-- What a piece of a run does to the account of an observer: its callback is called once
for each firing that finds it, and `k` times more. -/
structure Tallied (o : Ref) (x : CFRunLoopObserverInner) (k : Nat) (w : World T) (t : List (Ev T))
    (w' : World T) : Prop where
  observers : w.observers <+: w'.observers
  calls_le : Fits o x w' → observerCalls o t ≤ findings o x t + k
  /-- Unless the observer is registered before it is there. -/
  le_calls : Fits o x w' → (∀ e ∈ t, finds o x e → Created o e.world) → (0 < k → Created o w) →
    findings o x t + k ≤ observerCalls o t

section Account
variable {o : Ref} {x : CFRunLoopObserverInner}

theorem observerCalls_append (l r : List (Ev T)) :
    observerCalls o (l ++ r) = observerCalls o l + observerCalls o r := List.countP_append

theorem findings_append (l r : List (Ev T)) :
    findings o x (l ++ r) = findings o x l + findings o x r := List.countP_append

theorem Fits.of_grown {w w' : World T} (h : Fits o x w') (hgrow : w.observers <+: w'.observers) :
    Fits o x w := fun y hy => h y (lookup_extended hgrow hy)

theorem Fits.of_lookup {w : World T} (hx : w.observers[o]? = some x) : Fits o x w :=
  fun _ hy => Option.some.inj (hy.symm.trans hx)

theorem Created.of_grown {w w' : World T} (h : Created o w) (hgrow : w.observers <+: w'.observers) :
    Created o w' := Nat.lt_of_lt_of_le h hgrow.length_le

theorem Tallied.trans {k k' : Nat} {w u v : World T} {t t' : List (Ev T)}
    (h : Tallied o x k w t u) (h' : Tallied o x k' u t' v) : Tallied o x (k + k') w (t ++ t') v := by
  refine ⟨h.observers.trans h'.observers, fun hfits => ?_, fun hfits hfound hk => ?_⟩
  · have hle := h.calls_le (hfits.of_grown h'.observers)
    have hle' := h'.calls_le hfits
    rw [observerCalls_append, findings_append]
    omega
  · have hle := h.le_calls (hfits.of_grown h'.observers)
      (fun e he => hfound e (List.mem_append_left _ he)) fun hpos => hk (by omega)
    have hle' := h'.le_calls hfits (fun e he => hfound e (List.mem_append_right _ he))
      fun hpos => (hk (by omega)).of_grown h.observers
    rw [observerCalls_append, findings_append]
    omega

/-- The observer, once it is there, may be taken to be this one. -/
theorem Tallied.of_fits {k : Nat} {w w' : World T} {t : List (Ev T)}
    (hgrow : w.observers <+: w'.observers) (h : Fits o x w' → Tallied o x k w t w') :
    Tallied o x k w t w' :=
  ⟨hgrow, fun hfits => (h hfits).calls_le hfits, fun hfits => (h hfits).le_calls hfits⟩

theorem Tallied.composes : Composes (Tallied (T := T) o x 0) where
  refl _ := ⟨List.prefix_rfl, fun _ => Nat.le_refl 0, fun _ _ _ => Nat.le_refl 0⟩
  trans h h' := h.trans h'

/-- One event that is neither a firing nor a call of an observer. -/
theorem Tallied.quiet {w w' : World T} {e : Ev T} (hgrow : w.observers <+: w'.observers)
    (hcall : isObserverCall o e = false) (hfire : finds o x e = false) :
    Tallied o x 0 w [e] w' := by
  have hcalls : observerCalls o [e] = 0 := by
    rw [observerCalls, List.countP_singleton, hcall]
    rfl
  have hfindings : findings o x [e] = 0 := by
    rw [findings, List.countP_singleton, hfire]
    rfl
  refine ⟨hgrow, fun _ => ?_, fun _ _ _ => ?_⟩
  · rw [hcalls]
    exact Nat.zero_le _
  · rw [hfindings]
    exact Nat.zero_le _

theorem Tallied.move {f : World T → World T} (hf : ∀ w, (f w).observers = w.observers) :
    Keeps (Tallied o x 0) (modify f) :=
  fun w => ⟨(hf w) ▸ List.prefix_rfl, fun _ => Nat.le_refl 0, fun _ _ _ => Nat.le_refl 0⟩

/-- No move of the loop is on the observers. -/
theorem LoopMove.observers {f : World T → World T} (h : LoopMove f) (w : World T) :
    (f w).observers = w.observers := by
  cases h with
  | start mode => rfl
  | pushMode mode => rfl
  | popMode => rfl
  | phase _ h => cases h <;> rfl

end Account

/-! ### A firing -/

section Firing
variable {o : Ref} {x : CFRunLoopObserverInner} {frames : List Frame}
  {callee : List Frame → Invocation → Act T Unit} {a : Activation}
  (hcallee : ∀ inv, Keeps (Tallied o x 0) (callee (⟨a, inv⟩ :: frames) inv))
include hcallee

/-- A callback of another object, or of another observer. -/
theorem callback_tallied {inv : Invocation} (hinv : ∀ activity, inv ≠ .observer o activity) :
    Keeps (Tallied o x 0) (callback frames callee a inv) := by
  intro w
  rw [callback_apply]
  have hcall : Tallied o x 0 w [⟨frames, .call a inv, w.called⟩] w.called := by
    refine .quiet List.prefix_rfl ?_ rfl
    cases inv with
    | observer o' activity =>
      have hne : o' ≠ o := fun heq => hinv activity (heq ▸ rfl)
      simp [isObserverCall, hne]
    | source s => rfl
    | timer t => rfl
  exact hcall.trans ((hcallee inv w.called).trans (.quiet List.prefix_rfl rfl rfl))

/-- The callback of the observer itself. -/
theorem callback_self_tallied (activity : BitVec 64) (w : World T) :
    Tallied o x 1 w (callback frames callee a (.observer o activity) w).trace
      (callback frames callee a (.observer o activity) w).state := by
  rw [callback_apply]
  have hcall : Tallied o x 1 w [⟨frames, .call a (.observer o activity), w.called⟩] w.called := by
    have hcalls : observerCalls o [(⟨frames, .call a (.observer o activity), w.called⟩ : Ev T)] = 1 := by
      simp [observerCalls, isObserverCall]
    refine ⟨List.prefix_rfl, fun _ => ?_, fun _ _ _ => ?_⟩
    · rw [hcalls]
      exact Nat.le_add_left _ _
    · rw [hcalls]
      exact Nat.le_refl 1
  exact hcall.trans ((hcallee (.observer o activity) w.called).trans (.quiet List.prefix_rfl rfl rfl))

theorem fireObserver_tallied (activity : BitVec 64) (obs : Ref) (w : World T) :
    Tallied o x (if obs = o ∧ Wants x activity then 1 else 0) w
      (fireObserver frames callee a activity obs w).trace
      (fireObserver frames callee a activity obs w).state := by
  rcases fireObserver_cases activity obs w with ⟨⟨y, hy, hwants⟩, hrun⟩ | ⟨hnot, hrun⟩ <;> rw [hrun]
  · by_cases hobs : obs = o
    · subst hobs
      have hself := callback_self_tallied (x := x) hcallee activity w
      refine .of_fits hself.observers fun hfits => ?_
      cases hfits.of_grown hself.observers y hy
      rw [if_pos ⟨rfl, hwants⟩]
      exact hself
    · rw [if_neg fun h => hobs h.1]
      exact callback_tallied hcallee (fun activity' h => hobs (by cases h; rfl)) w
  · split_ifs with h
    · obtain ⟨rfl, hwants⟩ := h
      refine ⟨List.prefix_rfl, fun _ => Nat.zero_le 1, fun hfits _ hthere => ?_⟩
      have hy := List.getElem?_eq_getElem (hthere Nat.one_pos)
      exact absurd (hfits _ hy ▸ hwants) (hnot _ hy)
    · exact Tallied.composes.refl w

theorem each_tallied (activity : BitVec 64) {refs : List Ref} (hnodup : refs.Nodup) (w : World T) :
    Tallied o x (if o ∈ refs ∧ Wants x activity then 1 else 0) w
      (each (fireObserver frames callee a activity) refs w).trace
      (each (fireObserver frames callee a activity) refs w).state := by
  induction refs generalizing w with
  | nil =>
    rw [if_neg fun h => nomatch h.1]
    exact Tallied.composes.refl w
  | cons obs rest ih =>
    obtain ⟨hnot, hrest⟩ := List.nodup_cons.mp hnodup
    have hsum : (if o ∈ obs :: rest ∧ Wants x activity then 1 else 0) =
        (if obs = o ∧ Wants x activity then 1 else 0) + if o ∈ rest ∧ Wants x activity then 1 else 0 := by
      by_cases hobs : obs = o
      · subst hobs
        simp [hnot]
      · simp [hobs, Ne.symm hobs]
    rw [hsum]
    exact (fireObserver_tallied hcallee activity obs w).trans (ih hrest _)

/-- A firing that finds the observer calls it, and no other does. -/
theorem fireObservers_tallied (activity : BitVec 64) :
    Keeps (Tallied o x 0) (fireObservers frames callee a activity) := by
  intro w
  let e : Ev T := ⟨frames, .fire a activity, w⟩
  have htally := each_tallied (x := x) hcallee activity (w.observersOf_nodup a.mode) w
  have htrace : (fireObservers frames callee a activity w).trace =
      e :: (each (fireObserver frames callee a activity) (w.observersOf a.mode) w).trace := rfl
  have hstate : (fireObservers frames callee a activity w).state =
      (each (fireObserver frames callee a activity) (w.observersOf a.mode) w).state := rfl
  rw [htrace, hstate]
  generalize each (fireObserver frames callee a activity) (w.observersOf a.mode) w = r at htally ⊢
  have hcalls : observerCalls o (e :: r.trace) = observerCalls o r.trace :=
    List.countP_cons_of_neg (by simp [isObserverCall, e])
  have hfindings : findings o x (e :: r.trace) = findings o x r.trace +
      if o ∈ w.observersOf a.mode ∧ Wants x activity then 1 else 0 := by
    rw [findings, List.countP_cons]
    simp [finds, e, findings]
  refine ⟨htally.observers, fun hfits => ?_, fun hfits hfound _ => ?_⟩
  · rw [hcalls, hfindings]
    exact htally.calls_le hfits
  · rw [hcalls, hfindings]
    refine htally.le_calls hfits (fun e' he' => hfound e' (List.mem_cons_of_mem _ he')) fun hpos => ?_
    split_ifs at hpos with hmem
    · exact hfound e List.mem_cons_self (decide_eq_true hmem)
    · exact absurd hpos (Nat.lt_irrefl 0)

end Firing

/-- Over a whole run, every call of the observer is at a firing that finds it. -/
theorem exec_tallied (o : Ref) (x : CFRunLoopObserverInner) (p : Prog T) (frames : List Frame) :
    Keeps (Tallied o x 0) (exec p frames) := by
  refine exec_keeps (R := fun _ => Tallied o x 0) (fun _ => Tallied.composes) ?_ ?_ p frames
  · intro frames call w
    exact .quiet (w.perform_undisturbed call).observers rfl rfl
  · intro frames callee mode seconds returnAfterSource hcallee
    have hmove : ∀ f : World T → World T, LoopMove f → Keeps (Tallied o x 0) (modify f) :=
      fun f hf => .move hf.observers
    refine cfRunLoopRunInMode_keeps_phases Tallied.composes (fun what hedge w => ?_) hmove
      (fun a => ⟨fireObservers_tallied (hcallee a), ?_⟩) mode
    · cases hedge <;> exact .quiet List.prefix_rfl rfl rfl
    · refine sourcePhase_keeps_firings Tallied.composes (fun what hnote w => ?_)
        (fun f hf => hmove f (.phase f hf)) (fireObservers_tallied (hcallee a))
        (fun inv hinv => callback_tallied (hcallee a) fun activity => hinv o activity) seconds
        returnAfterSource
      cases hnote <;> exact .quiet List.prefix_rfl rfl rfl

/-! ### Observers that do not repeat -/

/-- Every observer a firing finds has been created. -/
def FindsCreated (e : Ev T) : Prop :=
  ∀ a activity, e.what = .fire a activity → ∀ o ∈ e.world.observersOf a.mode, Created o e.world

/-- An observer is called at the firings that find it, whether it repeats or not. -/
theorem observerCalls_eq_findings (p : Prog T) (clock : Clock T)
    (h : ∀ e ∈ (exec p [] (World.new clock)).trace, FindsCreated e) {o : Ref}
    {x : CFRunLoopObserverInner} (hx : (exec p [] (World.new clock)).state.observers[o]? = some x) :
    observerCalls o (exec p [] (World.new clock)).trace =
      findings o x (exec p [] (World.new clock)).trace := by
  have htally := exec_tallied o x p [] (World.new clock)
  refine Nat.le_antisymm (htally.calls_le (.of_lookup hx)) ?_
  refine htally.le_calls (.of_lookup hx) (fun e he hfinds => ?_) fun hpos =>
    absurd hpos (Nat.lt_irrefl 0)
  unfold finds at hfinds
  split at hfinds
  · rename_i a activity hwhat
    exact h e he a activity hwhat o (of_decide_eq_true hfinds).1
  · exact nomatch hfinds

/-- **Observers that do not repeat.** In a run in which at most one firing finds
each of them, each is called at most once; and in no other, with observers that
are created before a firing finds them. -/
theorem observers_once (p : Prog T) (clock : Clock T) :
    let r := exec p [] (World.new clock)
    ((∀ o x, r.state.observers[o]? = some x → x.repeats = false → findings o x r.trace ≤ 1) →
      ∀ o x, r.state.observers[o]? = some x → x.repeats = false → observerCalls o r.trace ≤ 1) ∧
    ((∀ e ∈ r.trace, FindsCreated e) →
      (∀ o x, r.state.observers[o]? = some x → x.repeats = false → observerCalls o r.trace ≤ 1) →
      ∀ o x, r.state.observers[o]? = some x → x.repeats = false → findings o x r.trace ≤ 1) := by
  intro r
  refine ⟨fun hfound o x hx hrepeats => ?_, fun hcreated hcalls o x hx hrepeats => ?_⟩
  · have hle := (exec_tallied o x p [] (World.new clock)).calls_le (.of_lookup hx)
    exact Nat.le_trans hle (hfound o x hx hrepeats)
  · exact observerCalls_eq_findings p clock hcreated hx ▸ hcalls o x hx hrepeats

/-- A thread that adds an observer that does not repeat to the default mode and runs it. -/
def observerThread (activities : BitVec 64) : Prog Nat :=
  .api (.observerCreate activities false 0 (some 1) 0) fun _ =>
  .api (.addObserver true (some 0) none) fun _ =>
  .run none 0 false (fun _ _ => .done) fun _ => .done

/-- One that is only there for ENTRY is found and called once. -/
theorem observers_once_entry :
    observerCalls 0 (exec (observerThread K_CF_RUNLOOP_ENTRY) [] (World.new midnight)).trace ≤ 1 := by
  have hobservers : (exec (observerThread K_CF_RUNLOOP_ENTRY) [] (World.new midnight)).state.observers =
      [⟨K_CF_RUNLOOP_ENTRY, false, 0, some 1, 0⟩] := rfl
  have hfound : findings 0 ⟨K_CF_RUNLOOP_ENTRY, false, 0, some 1, 0⟩
      (exec (observerThread K_CF_RUNLOOP_ENTRY) [] (World.new midnight)).trace ≤ 1 := by
    decide +kernel
  refine (observers_once (observerThread K_CF_RUNLOOP_ENTRY) midnight).1 (fun o x hx _ => ?_) 0 _
    (by rw [hobservers]; rfl) rfl
  rw [hobservers] at hx
  obtain ⟨hlt, rfl⟩ := List.getElem?_eq_some_iff.mp hx
  cases Nat.lt_one_iff.mp hlt
  exact hfound

/-- An observer for ENTRY and EXIT is called for both, though it does not repeat. -/
theorem observer_called_again :
    ¬ ∀ (p : Prog Nat) (clock : Clock Nat) o x,
      (exec p [] (World.new clock)).state.observers[o]? = some x → x.repeats = false →
      observerCalls o (exec p [] (World.new clock)).trace ≤ 1 := by
  intro h
  have hobservers : (exec (observerThread (K_CF_RUNLOOP_ENTRY ||| K_CF_RUNLOOP_EXIT)) []
      (World.new midnight)).state.observers =
        [⟨K_CF_RUNLOOP_ENTRY ||| K_CF_RUNLOOP_EXIT, false, 0, some 1, 0⟩] := rfl
  refine absurd (h (observerThread (K_CF_RUNLOOP_ENTRY ||| K_CF_RUNLOOP_EXIT)) midnight 0 _
    (by rw [hobservers]; rfl) rfl) ?_
  decide +kernel

end Grafted.Cf.RunLoop

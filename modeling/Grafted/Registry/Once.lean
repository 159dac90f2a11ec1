import Mathlib.Logic.Function.Basic
import Grafted.Base.Transition

/-! `swift_once`, `dispatch_once_f` and `__cxa_guard_acquire`.

All three load the predicate, store a mark over a zero, and leave the rest to the
initialiser: the functions call it, the guard's caller runs it between the acquire and a
release or an abort, which do nothing. A call that loads the mark returns at once. So the
initialiser completes once and nobody returns before it exactly when no call is made while
one is in progress (`once_holds`), and after an abort it is not run again. -/
namespace Grafted.Registry.Once
open Transition

/-- A function of the registry and its mark. -/
structure Entry where
  mark : BitVec 64
  marks : mark ≠ 0
  /-- The initialiser may end in an abort. -/
  aborts : Bool

theorem minusOne_ne_zero : (-1 : BitVec 64) ≠ 0 := by decide

theorem one_ne_zero_word : (1 : BitVec 64) ≠ 0 := by decide

def swiftOnce : Entry := ⟨-1, minusOne_ne_zero, false⟩
def dispatchOnceF : Entry := ⟨-1, minusOne_ne_zero, false⟩
def cxaGuardAcquire : Entry := ⟨1, one_ne_zero_word, true⟩

/-- A call in progress. -/
inductive Frame where
  /-- It has loaded zero. -/
  | store
  /-- It has stored the mark: its initialiser runs. -/
  | running
  deriving DecidableEq

structure State where
  word : BitVec 64
  /-- The calls a thread is in, the innermost first: an initialiser may call again. -/
  stack : Nat → List Frame
  /-- How often the initialiser has run to completion, and how often it was aborted. -/
  completed : Nat
  aborted : Nat

def State.new : State := ⟨0, fun _ => [], 0, 0⟩

def State.setStack (s : State) (thread : Nat) (stack : List Frame) : State :=
  {s with stack := Function.update s.stack thread stack}

/-- The thread runs code of its own, perhaps an initialiser. -/
def State.outside (s : State) (thread : Nat) : Bool := (s.stack thread).head? != some .store

inductive Action where
  | call (thread : Nat)
  /-- The innermost call of the thread goes on: it stores the mark, or its initialiser
  completes. -/
  | resume (thread : Nat)
  | abort (thread : Nat)
  deriving DecidableEq

inductive Answer where
  /-- Not a step the thread can take. -/
  | nothing
  | loaded
  /-- The call has returned without running the initialiser. -/
  | skipped
  | started
  | completed
  | aborted
  deriving DecidableEq

/-- The load of a call. -/
def call (s : State) (thread : Nat) : State × Answer :=
  if s.outside thread then
    if s.word = 0 then (s.setStack thread (.store :: s.stack thread), .loaded)
    else (s, .skipped)
  else (s, .nothing)

def resume (entry : Entry) (s : State) (thread : Nat) : State × Answer :=
  match s.stack thread with
  | .store :: rest => ({s.setStack thread (.running :: rest) with word := entry.mark}, .started)
  | .running :: rest => ({s.setStack thread rest with completed := s.completed + 1}, .completed)
  | [] => (s, .nothing)

def abort (entry : Entry) (s : State) (thread : Nat) : State × Answer :=
  match s.stack thread with
  | .running :: rest =>
    if entry.aborts then ({s.setStack thread rest with aborted := s.aborted + 1}, .aborted)
    else (s, .nothing)
  | _ => (s, .nothing)

def perform (entry : Entry) (s : State) : Action → State × Answer
  | .call thread => call s thread
  | .resume thread => resume entry s thread
  | .abort thread => abort entry s thread

def onceSystem (entry : Entry) : System State Action Answer := ⟨perform entry⟩

abbrev OnceEvent := Event State Action Answer

/-- A call is made only when none is in progress, and no initialiser was aborted. -/
def Alone (e : OnceEvent) : Prop :=
  ∀ thread, e.action = .call thread → e.before.outside thread = true →
    (∀ other, e.before.stack other = []) ∧ e.before.aborted = 0

/-- What a step does under a once predicate. -/
structure Obeys (e : OnceEvent) : Prop where
  once : e.after.completed ≤ 1
  waits : e.answer = .skipped → 0 < e.before.completed
  /-- Until the initialiser has completed, a call runs it if no other does. -/
  retries : ∀ thread, e.action = .call thread → (∀ other, e.before.stack other = []) →
    e.before.completed = 0 → e.answer = .loaded

/-! ### The step -/

/-- What a step is. -/
inductive Stepped (entry : Entry) (s : State) : Action → State → Answer → Prop where
  | loaded {thread : Nat} : s.outside thread = true → s.word = 0 →
    Stepped entry s (.call thread) (s.setStack thread (.store :: s.stack thread)) .loaded
  | skipped {thread : Nat} : s.outside thread = true → s.word ≠ 0 →
    Stepped entry s (.call thread) s .skipped
  | started {thread : Nat} {rest : List Frame} : s.stack thread = .store :: rest →
    Stepped entry s (.resume thread)
      {s.setStack thread (.running :: rest) with word := entry.mark} .started
  | completed {thread : Nat} {rest : List Frame} : s.stack thread = .running :: rest →
    Stepped entry s (.resume thread)
      {s.setStack thread rest with completed := s.completed + 1} .completed
  | aborted {thread : Nat} {rest : List Frame} : s.stack thread = .running :: rest →
    Stepped entry s (.abort thread) {s.setStack thread rest with aborted := s.aborted + 1} .aborted
  | nothing {a : Action} : (∀ thread, a = .call thread → s.outside thread = false) →
    Stepped entry s a s .nothing

theorem stepped (entry : Entry) (s : State) (a : Action) :
    Stepped entry s a (perform entry s a).1 (perform entry s a).2 := by
  cases a with
  | call thread =>
    show Stepped entry s _ (call s thread).1 (call s thread).2
    unfold call
    by_cases hout : s.outside thread = true
    · rw [if_pos hout]
      by_cases hword : s.word = 0
      · rw [if_pos hword]
        exact .loaded hout hword
      · rw [if_neg hword]
        exact .skipped hout hword
    · rw [if_neg hout]
      refine .nothing fun other heq => ?_
      cases heq
      exact Bool.eq_false_iff.mpr hout
  | resume thread =>
    show Stepped entry s _ (resume entry s thread).1 (resume entry s thread).2
    unfold resume
    rcases hstack : s.stack thread with _ | ⟨_ | _, rest⟩
    · exact .nothing fun _ h => nomatch h
    · exact .started hstack
    · exact .completed hstack
  | abort thread =>
    show Stepped entry s _ (abort entry s thread).1 (abort entry s thread).2
    unfold abort
    rcases hstack : s.stack thread with _ | ⟨_ | _, rest⟩
    · exact .nothing fun _ h => nomatch h
    · exact .nothing fun _ h => nomatch h
    · dsimp only
      split_ifs
      · exact .aborted hstack
      · exact .nothing fun _ h => nomatch h

section Stack
variable {s : State} {thread : Nat} {stack : List Frame}

@[simp] theorem setStack_same : (s.setStack thread stack).stack thread = stack :=
  Function.update_self ..

@[simp] theorem setStack_other {other : Nat} (h : other ≠ thread) :
    (s.setStack thread stack).stack other = s.stack other := Function.update_of_ne h ..

theorem setStack_length (other : Nat) : ((s.setStack thread stack).stack other).length =
    if other = thread then stack.length else (s.stack other).length := by
  by_cases h : other = thread
  · rw [if_pos h, h, setStack_same]
  · rw [if_neg h, setStack_other h]

theorem mem_setStack {other : Nat} {frame : Frame} (h : frame ∈ (s.setStack thread stack).stack other) :
    frame ∈ stack ∨ frame ∈ s.stack other := by
  by_cases ho : other = thread
  · rw [ho, setStack_same] at h
    exact .inl h
  · rw [setStack_other ho] at h
    exact .inr h

end Stack

/-! ### Runs in which calls are made alone -/

/-- The only call in progress is the thread's, in the frame. -/
structure Only (s : State) (thread : Nat) (frame : Frame) : Prop where
  own : s.stack thread = [frame]
  others : ∀ other, other ≠ thread → s.stack other = []

/-- What has happened to the predicate. -/
inductive Phase (s : State) : Prop where
  | fresh : s.word = 0 → s.completed = 0 → s.aborted = 0 → (∀ thread, s.stack thread = []) → Phase s
  | storing {thread : Nat} : s.word = 0 → s.completed = 0 → s.aborted = 0 →
    Only s thread .store → Phase s
  | running {thread : Nat} : s.word ≠ 0 → s.completed = 0 → s.aborted = 0 →
    Only s thread .running → Phase s
  | done : s.word ≠ 0 → s.completed = 1 → s.aborted = 0 → (∀ thread, s.stack thread = []) → Phase s
  | aborted : s.word ≠ 0 → s.completed = 0 → 0 < s.aborted → (∀ thread, s.stack thread = []) → Phase s

theorem phase_new : Phase .new := .fresh rfl rfl rfl fun _ => rfl

/-- In progress is one thread's call, and its frame says which phase it is. -/
theorem phase_progress {s : State} {thread : Nat} {frame : Frame} {rest : List Frame} (h : Phase s)
    (hstack : s.stack thread = frame :: rest) :
    s.completed = 0 ∧ s.aborted = 0 ∧ (frame = .running → s.word ≠ 0) ∧ Only s thread frame := by
  have hempty : (∀ other, s.stack other = []) → False := by
    intro hall
    rw [hall thread] at hstack
    exact nomatch hstack
  have honly : ∀ {owner : Nat} {f : Frame}, Only s owner f → frame = f ∧ Only s thread f := by
    intro owner f only
    have howner : thread = owner := by
      by_contra hne
      rw [only.others thread hne] at hstack
      exact nomatch hstack
    rw [howner]
    rw [howner, only.own] at hstack
    cases hstack
    exact ⟨rfl, only⟩
  cases h with
  | fresh _ _ _ hall => exact (hempty hall).elim
  | storing hword hcompleted haborted only =>
    obtain ⟨rfl, only⟩ := honly only
    exact ⟨hcompleted, haborted, fun h => (nomatch h), only⟩
  | running hword hcompleted haborted only =>
    obtain ⟨rfl, only⟩ := honly only
    exact ⟨hcompleted, haborted, fun _ => hword, only⟩
  | done _ _ _ hall => exact (hempty hall).elim
  | aborted _ _ _ hall => exact (hempty hall).elim

theorem Only.tail {s : State} {thread : Nat} {frame frame' : Frame} {rest : List Frame}
    (only : Only s thread frame) (hstack : s.stack thread = frame' :: rest) : rest = [] := by
  rw [only.own] at hstack
  cases hstack
  rfl

/-- Setting the stack of the only thread in a call. -/
theorem Only.set {s : State} {thread : Nat} {frame frame' : Frame} (only : Only s thread frame) :
    Only (s.setStack thread [frame']) thread frame' :=
  ⟨setStack_same, fun other hne => (setStack_other hne).trans (only.others other hne)⟩

theorem Only.clear {s : State} {thread : Nat} {frame : Frame} (only : Only s thread frame) :
    ∀ other, (s.setStack thread []).stack other = [] := by
  intro other
  by_cases hne : other = thread
  · rw [hne, setStack_same]
  · rw [setStack_other hne]
    exact only.others other hne

theorem phase_step {entry : Entry} (s : State) (a : Action) (h : Phase s)
    (halone : Alone ((onceSystem entry).event s a)) : Phase ((onceSystem entry).step s a).1 := by
  show Phase (perform entry s a).1
  have hstep := stepped entry s a
  generalize perform entry s a = result at hstep
  obtain ⟨s', answer⟩ := result
  cases hstep with
  | @loaded thread hout hword =>
    obtain ⟨hall, haborted⟩ := halone thread rfl hout
    have hempty : ∀ other, s.stack other = [] := hall
    have honly : Only (s.setStack thread (.store :: s.stack thread)) thread .store := by
      rw [hempty thread]
      exact ⟨setStack_same, fun other hne => (setStack_other hne).trans (hempty other)⟩
    cases h with
    | fresh _ hcompleted haborted _ => exact .storing hword hcompleted haborted honly
    | storing _ hcompleted haborted _ => exact .storing hword hcompleted haborted honly
    | running hmarked _ _ _ => exact absurd hword hmarked
    | done hmarked _ _ _ => exact absurd hword hmarked
    | aborted hmarked _ _ _ => exact absurd hword hmarked
  | skipped => exact h
  | started hstack =>
    obtain ⟨hcompleted, haborted, -, only⟩ := phase_progress h hstack
    rw [only.tail hstack]
    exact .running entry.marks hcompleted haborted ⟨only.set.own, only.set.others⟩
  | completed hstack =>
    obtain ⟨hcompleted, haborted, hmarked, only⟩ := phase_progress h hstack
    rw [only.tail hstack]
    exact .done (hmarked rfl) (congrArg (· + 1) hcompleted) haborted only.clear
  | aborted hstack =>
    obtain ⟨hcompleted, haborted, hmarked, only⟩ := phase_progress h hstack
    rw [only.tail hstack]
    exact .aborted (hmarked rfl) hcompleted (Nat.succ_pos _) only.clear
  | nothing => exact h

theorem Phase.completed_le {s : State} (h : Phase s) : s.completed ≤ 1 := by
  cases h <;> omega

/-- With no call in progress and no abort behind it, the predicate is zero or the
initialiser has completed. -/
theorem Phase.settled {s : State} (h : Phase s) (hall : ∀ thread, s.stack thread = [])
    (haborted : s.aborted = 0) : (s.word = 0 ∧ s.completed = 0) ∨ (s.word ≠ 0 ∧ s.completed = 1) := by
  cases h with
  | fresh hword hcompleted _ _ => exact .inl ⟨hword, hcompleted⟩
  | storing _ _ _ only => exact nomatch (hall _).symm.trans only.own
  | running _ _ _ only => exact nomatch (hall _).symm.trans only.own
  | done hword hcompleted _ _ => exact .inr ⟨hword, hcompleted⟩
  | aborted _ _ hpos _ => omega

theorem outside_of_empty {s : State} {thread : Nat} (h : s.stack thread = []) :
    s.outside thread = true := by
  rw [State.outside, h]
  rfl

theorem phase_obeys {entry : Entry} (s : State) (a : Action) (h : Phase s)
    (halone : Alone ((onceSystem entry).event s a)) : Obeys ((onceSystem entry).event s a) := by
  have hafter := phase_step s a h halone
  refine ⟨hafter.completed_le, ?_, ?_⟩
  · intro hanswer
    have hskipped : (perform entry s a).2 = .skipped := hanswer
    have hstep := stepped entry s a
    rw [hskipped] at hstep
    generalize (perform entry s a).1 = s' at hstep
    cases hstep with
    | @skipped thread hout hword =>
      obtain ⟨hall, haborted⟩ := halone thread rfl hout
      rcases h.settled hall haborted with ⟨hzero, -⟩ | ⟨-, hcompleted⟩
      · exact absurd hzero hword
      · show 0 < s.completed
        omega
  · intro thread haction hall hcompleted
    have haction' : a = .call thread := haction
    subst haction'
    have hout : s.outside thread = true := outside_of_empty (hall thread)
    obtain ⟨-, haborted⟩ := halone thread rfl hout
    rcases h.settled hall haborted with ⟨hzero, -⟩ | ⟨-, hone⟩
    · show (call s thread).2 = .loaded
      rw [call, if_pos hout, if_pos hzero]
    · exact nomatch hone.symm.trans hcompleted

/-! ### Runs in which one is not -/

/-- What the predicate says in any run. -/
structure Sound (s : State) : Prop where
  marked : ∀ thread, Frame.running ∈ s.stack thread → s.word ≠ 0
  owed : s.word ≠ 0 → s.aborted = 0 → 0 < s.completed ∨ ∃ thread, Frame.running ∈ s.stack thread

theorem sound_step {entry : Entry} (s : State) (a : Action) (h : Sound s) :
    Sound ((onceSystem entry).step s a).1 := by
  show Sound (perform entry s a).1
  have hstep := stepped entry s a
  generalize perform entry s a = result at hstep
  obtain ⟨s', answer⟩ := result
  cases hstep with
  | @loaded thread _ hword =>
    refine ⟨fun other hmem => ?_, fun hmarked => absurd hword hmarked⟩
    rcases mem_setStack hmem with hnew | hold
    · rcases List.mem_cons.mp hnew with heq | hold
      · exact nomatch heq
      · exact h.marked thread hold
    · exact h.marked other hold
  | skipped => exact h
  | @started thread rest _ =>
    refine ⟨fun _ _ => entry.marks, fun _ _ => .inr ⟨thread, ?_⟩⟩
    show Frame.running ∈ (s.setStack thread (.running :: rest)).stack thread
    rw [setStack_same]
    exact List.mem_cons_self
  | @completed thread rest hstack =>
    refine ⟨fun other hmem => ?_, fun _ _ => .inl (Nat.succ_pos _)⟩
    rcases mem_setStack hmem with hrest | hold
    · exact h.marked thread (hstack ▸ List.mem_cons_of_mem _ hrest)
    · exact h.marked other hold
  | @aborted thread rest hstack =>
    refine ⟨fun other hmem => ?_, fun _ haborted => (nomatch haborted)⟩
    rcases mem_setStack hmem with hrest | hold
    · exact h.marked thread (hstack ▸ List.mem_cons_of_mem _ hrest)
    · exact h.marked other hold
  | nothing => exact h

/-- A step of one thread that takes from its calls no more than it completes. -/
theorem two_setStack {s : State} {actor thread other : Nat} {stack : List Frame} (completed : Nat)
    (hne : thread ≠ other) (hcalls : s.completed + (s.stack actor).length ≤ completed + stack.length)
    (hmore : s.completed ≤ completed)
    (h : 2 ≤ s.completed + (s.stack thread).length + (s.stack other).length) :
    2 ≤ completed + ((s.setStack actor stack).stack thread).length +
      ((s.setStack actor stack).stack other).length := by
  rw [setStack_length, setStack_length]
  by_cases hthread : thread = actor
  · subst hthread
    rw [if_pos rfl, if_neg (Ne.symm hne)]
    omega
  · rw [if_neg hthread]
    by_cases hother : other = actor
    · subst hother
      rw [if_pos rfl]
      omega
    · rw [if_neg hother]
      omega

/-- Short of an abort, the initialiser will have completed twice: as often as it has, and
once more for every call the two threads are in. -/
def Two (thread other : Nat) (s : State) : Prop :=
  0 < s.aborted ∨ 2 ≤ s.completed + (s.stack thread).length + (s.stack other).length

theorem two_step {entry : Entry} {thread other : Nat} (hne : thread ≠ other) (s : State) (a : Action)
    (h : Two thread other s) : Two thread other ((onceSystem entry).step s a).1 := by
  show Two thread other (perform entry s a).1
  have hstep := stepped entry s a
  generalize perform entry s a = result at hstep
  obtain ⟨s', answer⟩ := result
  rcases h with haborted | htwo
  · left
    cases hstep with
    | aborted _ => exact Nat.succ_pos _
    | _ => exact haborted
  cases hstep with
  | loaded => exact .inr (two_setStack s.completed hne (Nat.le_succ _) (Nat.le_refl _) htwo)
  | skipped => exact .inr htwo
  | started hstack =>
    refine .inr (two_setStack s.completed hne ?_ (Nat.le_refl _) htwo)
    rw [hstack]
    exact Nat.le_refl _
  | completed hstack =>
    refine .inr (two_setStack (s.completed + 1) hne ?_ (Nat.le_succ _) htwo)
    rw [hstack, List.length_cons]
    omega
  | aborted => exact .inl (Nat.succ_pos _)
  | nothing => exact .inr htwo

theorem aborted_step {entry : Entry} (s : State) (a : Action) (h : 0 < s.aborted) :
    0 < ((onceSystem entry).step s a).1.aborted := by
  show 0 < (perform entry s a).1.aborted
  have hstep := stepped entry s a
  generalize perform entry s a = result at hstep
  obtain ⟨s', answer⟩ := result
  cases hstep with
  | aborted => exact Nat.succ_pos _
  | _ => exact h

/-- A call was made: the predicate is marked, or the call is in progress. -/
def Begun (s : State) : Prop := s.word ≠ 0 ∨ ∃ thread, s.stack thread ≠ []

theorem begun_call (s : State) (thread : Nat) : Begun (call s thread).1 := by
  unfold call
  by_cases hout : s.outside thread = true
  · rw [if_pos hout]
    by_cases hword : s.word = 0
    · rw [if_pos hword]
      refine .inr ⟨thread, ?_⟩
      rw [setStack_same]
      exact List.cons_ne_nil _ _
    · rw [if_neg hword]
      exact .inl hword
  · rw [if_neg hout]
    refine .inr ⟨thread, fun hempty => hout (outside_of_empty hempty)⟩

theorem begun_step {entry : Entry} (s : State) (a : Action) (h : Sound s ∧ Begun s) :
    Sound ((onceSystem entry).step s a).1 ∧ Begun ((onceSystem entry).step s a).1 := by
  refine ⟨sound_step s a h.1, ?_⟩
  show Begun (perform entry s a).1
  have hmarked : ∀ {thread rest}, s.stack thread = .running :: rest → s.word ≠ 0 := by
    intro thread rest hstack
    exact h.1.marked thread (hstack ▸ List.mem_cons_self)
  have hstep := stepped entry s a
  generalize perform entry s a = result at hstep
  obtain ⟨s', answer⟩ := result
  cases hstep with
  | @loaded thread _ _ =>
    refine .inr ⟨thread, ?_⟩
    show (s.setStack thread (.store :: s.stack thread)).stack thread ≠ []
    rw [setStack_same]
    exact List.cons_ne_nil _ _
  | skipped => exact h.2
  | started => exact .inl entry.marks
  | completed hstack => exact .inl (hmarked hstack)
  | aborted hstack => exact .inl (hmarked hstack)
  | nothing => exact h.2

/-- A call beside one in progress: the initialiser will have completed twice, unless the
call returns before it has once. -/
theorem two_of_beside {entry : Entry} {s : State} {thread busy : Nat} (hsound : Sound s)
    (hout : s.outside thread = true) (hbusy : s.stack busy ≠ [])
    (hobeys : Obeys ((onceSystem entry).event s (.call thread))) :
    ∃ other, busy ≠ other ∧ Two busy other ((onceSystem entry).step s (.call thread)).1 := by
  have hframes : 0 < (s.stack busy).length := List.length_pos_iff.mpr hbusy
  by_cases hword : s.word = 0
  · have hne : busy ≠ thread := by
      intro heq
      subst heq
      cases hstack : s.stack busy with
      | nil => exact hbusy hstack
      | cons frame rest =>
        cases frame with
        | store => simp [State.outside, hstack] at hout
        | running => exact hsound.marked busy (hstack ▸ List.mem_cons_self) hword
    refine ⟨thread, hne, .inr ?_⟩
    show 2 ≤ (call s thread).1.completed + ((call s thread).1.stack busy).length +
      ((call s thread).1.stack thread).length
    simp only [call, if_pos hout, if_pos hword, setStack_length, if_neg hne, if_true,
      List.length_cons]
    omega
  · have hanswer : (call s thread).2 = .skipped := by
      rw [call, if_pos hout, if_neg hword]
    have hcompleted : 0 < s.completed := hobeys.waits hanswer
    refine ⟨busy + 1, by omega, .inr ?_⟩
    show 2 ≤ (call s thread).1.completed + ((call s thread).1.stack busy).length + _
    simp only [call, if_pos hout, if_neg hword]
    omega

/-! ### The predicate -/

/-- Every call made has returned. -/
def Quiet (s : State) : Prop := ∀ thread, s.stack thread = []

/-- **The initialiser completes once and before anybody returns** in a run of complete
calls without an abort exactly when every call is made while no other is in progress. In
any run in which it is, and none is made after an abort, every step obeys. -/
theorem once_holds (entry : Entry) (actions : List Action) :
    ((onceSystem entry).Along Alone .new actions → (onceSystem entry).Along Obeys .new actions) ∧
    (Quiet ((onceSystem entry).run .new actions) →
      ((onceSystem entry).run .new actions).aborted = 0 → (∃ thread, .call thread ∈ actions) →
      (((onceSystem entry).run .new actions).completed = 1 ∧
          (onceSystem entry).Along Obeys .new actions ↔
        (onceSystem entry).Along Alone .new actions)) := by
  have hobeys : (onceSystem entry).Along Alone .new actions →
      (onceSystem entry).Along Obeys .new actions :=
    System.Along.of_invariant phase_step phase_obeys phase_new
  have hsound : ∀ before, Sound ((onceSystem entry).run .new before) :=
    System.run_invariant sound_step ⟨fun _ h => absurd h List.not_mem_nil, fun h => absurd rfl h⟩
  refine ⟨hobeys, fun hquiet haborted hcalled => ⟨fun honce => ?_, fun halone => ⟨?_, hobeys halone⟩⟩⟩
  · by_contra hnot
    obtain ⟨before, a, after, rfl, hbad⟩ := System.exists_of_not_along hnot
    rw [System.run_append] at honce hquiet haborted
    obtain ⟨thread, hbad⟩ := Classical.not_forall.mp hbad
    obtain ⟨haction, hbad⟩ := Classical.not_imp.mp hbad
    obtain ⟨hout, hbad⟩ := Classical.not_imp.mp hbad
    have haction' : a = .call thread := haction
    subst haction'
    have hnone : ((onceSystem entry).run .new before).aborted = 0 := by
      by_contra hpos
      have hlater := System.run_invariant (M := onceSystem entry) aborted_step
        (Nat.pos_of_ne_zero hpos) (.call thread :: after)
      omega
    obtain ⟨busy, hbusy⟩ := Classical.not_forall.mp fun hall => hbad ⟨hall, hnone⟩
    obtain ⟨-, hcall⟩ := System.along_append.mp honce.2
    obtain ⟨other, hne, htwo⟩ := two_of_beside (hsound before) hout hbusy
      (System.along_cons.mp hcall).1
    have hend : Two busy other ((onceSystem entry).run ((onceSystem entry).run .new before)
        (.call thread :: after)) := System.run_invariant (two_step hne) htwo after
    rcases hend with haborts | htwice
    · omega
    · rw [hquiet busy, hquiet other, List.length_nil] at htwice
      omega
  · have hphase : Phase ((onceSystem entry).run .new actions) :=
      System.Along.run_invariant phase_step phase_new halone
    rcases hphase.settled hquiet haborted with ⟨hzero, -⟩ | ⟨-, hone⟩
    · obtain ⟨thread, hmem⟩ := hcalled
      obtain ⟨before, after, rfl⟩ := List.append_of_mem hmem
      rw [System.run_append] at hzero hquiet
      have hcall : Sound ((onceSystem entry).step ((onceSystem entry).run .new before)
          (.call thread)).1 ∧ Begun ((onceSystem entry).step ((onceSystem entry).run .new before)
          (.call thread)).1 := ⟨sound_step _ _ (hsound before), begun_call _ thread⟩
      rcases (System.run_invariant begun_step hcall after).2 with hmarked | ⟨other, hother⟩
      · exact absurd hzero hmarked
      · exact absurd (hquiet other) hother
    · exact hone

/-- Nothing clears the mark: once an initialiser was aborted, no call runs it again. -/
theorem abort_not_retried (entry : Entry) (actions : List Action)
    (halone : (onceSystem entry).Along Alone .new actions)
    (haborted : 0 < ((onceSystem entry).run .new actions).aborted) (thread : Nat) :
    ¬ Obeys ((onceSystem entry).event ((onceSystem entry).run .new actions) (.call thread)) := by
  intro hobeys
  have hphase : Phase ((onceSystem entry).run .new actions) :=
    System.Along.run_invariant phase_step phase_new halone
  cases hphase with
  | aborted hword hcompleted _ hall =>
    have hanswer := hobeys.retries thread rfl hall hcompleted
    have hskipped : (call ((onceSystem entry).run .new actions) thread).2 = .skipped := by
      rw [call, if_pos (outside_of_empty (hall thread)), if_neg hword]
    exact nomatch hskipped.symm.trans hanswer
  | fresh _ _ hnone _ => omega
  | storing _ _ hnone _ => omega
  | running _ _ hnone _ => omega
  | done _ _ hnone _ => omega

/-- One thread's call after another's has returned. -/
theorem once_holds_in_turn :
    (onceSystem swiftOnce).Along Obeys .new [.call 0, .resume 0, .resume 0, .call 1] := by
  apply (once_holds swiftOnce [.call 0, .resume 0, .resume 0, .call 1]).1
  refine System.along_cons.mpr ⟨fun _ _ _ => ⟨fun _ => rfl, rfl⟩, ?_⟩
  refine System.along_cons.mpr ⟨fun _ h => (nomatch h), ?_⟩
  refine System.along_cons.mpr ⟨fun _ h => (nomatch h), ?_⟩
  refine System.along_cons.mpr ⟨fun _ _ _ => ⟨fun other => ?_, rfl⟩, System.along_nil _ _⟩
  by_cases hother : other = 0
  · subst hother
    rfl
  · exact (setStack_other hother).trans ((setStack_other hother).trans (setStack_other hother))

/-- The second call returns while the initialiser runs, on another thread and from the
initialiser itself; two calls that both load zero both run it; and the call after an abort
returns without running it. -/
theorem once_violated :
    ¬ Obeys ((onceSystem dispatchOnceF).event
      ((onceSystem dispatchOnceF).run .new [.call 0, .resume 0]) (.call 1)) ∧
    ¬ Obeys ((onceSystem dispatchOnceF).event
      ((onceSystem dispatchOnceF).run .new [.call 0, .resume 0]) (.call 0)) ∧
    ((onceSystem swiftOnce).run .new
      [.call 0, .call 1, .resume 0, .resume 1, .resume 0, .resume 1]).completed = 2 ∧
    (perform cxaGuardAcquire ((onceSystem cxaGuardAcquire).run .new
      [.call 0, .resume 0, .abort 0]) (.call 1)).2 = .skipped := by
  refine ⟨fun h => ?_, fun h => ?_, by decide, by decide⟩
  · exact absurd (h.waits (by decide)) (by decide)
  · exact absurd (h.waits (by decide)) (by decide)

end Grafted.Registry.Once

import Mathlib.Logic.Function.Basic
import Grafted.Base.Transition

/-! `pthread_once` on a Darwin control.

The shim reads the first word of the control, writes the Linux initialiser over the Darwin
one, and calls the host. The read and the write are steps of their own, so a run is any
order of the threads' steps. The init routine runs once exactly when no host call finds a
thread between the two (`init_runs_once`). -/
namespace Grafted.Dyld.PthreadOnce
open Transition

def DARWIN_PTHREAD_ONCE_INIT : BitVec 32 := 0x30B1BCBA

/-- The host's `pthread_once` on the first word of the control: whether it runs the init
routine, and the word it leaves. -/
structure HostOnce where
  call : BitVec 32 → Bool × BitVec 32
  done : BitVec 32
  first : call 0 = (true, done)
  again : call done = (false, done)
  not_darwin : done ≠ DARWIN_PTHREAD_ONCE_INIT

/-- Where a thread is in `shim_pthread_once`. -/
inductive Pc where
  | idle
  /-- It has read the Darwin initialiser. -/
  | reset
  | host
  deriving DecidableEq

structure State where
  word : BitVec 32
  pc : Nat → Pc
  /-- How often the init routine has run. -/
  inits : Nat
  /-- How many calls have returned. -/
  returned : Nat

def State.new : State := ⟨DARWIN_PTHREAD_ONCE_INIT, fun _ => .idle, 0, 0⟩

def State.setPc (s : State) (thread : Nat) (pc : Pc) : State :=
  {s with pc := Function.update s.pc thread pc}

/-- The next step of a thread; an idle one makes a call. -/
def shimPthreadOnce (host : HostOnce) (s : State) (thread : Nat) : State :=
  match s.pc thread with
  | .idle => if s.word = DARWIN_PTHREAD_ONCE_INIT then s.setPc thread .reset else s.setPc thread .host
  | .reset => {s.setPc thread .host with word := 0}
  | .host =>
    { s.setPc thread .idle with
      word := (host.call s.word).2
      inits := s.inits + (host.call s.word).1.toNat
      returned := s.returned + 1 }

def onceSystem (host : HostOnce) : System State Nat Unit :=
  ⟨fun s thread => (shimPthreadOnce host s thread, ())⟩

/-- A host call is made only when no thread has read the Darwin initialiser and not yet
written over it. -/
def Settled (e : Event State Nat Unit) : Prop :=
  e.before.pc e.action = .host → ∀ thread, e.before.pc thread ≠ .reset

section Steps
variable {host : HostOnce} {s : State} {thread : Nat}

@[simp] theorem setPc_same (pc : Pc) : (s.setPc thread pc).pc thread = pc := Function.update_self ..

@[simp] theorem setPc_other {other : Nat} (pc : Pc) (h : other ≠ thread) :
    (s.setPc thread pc).pc other = s.pc other := Function.update_of_ne h ..

/-- A thread at `pc` after one was set there, or one that is not the set thread. -/
theorem setPc_cases {other : Nat} {pc at' : Pc} (h : (s.setPc thread pc).pc other = at') :
    pc = at' ∨ (other ≠ thread ∧ s.pc other = at') := by
  by_cases ho : other = thread
  · subst ho
    rw [setPc_same] at h
    exact .inl h
  · rw [setPc_other pc ho] at h
    exact .inr ⟨ho, h⟩

/-- What a step is. -/
inductive Stepped (host : HostOnce) (s : State) (thread : Nat) : State → Prop where
  | found : s.pc thread = .idle → s.word = DARWIN_PTHREAD_ONCE_INIT →
    Stepped host s thread (s.setPc thread .reset)
  | passed : s.pc thread = .idle → s.word ≠ DARWIN_PTHREAD_ONCE_INIT →
    Stepped host s thread (s.setPc thread .host)
  | wrote : s.pc thread = .reset → Stepped host s thread {s.setPc thread .host with word := 0}
  | called : s.pc thread = .host → Stepped host s thread
    { s.setPc thread .idle with
      word := (host.call s.word).2
      inits := s.inits + (host.call s.word).1.toNat
      returned := s.returned + 1 }

theorem stepped (host : HostOnce) (s : State) (thread : Nat) :
    Stepped host s thread (shimPthreadOnce host s thread) := by
  unfold shimPthreadOnce
  cases hpc : s.pc thread with
  | idle =>
    by_cases hword : s.word = DARWIN_PTHREAD_ONCE_INIT
    · simp only [if_pos hword]
      exact .found hpc hword
    · simp only [if_neg hword]
      exact .passed hpc hword
  | reset => exact .wrote hpc
  | host => exact .called hpc

theorem step_pc_other {other : Nat} (h : other ≠ thread) :
    (shimPthreadOnce host s thread).pc other = s.pc other := by
  have hstep := stepped host s thread
  generalize shimPthreadOnce host s thread = s' at hstep
  cases hstep with
  | found => exact setPc_other _ h
  | passed => exact setPc_other _ h
  | wrote => exact setPc_other _ h
  | called => exact setPc_other _ h

/-- A thread that takes no step stays where it is. -/
theorem run_pc_other {other : Nat} {threads : List Nat} (h : other ∉ threads) :
    ((onceSystem host).run s threads).pc other = s.pc other := by
  induction threads generalizing s with
  | nil => rfl
  | cons first rest ih =>
    obtain ⟨hne, hrest⟩ := not_or.mp (mt List.mem_cons.mpr h)
    exact (ih hrest).trans (step_pc_other hne)

end Steps

/-! ### Runs without a thread between -/

/-- What has happened to the control. -/
inductive Phase (host : HostOnce) (s : State) : Prop where
  | fresh : s.word = DARWIN_PTHREAD_ONCE_INIT → s.inits = 0 → s.returned = 0 →
    (∀ thread, s.pc thread ≠ .host) → Phase host s
  | cleared : s.word = 0 → s.inits = 0 → s.returned = 0 → Phase host s
  | done : s.word = host.done → s.inits = 1 → (∀ thread, s.pc thread ≠ .reset) → Phase host s

/-- No thread comes to a place by another being set elsewhere. -/
theorem setPc_ne {s : State} {thread : Nat} {pc at' : Pc} (hne : pc ≠ at')
    (h : ∀ other, s.pc other ≠ at') : ∀ other, (s.setPc thread pc).pc other ≠ at' := by
  intro other hother
  rcases setPc_cases hother with heq | ⟨-, hbefore⟩
  · exact hne heq
  · exact h other hbefore

theorem phase_step {host : HostOnce} (s : State) (thread : Nat) (h : Phase host s)
    (hsettled : Settled ((onceSystem host).event s thread)) :
    Phase host ((onceSystem host).step s thread).1 := by
  show Phase host (shimPthreadOnce host s thread)
  have hzero : (0 : BitVec 32) ≠ DARWIN_PTHREAD_ONCE_INIT := by decide
  have hstep := stepped host s thread
  generalize shimPthreadOnce host s thread = s' at hstep
  cases hstep with
  | found hpc hword =>
    cases h with
    | fresh hdarwin hinits hreturned hhost =>
      exact .fresh hdarwin hinits hreturned (setPc_ne (by decide) hhost)
    | cleared hclear _ _ =>
      rw [hclear] at hword
      exact absurd hword hzero
    | done hdone _ _ =>
      rw [hdone] at hword
      exact absurd hword host.not_darwin
  | passed hpc hword =>
    cases h with
    | fresh hdarwin _ _ _ => exact absurd hdarwin hword
    | cleared hclear hinits hreturned => exact .cleared hclear hinits hreturned
    | done hdone hinits hreset => exact .done hdone hinits (setPc_ne (by decide) hreset)
  | wrote hpc =>
    cases h with
    | fresh _ hinits hreturned _ => exact .cleared rfl hinits hreturned
    | cleared _ hinits hreturned => exact .cleared rfl hinits hreturned
    | done _ _ hreset => exact absurd hpc (hreset thread)
  | called hpc =>
    have hreset : ∀ other, (s.setPc thread .idle).pc other ≠ .reset :=
      setPc_ne (by decide) (hsettled hpc)
    cases h with
    | fresh _ _ _ hhost => exact absurd hpc (hhost thread)
    | cleared hclear hinits _ =>
      refine .done ?_ ?_ hreset
      · show (host.call s.word).2 = host.done
        rw [hclear, host.first]
      · show s.inits + (host.call s.word).1.toNat = 1
        rw [hclear, host.first, hinits]
        rfl
    | done hdone hinits _ =>
      refine .done ?_ ?_ hreset
      · show (host.call s.word).2 = host.done
        rw [hdone, host.again]
      · show s.inits + (host.call s.word).1.toNat = 1
        rw [hdone, host.again, hinits]
        rfl

/-! ### Runs with one -/

/-- What the control says in any run. -/
inductive Sound (host : HostOnce) (s : State) : Prop where
  | fresh : s.word = DARWIN_PTHREAD_ONCE_INIT → (∀ thread, s.pc thread ≠ .host) → Sound host s
  | cleared : s.word = 0 → Sound host s
  | done : s.word = host.done → 0 < s.inits → Sound host s

/-- After a host call the init routine has run. -/
theorem called_inits {host : HostOnce} {s : State} {thread : Nat} (h : Sound host s)
    (hpc : s.pc thread = .host) : (host.call s.word).2 = host.done ∧
      0 < s.inits + (host.call s.word).1.toNat := by
  cases h with
  | fresh _ hhost => exact absurd hpc (hhost thread)
  | cleared hclear =>
    rw [hclear, host.first]
    exact ⟨rfl, Nat.succ_pos _⟩
  | done hdone hinits =>
    rw [hdone, host.again]
    exact ⟨rfl, hinits⟩

theorem sound_step {host : HostOnce} (s : State) (thread : Nat) (h : Sound host s) :
    Sound host ((onceSystem host).step s thread).1 := by
  show Sound host (shimPthreadOnce host s thread)
  have hstep := stepped host s thread
  generalize shimPthreadOnce host s thread = s' at hstep
  cases hstep with
  | found hpc hword =>
    cases h with
    | fresh hdarwin hhost => exact .fresh hdarwin (setPc_ne (by decide) hhost)
    | cleared hclear => exact .cleared hclear
    | done hdone hinits => exact .done hdone hinits
  | passed hpc hword =>
    cases h with
    | fresh hdarwin _ => exact absurd hdarwin hword
    | cleared hclear => exact .cleared hclear
    | done hdone hinits => exact .done hdone hinits
  | wrote hpc => exact .cleared rfl
  | called hpc =>
    obtain ⟨hword, hinits⟩ := called_inits h hpc
    exact .done hword hinits

/-- Somebody is in a call, or one has returned. -/
def Begun (s : State) : Prop := (∃ thread, s.pc thread ≠ .idle) ∨ 0 < s.returned

theorem begun_step (host : HostOnce) (s : State) (thread : Nat) :
    Begun ((onceSystem host).step s thread).1 := by
  show Begun (shimPthreadOnce host s thread)
  have hset : ∀ pc, pc ≠ .idle → (s.setPc thread pc).pc thread ≠ .idle := by
    intro pc hpc
    rw [setPc_same]
    exact hpc
  have hstep := stepped host s thread
  generalize shimPthreadOnce host s thread = s' at hstep
  cases hstep with
  | found => exact .inl ⟨thread, hset .reset (by decide)⟩
  | passed => exact .inl ⟨thread, hset .host (by decide)⟩
  | wrote => exact .inl ⟨thread, hset .host (by decide)⟩
  | called => exact .inr (Nat.succ_pos _)

/-- The init routine has run and will again: a thread is about to write the Linux
initialiser, or to call the host with it written. -/
def Owes (s : State) : Prop :=
  1 < s.inits ∨ (0 < s.inits ∧
    ((∃ thread, s.pc thread = .reset) ∨ (s.word = 0 ∧ ∃ thread, s.pc thread = .host)))

theorem owes_step {host : HostOnce} (s : State) (thread : Nat) (h : Owes s) :
    Owes ((onceSystem host).step s thread).1 := by
  show Owes (shimPthreadOnce host s thread)
  have hstep := stepped host s thread
  generalize shimPthreadOnce host s thread = s' at hstep
  rcases h with htwice | ⟨hinits, hwaiting⟩
  · left
    cases hstep with
    | called => exact Nat.lt_add_right _ htwice
    | _ => exact htwice
  -- the waiting thread keeps its place unless the step is its own
  have hkept : ∀ {at' : Pc} {waiting : Nat} (pc : Pc), s.pc waiting = at' → s.pc thread ≠ at' →
      (s.setPc thread pc).pc waiting = at' := by
    intro at' waiting pc hwaiting hne
    have hother : waiting ≠ thread := by
      intro heq
      rw [heq] at hwaiting
      exact hne hwaiting
    rw [setPc_other pc hother]
    exact hwaiting
  cases hstep with
  | found hpc hword =>
    refine .inr ⟨hinits, .inl ⟨thread, setPc_same _⟩⟩
  | passed hpc hword =>
    rcases hwaiting with ⟨waiting, hreset⟩ | ⟨hzero, -⟩
    · exact .inr ⟨hinits, .inl ⟨waiting, hkept _ hreset (by rw [hpc]; decide)⟩⟩
    · exact .inr ⟨hinits, .inr ⟨hzero, thread, setPc_same _⟩⟩
  | wrote hpc => exact .inr ⟨hinits, .inr ⟨rfl, thread, setPc_same _⟩⟩
  | called hpc =>
    rcases hwaiting with ⟨waiting, hreset⟩ | ⟨hzero, -⟩
    · exact .inr ⟨Nat.add_pos_left hinits _, .inl ⟨waiting, hkept _ hreset (by rw [hpc]; decide)⟩⟩
    · left
      show 1 < s.inits + (host.call s.word).1.toNat
      rw [hzero, host.first]
      exact Nat.succ_lt_succ hinits

/-- A host call beside a thread about to write the Linux initialiser. -/
theorem owes_called {host : HostOnce} {s : State} {thread waiting : Nat} (h : Sound host s)
    (hpc : s.pc thread = .host) (hreset : s.pc waiting = .reset) :
    Owes ((onceSystem host).step s thread).1 := by
  show Owes (shimPthreadOnce host s thread)
  have hother : waiting ≠ thread := by
    intro heq
    rw [heq, hpc] at hreset
    exact nomatch hreset
  have hstep := stepped host s thread
  generalize shimPthreadOnce host s thread = s' at hstep
  cases hstep with
  | found hidle _ => exact nomatch hpc.symm.trans hidle
  | passed hidle _ => exact nomatch hpc.symm.trans hidle
  | wrote hwrote => exact nomatch hpc.symm.trans hwrote
  | called _ =>
    exact .inr ⟨(called_inits h hpc).2, .inl ⟨waiting, (setPc_other _ hother).trans hreset⟩⟩

/-! ### The once control -/

theorem phase_counts {host : HostOnce} {s : State} (h : Phase host s) :
    s.inits ≤ 1 ∧ (0 < s.returned → s.inits = 1) := by
  cases h with
  | fresh _ hinits hreturned _ => omega
  | cleared _ hinits hreturned => omega
  | done _ hinits _ => omega

/-- **The init routine runs once** in a run of complete calls exactly when no host call
finds a thread that has read the Darwin initialiser and not yet written over it; and as
long as none does, at most once, and once when a call has returned. -/
theorem init_runs_once (host : HostOnce) (threads : List Nat) :
    (threads ≠ [] → (∀ thread, ((onceSystem host).run .new threads).pc thread = .idle) →
      (((onceSystem host).run .new threads).inits = 1 ↔
        (onceSystem host).Along Settled .new threads)) ∧
    ((onceSystem host).Along Settled .new threads →
      ((onceSystem host).run .new threads).inits ≤ 1 ∧
      (0 < ((onceSystem host).run .new threads).returned →
        ((onceSystem host).run .new threads).inits = 1)) := by
  have hsettled : (onceSystem host).Along Settled .new threads →
      Phase host ((onceSystem host).run .new threads) :=
    System.Along.run_invariant phase_step (.fresh rfl rfl rfl fun _ => (by decide : Pc.idle ≠ .host))
  refine ⟨fun hne hidle => ⟨fun honce => ?_, fun halong => ?_⟩, fun halong => ?_⟩
  · by_contra hnot
    obtain ⟨before, thread, after, rfl, hbad⟩ := System.exists_of_not_along hnot
    obtain ⟨hpc, hreset⟩ := Classical.not_imp.mp hbad
    obtain ⟨waiting, hwaiting⟩ := Classical.not_forall.mp hreset
    have hsound : Sound host ((onceSystem host).run .new before) :=
      System.run_invariant sound_step (.fresh rfl fun _ => (by decide : Pc.idle ≠ .host)) before
    have howes : Owes ((onceSystem host).run .new (before ++ thread :: after)) := by
      rw [System.run_append]
      exact System.run_invariant owes_step (owes_called hsound hpc (not_not.mp hwaiting)) after
    rcases howes with htwice | ⟨-, ⟨other, hother⟩ | ⟨-, other, hother⟩⟩
    · omega
    · exact nomatch (hidle other).symm.trans hother
    · exact nomatch (hidle other).symm.trans hother
  · obtain ⟨-, honce⟩ := phase_counts (hsettled halong)
    cases threads with
    | nil => exact absurd rfl hne
    | cons first rest =>
      have hbegun : Begun ((onceSystem host).run .new (first :: rest)) :=
        System.run_invariant (fun s thread _ => begun_step host s thread)
          (begun_step host .new first) rest
      rcases hbegun with ⟨thread, hthread⟩ | hreturned
      · exact absurd (hidle thread) hthread
      · exact honce hreturned
  · exact phase_counts (hsettled halong)

theorem two_ne_darwin : (2 : BitVec 32) ≠ DARWIN_PTHREAD_ONCE_INIT := by decide

/-- glibc's control: 0, and 2 when the init routine has run. -/
def glibc : HostOnce where
  call word := if word = 0 then (true, 2) else (false, word)
  done := 2
  first := rfl
  again := rfl
  not_darwin := two_ne_darwin

/-- Two threads, one after the other. -/
theorem init_runs_once_in_turn : (onceSystem glibc).Along Settled .new [0, 0, 0, 1, 1] := by
  have hidle : ∀ thread, ((onceSystem glibc).run .new [0, 0, 0, 1, 1]).pc thread = .idle := by
    intro thread
    by_cases hmem : thread ∈ [0, 0, 0, 1, 1]
    · revert thread
      decide
    · exact run_pc_other hmem
  exact ((init_runs_once glibc [0, 0, 0, 1, 1]).1 (by decide) hidle).mp (by decide)

/-- Both threads read the Darwin initialiser, and each runs the init routine. -/
theorem init_runs_twice : ((onceSystem glibc).run .new [0, 1, 0, 0, 1, 1]).inits = 2 ∧
    ∀ thread, ((onceSystem glibc).run .new [0, 1, 0, 0, 1, 1]).pc thread = .idle := by
  refine ⟨by decide, fun thread => ?_⟩
  by_cases hmem : thread ∈ [0, 1, 0, 0, 1, 1]
  · revert thread
    decide
  · exact run_pc_other hmem

end Grafted.Dyld.PthreadOnce

import Mathlib.Data.List.Basic

/-! Deterministic systems, their runs, and what holds along a run.

A `System` answers an action and moves. `events` is a run as an observer sees
it, one record a step, and `Along` says that every step of a run has a property.
The two rules are proved once: an invariant carried by steps that obey a
discipline (`Along.of_invariant`), and the conservation law of a queue
(`queue_conserved`): when each step moves what enters and what leaves by the same
account, a whole run does. -/
namespace Transition

/-- What an action does to the state, and what it answers. -/
structure System (σ α ρ : Type) where
  step : σ → α → σ × ρ

/-- One step of a run. -/
structure Event (σ α ρ : Type) where
  before : σ
  action : α
  answer : ρ
  after : σ

namespace System
variable {σ α ρ : Type} (M : System σ α ρ)

def event (s : σ) (a : α) : Event σ α ρ := ⟨s, a, (M.step s a).2, (M.step s a).1⟩

def run (s : σ) : List α → σ
  | [] => s
  | a :: rest => run (M.step s a).1 rest

def events (s : σ) : List α → List (Event σ α ρ)
  | [] => []
  | a :: rest => M.event s a :: events (M.step s a).1 rest

/-- Every step of the run from `s` has the property. -/
def Along (P : Event σ α ρ → Prop) (s : σ) (actions : List α) : Prop :=
  ∀ e ∈ M.events s actions, P e

theorem run_append (s : σ) (a b : List α) : M.run s (a ++ b) = M.run (M.run s a) b := by
  induction a generalizing s with
  | nil => rfl
  | cons x rest ih => exact ih _

variable {M}

theorem along_nil (P : Event σ α ρ → Prop) (s : σ) : M.Along P s [] := fun _ h => nomatch h

theorem along_cons {P : Event σ α ρ → Prop} {s : σ} {a : α} {rest : List α} :
    M.Along P s (a :: rest) ↔ P (M.event s a) ∧ M.Along P (M.step s a).1 rest := by
  simp only [Along, events, List.mem_cons, forall_eq_or_imp]

theorem along_append {P : Event σ α ρ → Prop} {s : σ} {a b : List α} :
    M.Along P s (a ++ b) ↔ M.Along P s a ∧ M.Along P (M.run s a) b := by
  induction a generalizing s with
  | nil => exact ⟨fun h => ⟨along_nil P s, h⟩, fun h => h.2⟩
  | cons x rest ih =>
    rw [List.cons_append, along_cons, along_cons, ih, and_assoc]
    rfl

/-- A run without the property has a first part and a step after it that lacks it. -/
theorem exists_of_not_along {P : Event σ α ρ → Prop} {s : σ} {actions : List α}
    (h : ¬ M.Along P s actions) :
    ∃ before a after, actions = before ++ a :: after ∧ ¬ P (M.event (M.run s before) a) := by
  induction actions generalizing s with
  | nil => exact absurd (along_nil P s) h
  | cons a rest ih =>
    by_cases ha : P (M.event s a)
    · obtain ⟨before, b, after, heq, hb⟩ := ih fun hrest => h (along_cons.mpr ⟨ha, hrest⟩)
      exact ⟨a :: before, b, after, congrArg (a :: ·) heq, hb⟩
    · exact ⟨[], a, rest, rfl, ha⟩

/-- A property along a run, one step at a time with the run before it. -/
theorem along_iff_split {P : Event σ α ρ → Prop} {s : σ} {actions : List α} :
    M.Along P s actions ↔
      ∀ before a after, actions = before ++ a :: after → P (M.event (M.run s before) a) := by
  constructor
  · rintro h before a after rfl
    exact (along_cons.mp (along_append.mp h).2).1
  · intro h
    by_contra hno
    obtain ⟨before, a, after, heq, ha⟩ := exists_of_not_along hno
    exact ha (h before a after heq)

/-- What the invariant and the discipline give of one step holds along the run. -/
theorem Along.of_invariant {Inv : σ → Prop} {C P : Event σ α ρ → Prop}
    (keep : ∀ s a, Inv s → C (M.event s a) → Inv (M.step s a).1)
    (gives : ∀ s a, Inv s → C (M.event s a) → P (M.event s a)) {s : σ} (h : Inv s)
    {actions : List α} (hc : M.Along C s actions) : M.Along P s actions := by
  induction actions generalizing s with
  | nil => exact along_nil P s
  | cons a rest ih =>
    obtain ⟨hca, hrest⟩ := along_cons.mp hc
    exact along_cons.mpr ⟨gives s a h hca, ih (keep s a h hca) hrest⟩

/-- The invariant carried to the end of the run. -/
theorem Along.run_invariant {Inv : σ → Prop} {C : Event σ α ρ → Prop}
    (keep : ∀ s a, Inv s → C (M.event s a) → Inv (M.step s a).1) {s : σ} (h : Inv s)
    {actions : List α} (hc : M.Along C s actions) : Inv (M.run s actions) := by
  induction actions generalizing s with
  | nil => exact h
  | cons a rest ih =>
    obtain ⟨hca, hrest⟩ := along_cons.mp hc
    exact ih (keep s a h hca) hrest

theorem run_invariant {Inv : σ → Prop} (keep : ∀ s a, Inv s → Inv (M.step s a).1) {s : σ}
    (h : Inv s) (actions : List α) : Inv (M.run s actions) := by
  induction actions generalizing s with
  | nil => exact h
  | cons a rest ih => exact ih (keep s a h)

/-- Where it is the discipline that keeps the invariant, a run keeps it throughout exactly
when every step of it obeys. -/
theorem along_after_iff {Inv : σ → Prop} {C : Event σ α ρ → Prop}
    (hstep : ∀ s a, Inv s → (Inv (M.step s a).1 ↔ C (M.event s a))) {s : σ} (h : Inv s)
    {actions : List α} : M.Along (fun e => Inv e.after) s actions ↔ M.Along C s actions := by
  induction actions generalizing s with
  | nil => exact iff_of_true (along_nil _ s) (along_nil C s)
  | cons a rest ih =>
    have hfirst : Inv (M.event s a).after ↔ C (M.event s a) := hstep s a h
    rw [along_cons, along_cons, ← hfirst]
    exact and_congr_right fun hafter => ih hafter

theorem Along.imp {P Q : Event σ α ρ → Prop} (hstep : ∀ s a, P (M.event s a) → Q (M.event s a))
    {s : σ} {actions : List α} (h : M.Along P s actions) : M.Along Q s actions := by
  have keep : ∀ s a, True → P (M.event s a) → True := fun _ _ _ _ => trivial
  have gives : ∀ s a, True → P (M.event s a) → Q (M.event s a) := fun s a _ => hstep s a
  exact Along.of_invariant keep gives trivial h

theorem along_of_forall {P : Event σ α ρ → Prop} (hstep : ∀ s a, P (M.event s a)) (s : σ)
    (actions : List α) : M.Along P s actions :=
  Along.imp (P := fun _ => True) (fun s a _ => hstep s a) fun _ _ => trivial

/-- The account of a queue. If on every step of the run what was queued and what
enters are what leaves and what stays queued, in this order, then so they are
over the run. -/
theorem queue_conserved {β : Type} (queue : σ → List β) (enters leaves : Event σ α ρ → List β)
    {s : σ} {actions : List α}
    (h : M.Along (fun e => queue e.before ++ enters e = leaves e ++ queue e.after) s actions) :
    queue s ++ (M.events s actions).flatMap enters =
      (M.events s actions).flatMap leaves ++ queue (M.run s actions) := by
  induction actions generalizing s with
  | nil => simp [events, run]
  | cons a rest ih =>
    obtain ⟨ha, hrest⟩ := along_cons.mp h
    have hstep : queue s ++ enters (M.event s a) =
        leaves (M.event s a) ++ queue (M.step s a).1 := ha
    simp only [events, run, List.flatMap_cons]
    rw [← List.append_assoc, hstep, List.append_assoc, ih hrest, List.append_assoc]

end System

end Transition

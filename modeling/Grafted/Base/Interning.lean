import Grafted.Base.PartialMaps
import Grafted.Base.Transition

/-! Interning: one value for each key, made when the key is first asked for.

A system interns when what it answers is there for the key from then on, and nothing else is
put there (`Interns`). If what it makes is always new, two answers of a run are the same exactly
when their keys are (`answers_eq_iff`). -/
namespace Interning
open Transition Transition.System PartialMaps

section Systems
variable {σ α β κ : Type} (M : System σ α β) (key : α → κ) (look : σ → κ → Option β)

structure Interns : Prop where
  answered : ∀ s a, look (M.step s a).1 (key a) = some (M.step s a).2
  kept : ∀ s a k b, look s k = some b → look (M.step s a).1 k = some b
  nothingElse : ∀ s a k b, look (M.step s a).1 k = some b →
    look s k = some b ∨ (k = key a ∧ b = (M.step s a).2 ∧ look s (key a) = none)

/-- What is made for a new key no key has. -/
def New (e : Event σ α β) : Prop :=
  look e.before (key e.action) = none → ∀ k, look e.before k ≠ some e.answer

variable {M key look}

theorem Interns.oneToOne_step (h : Interns M key look) {s : σ} (hone : OneToOne (look s)) {a : α}
    (hnew : New key look (M.event s a)) : OneToOne (look (M.step s a).1) := by
  intro k k' b hk hk'
  rcases h.nothingElse s a k b hk with hold | ⟨rfl, rfl, hnone⟩
  · rcases h.nothingElse s a k' b hk' with hold' | ⟨rfl, rfl, hnone⟩
    · exact hone k k' b hold hold'
    · exact absurd hold (hnew hnone k)
  · rcases h.nothingElse s a k' _ hk' with hold' | ⟨rfl, -, -⟩
    · exact absurd hold' (hnew hnone k')
    · rfl

theorem Interns.kept_run (h : Interns M key look) {s : σ} {k : κ} {b : β}
    (hk : look s k = some b) (actions : List α) : look (M.run s actions) k = some b := by
  induction actions generalizing s with
  | nil => exact hk
  | cons a rest ih => exact ih (h.kept s a k b hk)

theorem Interns.oneToOne_run (h : Interns M key look) {s : σ} (hone : OneToOne (look s))
    {actions : List α} (hnew : M.Along (New key look) s actions) :
    OneToOne (look (M.run s actions)) :=
  Along.run_invariant (fun _ _ hs hc => h.oneToOne_step hs hc) hone hnew

/-- What was answered is still there at the end. -/
theorem Interns.answered_run (h : Interns M key look) {s : σ} {actions : List α}
    {e : Event σ α β} (he : e ∈ M.events s actions) :
    look (M.run s actions) (key e.action) = some e.answer := by
  induction actions generalizing s with
  | nil => exact nomatch he
  | cons a rest ih =>
    rcases List.mem_cons.mp he with rfl | hrest
    · exact h.kept_run (h.answered s a) rest
    · exact ih hrest

theorem Interns.answers_eq_iff (h : Interns M key look) {s : σ} (hone : OneToOne (look s))
    {actions : List α} (hnew : M.Along (New key look) s actions) {e e' : Event σ α β}
    (he : e ∈ M.events s actions) (he' : e' ∈ M.events s actions) :
    e.answer = e'.answer ↔ key e.action = key e'.action := by
  have hanswer := h.answered_run he
  have hanswer' := h.answered_run he'
  constructor
  · intro heq
    rw [← heq] at hanswer'
    exact h.oneToOne_run hone hnew _ _ _ hanswer hanswer'
  · intro heq
    rw [heq, hanswer'] at hanswer
    exact (Option.some.inj hanswer).symm

end Systems

end Interning

import Mathlib.Data.List.Basic

/-! Brackets: actions that open and close, nested in a list, over a state with a stack.

An open pushes what is seen of the state and a close pops it back (`Discipline`). Then a
balanced list leaves the stack as it was (`run_balanced`), a bracket around one leaves
what is seen too (`run_bracket`), and every close of a balanced list has its open
(`Balanced.matching`). -/
namespace Brackets

inductive Kind where
  | opens
  | closes
  | plain
  deriving DecidableEq

variable {α σ τ : Type} (kind : α → Kind)

/-- Every open has its close, nested to any depth. -/
inductive Balanced : List α → Prop where
  | nil : Balanced []
  | plain {a : α} {rest : List α} : kind a = .plain → Balanced rest → Balanced (a :: rest)
  | bracket {a b : α} {body rest : List α} : kind a = .opens → kind b = .closes →
    Balanced body → Balanced rest → Balanced (a :: body ++ b :: rest)

/-- How many opens are without a close after the list, from so many before it. A close
without an open does not count. -/
def pending (n : Nat) : List α → Nat
  | [] => n
  | a :: rest =>
    match kind a with
    | .opens => pending (n + 1) rest
    | .closes => pending (n - 1) rest
    | .plain => pending n rest

/-- What the actions do to the stack, and to what is seen of the state. -/
structure Discipline (step : σ → α → σ) (stack : σ → List τ) (view : σ → τ) : Prop where
  opens : ∀ s a, kind a = .opens → stack (step s a) = view s :: stack s
  closes : ∀ s b, kind b = .closes → ∀ top rest, stack s = top :: rest →
    stack (step s b) = rest ∧ view (step s b) = top
  empty : ∀ s b, kind b = .closes → stack s = [] → stack (step s b) = []
  plain : ∀ s a, kind a = .plain → stack (step s a) = stack s

variable {kind}

/-- A close of a balanced list comes after its open and a balanced part. -/
theorem Balanced.matching {l : List α} (h : Balanced kind l) {before after : List α} {b : α}
    (hb : kind b = .closes) (hl : l = before ++ b :: after) :
    ∃ earlier a body, before = earlier ++ a :: body ∧ kind a = .opens ∧ Balanced kind body := by
  induction h generalizing before after with
  | nil => exact absurd hl.symm (List.append_ne_nil_of_right_ne_nil _ (List.cons_ne_nil _ _))
  | @plain o rest ho _ ih =>
    cases before with
    | nil =>
      obtain ⟨rfl, -⟩ := List.cons.inj hl
      cases ho.symm.trans hb
    | cons _ before =>
      obtain ⟨rfl, hrest⟩ := List.cons.inj hl
      obtain ⟨earlier, a, body, rfl, ha, hbody⟩ := ih hrest
      exact ⟨o :: earlier, a, body, rfl, ha, hbody⟩
  | @bracket o close body rest ho hclose hbody hrest ihBody ihRest =>
    cases before with
    | nil =>
      obtain ⟨rfl, -⟩ := List.cons.inj hl
      cases ho.symm.trans hb
    | cons _ before =>
      obtain ⟨rfl, hin⟩ := List.cons.inj hl
      obtain ⟨t, hbefore, hafter⟩ | ⟨t, hinside, hlater⟩ := List.append_eq_append_iff.mp hin
      · cases t with
        | nil =>
          rw [List.append_nil] at hbefore
          exact ⟨[], o, body, hbefore ▸ rfl, ho, hbody⟩
        | cons _ t =>
          -- the close is after the bracket
          obtain ⟨rfl, hrest'⟩ := List.cons.inj hafter
          obtain ⟨earlier, a, body', rfl, ha, hbody'⟩ := ihRest hrest'
          refine ⟨o :: body ++ close :: earlier, a, body', ?_, ha, hbody'⟩
          rw [hbefore, List.cons_append, List.cons_append, List.append_assoc, List.cons_append]
      · cases t with
        | nil =>
          rw [List.append_nil] at hinside
          exact ⟨[], o, before, rfl, ho, hinside ▸ hbody⟩
        | cons _ t =>
          -- the close is in the bracket
          obtain ⟨rfl, -⟩ := List.cons.inj hlater
          obtain ⟨earlier, a, body', rfl, ha, hbody'⟩ := ihBody hinside
          exact ⟨o :: earlier, a, body', rfl, ha, hbody'⟩

namespace Discipline
variable {step : σ → α → σ} {stack : σ → List τ} {view : σ → τ}

theorem run_balanced (d : Discipline kind step stack view) {l : List α} (h : Balanced kind l)
    (s : σ) : stack (l.foldl step s) = stack s := by
  induction h generalizing s with
  | nil => rfl
  | @plain a rest ha _ ih => exact (ih (step s a)).trans (d.plain s a ha)
  | @bracket a b body rest ha hb _ _ ihBody ihRest =>
    have hinside := (ihBody (step s a)).trans (d.opens s a ha)
    rw [List.foldl_append, List.foldl_cons, List.foldl_cons, ihRest]
    exact (d.closes _ b hb _ _ hinside).1

/-- After a bracket the state is seen as before it. -/
theorem run_bracket (d : Discipline kind step stack view) {a b : α} {body : List α}
    (ha : kind a = .opens) (hb : kind b = .closes) (hbody : Balanced kind body) (s : σ) :
    view ((a :: body ++ [b]).foldl step s) = view s := by
  have hinside := (d.run_balanced hbody (step s a)).trans (d.opens s a ha)
  rw [List.foldl_append, List.foldl_cons, List.foldl_cons, List.foldl_nil]
  exact (d.closes _ b hb _ _ hinside).2

/-- The stack has the opens that are pending. -/
theorem length_stack (d : Discipline kind step stack view) (l : List α) (s : σ) :
    (stack (l.foldl step s)).length = pending kind (stack s).length l := by
  induction l generalizing s with
  | nil => rfl
  | cons a rest ih =>
    rw [List.foldl_cons, ih, pending]
    cases hkind : kind a with
    | opens => rw [d.opens s a hkind, List.length_cons]
    | plain => rw [d.plain s a hkind]
    | closes =>
      cases hstack : stack s with
      | nil => rw [d.empty s a hkind hstack, List.length_nil]
      | cons top below =>
        rw [(d.closes s a hkind top below hstack).1, List.length_cons, Nat.add_sub_cancel]

end Discipline

end Brackets

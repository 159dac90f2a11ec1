import Mathlib.Data.List.Basic

/-! Taking apart computations that may fail.

What an answer of a sequence, or of a map over a list, says of its parts; what is true of
every error of the parts is true of the whole (`FailsWith`); and what the steps of a loop
keep or bring about, the loop does (`foldlM_invariant`, `foldlM_brings`). -/
namespace Fallible
variable {ε α β : Type}

theorem bind_ok {x : Except ε α} {f : α → Except ε β} {b : β} (h : x >>= f = .ok b) :
    ∃ a, x = .ok a ∧ f a = .ok b := by
  cases x with
  | error e => exact nomatch h
  | ok a => exact ⟨a, rfl, h⟩

theorem mapM_cons_ok {f : α → Except ε β} {a : α} {rest : List α} {bs : List β}
    (h : (a :: rest).mapM f = .ok bs) :
    ∃ b bs', f a = .ok b ∧ rest.mapM f = .ok bs' ∧ bs = b :: bs' := by
  rw [List.mapM_cons] at h
  obtain ⟨b, hb, h⟩ := bind_ok h
  obtain ⟨bs', hbs', h⟩ := bind_ok h
  cases h
  exact ⟨b, bs', hb, hbs', rfl⟩

/-- If the computation fails, its error has the property. -/
def FailsWith (P : ε → Prop) (x : Except ε α) : Prop := ∀ e, x = .error e → P e

section FailsWith
variable {P : ε → Prop}

theorem FailsWith.ok (a : α) : FailsWith P (.ok a) := by
  intro e h
  cases h

theorem FailsWith.error {e : ε} (he : P e) : FailsWith P (.error e : Except ε α) := by
  intro e' h
  cases h
  exact he

theorem FailsWith.bind {x : Except ε α} {f : α → Except ε β} (hx : FailsWith P x)
    (hf : ∀ a, x = .ok a → FailsWith P (f a)) : FailsWith P (x >>= f) := by
  cases x with
  | error e => exact FailsWith.error (hx e rfl)
  | ok a => exact hf a rfl

end FailsWith

/-! ### Loops that may stop -/

section Folds
variable {σ α : Type} {f g : σ → α → Option σ} {xs : List α}

theorem foldlM_congr (h : ∀ x ∈ xs, ∀ s, f s x = g s x) (s : σ) : xs.foldlM f s = xs.foldlM g s := by
  induction xs generalizing s with
  | nil => rfl
  | cons x rest ih =>
    rw [List.foldlM_cons, List.foldlM_cons, h x List.mem_cons_self]
    congr 1
    funext s'
    exact ih (fun y hy => h y (List.mem_cons_of_mem x hy)) s'

/-- What every step keeps, the loop keeps. -/
theorem foldlM_invariant {I : σ → Prop}
    (keep : ∀ x ∈ xs, ∀ s s', I s → f s x = some s' → I s') {s s' : σ} (hs : I s)
    (h : xs.foldlM f s = some s') : I s' := by
  induction xs generalizing s with
  | nil =>
    cases h
    exact hs
  | cons x rest ih =>
    rw [List.foldlM_cons] at h
    obtain ⟨s₁, hfirst, hrest⟩ := Option.bind_eq_some_iff.mp h
    exact ih (fun y hy => keep y (List.mem_cons_of_mem x hy)) (keep x List.mem_cons_self s s₁ hs hfirst) hrest

/-- What one step brings about and the others keep, the loop brings about. -/
theorem foldlM_brings {P : σ → Prop} {x : α}
    (hx : x ∈ xs) (brings : ∀ s s', f s x = some s' → P s')
    (keep : ∀ y ∈ xs, ∀ s s', P s → f s y = some s' → P s') {s s' : σ}
    (h : xs.foldlM f s = some s') : P s' := by
  induction xs generalizing s with
  | nil => cases hx
  | cons y rest ih =>
    rw [List.foldlM_cons] at h
    obtain ⟨s₁, hfirst, hrest⟩ := Option.bind_eq_some_iff.mp h
    have hkeep : ∀ z ∈ rest, ∀ s s', P s → f s z = some s' → P s' :=
      fun z hz => keep z (List.mem_cons_of_mem y hz)
    obtain rfl | hx' := List.mem_cons.mp hx
    · exact foldlM_invariant hkeep (brings s s₁ hfirst) hrest
    · exact ih hx' hkeep hrest

end Folds

end Fallible

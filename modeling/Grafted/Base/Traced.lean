import Mathlib.Data.List.Basic
import Grafted.Base.Fallible

/-! Computations that move a state and leave a trace, and a rule for them.

`Traced σ ε` is the monad of functions of a state that also say, in order, what
happened. A relation between a state, a trace and a state that `Composes` is
carried by a sequence when its parts carry it, by a loop over a list when each
turn does. The parts may be unknown: code that calls back is a computation like
any other, and `Keeps` is all that is asked of it. -/

/-- What a computation gives back. -/
structure Outcome (σ ε α : Type) where
  value : α
  state : σ
  trace : List ε

def Traced (σ ε α : Type) := σ → Outcome σ ε α

namespace Traced
variable {σ ε α β : Type}

instance : Monad (Traced σ ε) where
  pure a := fun s => ⟨a, s, []⟩
  bind m f := fun s =>
    let r := m s
    let r' := f r.value r.state
    ⟨r'.value, r'.state, r.trace ++ r'.trace⟩

def read (f : σ → α) : Traced σ ε α := fun s => ⟨f s, s, []⟩

def modify (f : σ → σ) : Traced σ ε Unit := fun s => ⟨(), f s, []⟩

/-- Record one event, which may show the state. -/
def emit (f : σ → ε) : Traced σ ε Unit := fun s => ⟨(), s, [f s]⟩

def each (f : β → Traced σ ε Unit) : List β → Traced σ ε Unit
  | [] => pure ()
  | x :: rest => do
    f x
    each f rest

/-- Take the elements in order until one answers true. -/
def untilTrue (f : β → Traced σ ε Bool) : List β → Traced σ ε Bool
  | [] => pure false
  | x :: rest => do
    if ← f x then pure true else untilTrue f rest

/-- Take the elements in order until one answers something. -/
def untilSome {γ : Type} (f : β → Traced σ ε (Option γ)) : List β → Traced σ ε (Option γ)
  | [] => pure none
  | x :: rest => do
    match ← f x with
    | some y => pure (some y)
    | none => untilSome f rest

@[simp] theorem pure_apply (a : α) (s : σ) : (pure a : Traced σ ε α) s = ⟨a, s, []⟩ := rfl

@[simp] theorem bind_apply (m : Traced σ ε α) (f : α → Traced σ ε β) (s : σ) :
    (m >>= f) s = ⟨(f (m s).value (m s).state).value, (f (m s).value (m s).state).state,
      (m s).trace ++ (f (m s).value (m s).state).trace⟩ := rfl

@[simp] theorem read_apply (f : σ → α) (s : σ) : (read f : Traced σ ε α) s = ⟨f s, s, []⟩ := rfl

@[simp] theorem modify_apply (f : σ → σ) (s : σ) : (modify f : Traced σ ε Unit) s = ⟨(), f s, []⟩ := rfl

@[simp] theorem emit_apply (f : σ → ε) (s : σ) : (emit f : Traced σ ε Unit) s = ⟨(), s, [f s]⟩ := rfl

theorem bind_assoc {γ : Type} (m : Traced σ ε α) (f : α → Traced σ ε β) (g : β → Traced σ ε γ) :
    m >>= f >>= g = m >>= fun a => f a >>= g := by
  funext s
  simp only [bind_apply, List.append_assoc]

theorem pure_bind (a : α) (f : α → Traced σ ε β) : (pure a : Traced σ ε α) >>= f = f a := by
  funext s
  simp only [bind_apply, pure_apply, List.nil_append]

theorem untilTrue_append (f : β → Traced σ ε Bool) (xs ys : List β) :
    untilTrue f (xs ++ ys) =
      untilTrue f xs >>= fun found => if found then pure true else untilTrue f ys := by
  induction xs with
  | nil => rw [untilTrue, pure_bind, List.nil_append, if_neg Bool.false_ne_true]
  | cons x rest ih =>
    rw [List.cons_append, untilTrue, untilTrue, bind_assoc, ih]
    congr 1
    funext found
    cases found with
    | true => rw [if_pos rfl, if_pos rfl, pure_bind, if_pos rfl]
    | false => rfl

/-- Where nothing before it has ended the loop, the turn of an element follows those
before it, in the state they leave. -/
theorem untilTrue_reached {f : β → Traced σ ε Bool} {before : List β} (x : β) (after : List β) {s : σ}
    (h : (untilTrue f before s).value = false) :
    let u := (untilTrue f before s).state
    let rest := (if (f x u).value then pure true else untilTrue f after : Traced σ ε Bool) (f x u).state
    untilTrue f (before ++ x :: after) s =
      ⟨rest.value, rest.state, (untilTrue f before s).trace ++ ((f x u).trace ++ rest.trace)⟩ := by
  intro u rest
  rw [untilTrue_append, bind_apply, h]
  rfl

/-- No element ended the loop: each answered false in the state the loop came to it in. -/
theorem untilTrue_value {f : β → Traced σ ε Bool} {xs : List β} {s : σ} :
    (untilTrue f xs s).value = false ↔
      ∀ before x after, xs = before ++ x :: after →
        (f x (untilTrue f before s).state).value = false := by
  induction xs generalizing s with
  | nil => exact ⟨fun _ before x after h => absurd h (by simp), fun _ => rfl⟩
  | cons y rest ih =>
    have hstep : ∀ zs, (f y s).value = false →
        (untilTrue f (y :: zs) s).value = (untilTrue f zs (f y s).state).value ∧
        (untilTrue f (y :: zs) s).state = (untilTrue f zs (f y s).state).state := by
      intro zs hy
      rw [untilTrue, bind_apply, hy, if_neg Bool.false_ne_true]
      exact ⟨rfl, rfl⟩
    constructor
    · intro h before x after hxs
      cases hy : (f y s).value with
      | true =>
        rw [untilTrue, bind_apply, hy, if_pos rfl] at h
        exact nomatch h
      | false =>
        rw [(hstep rest hy).1] at h
        cases before with
        | nil =>
          obtain ⟨rfl, -⟩ := List.cons.inj hxs
          exact hy
        | cons z before =>
          obtain ⟨rfl, hrest⟩ := List.cons.inj hxs
          rw [(hstep before hy).2]
          exact ih.mp h before x after hrest
    · intro h
      have hy : (f y s).value = false := h [] y rest rfl
      rw [(hstep rest hy).1]
      refine ih.mpr fun before x after hrest => ?_
      have hx := h (y :: before) x after (congrArg (y :: ·) hrest)
      rwa [(hstep before hy).2] at hx

theorem untilSome_append {γ : Type} (f : β → Traced σ ε (Option γ)) (xs ys : List β) :
    untilSome f (xs ++ ys) = untilSome f xs >>= fun
      | some y => pure (some y)
      | none => untilSome f ys := by
  induction xs with
  | nil => rw [untilSome, pure_bind, List.nil_append]
  | cons x rest ih =>
    rw [List.cons_append, untilSome, untilSome, bind_assoc, ih]
    congr 1
    funext found
    cases found with
    | some y => rw [pure_bind]
    | none => rfl

theorem untilSome_singleton {γ : Type} (f : β → Traced σ ε (Option γ)) (x : β) :
    untilSome f [x] = f x := by
  funext s
  simp only [untilSome, bind_apply]
  generalize f x s = r
  obtain ⟨found, s', t⟩ := r
  cases found with
  | none => simp only [pure_apply, List.append_nil]
  | some y => simp only [pure_apply, List.append_nil]

/-- An event of the loop is one of the turn of some element, which the turns before
let it come to. -/
theorem mem_untilSome {γ : Type} {f : β → Traced σ ε (Option γ)} {xs : List β} {s : σ} {e : ε}
    (h : e ∈ (untilSome f xs s).trace) :
    ∃ before x after, xs = before ++ x :: after ∧ (untilSome f before s).value = none ∧
      e ∈ (f x (untilSome f before s).state).trace := by
  induction xs generalizing s with
  | nil => exact nomatch h
  | cons x rest ih =>
    rw [untilSome, bind_apply] at h
    rcases List.mem_append.mp h with h | h
    · exact ⟨[], x, rest, rfl, rfl, h⟩
    · cases hvalue : (f x s).value with
      | some y =>
        rw [hvalue] at h
        exact nomatch h
      | none =>
        rw [hvalue] at h
        obtain ⟨before, y, after, rfl, hnone, hmem⟩ := ih h
        have hbefore : (untilSome f (x :: before) s).value = none ∧
            (untilSome f (x :: before) s).state = (untilSome f before (f x s).state).state := by
          rw [untilSome, bind_apply, hvalue]
          exact ⟨hnone, rfl⟩
        exact ⟨x :: before, y, after, rfl, hbefore.1, by rw [hbefore.2]; exact hmem⟩

theorem untilSome_congr {γ : Type} {f g : β → Traced σ ε (Option γ)} {xs : List β}
    (h : ∀ x ∈ xs, f x = g x) : untilSome f xs = untilSome g xs := by
  induction xs with
  | nil => rfl
  | cons x rest ih =>
    rw [untilSome, untilSome, h x List.mem_cons_self,
      ih fun y hy => h y (List.mem_cons_of_mem x hy)]

/-- What the loop answers is the answer of some element, in a state that has what the
turns keep. -/
theorem untilSome_some {γ : Type} {f : β → Traced σ ε (Option γ)} {I : σ → Prop}
    (hkeep : ∀ x s, I s → I (f x s).state) {xs : List β} {s : σ} (hs : I s) {y : γ}
    (h : (untilSome f xs s).value = some y) : ∃ x ∈ xs, ∃ s', I s' ∧ (f x s').value = some y := by
  induction xs generalizing s with
  | nil => exact nomatch h
  | cons x rest ih =>
    rw [untilSome, bind_apply] at h
    cases hvalue : (f x s).value with
    | some z =>
      rw [hvalue] at h
      cases h
      exact ⟨x, List.mem_cons_self, s, hs, hvalue⟩
    | none =>
      rw [hvalue] at h
      obtain ⟨y', hy', hanswer⟩ := ih (hkeep x s hs) h
      exact ⟨y', List.mem_cons_of_mem x hy', hanswer⟩

/-- Where no turn moves the state, each element is asked in it. -/
theorem untilSome_unmoved {γ : Type} {f : β → Traced σ ε (Option γ)} {xs : List β} {s : σ}
    (h : ∀ x ∈ xs, (f x s).state = s) :
    (untilSome f xs s).state = s ∧
      ((untilSome f xs s).value = none ↔ ∀ x ∈ xs, (f x s).value = none) := by
  induction xs with
  | nil => exact ⟨rfl, fun _ _ hx => (nomatch hx), fun _ => rfl⟩
  | cons x rest ih =>
    obtain ⟨hstate, hvalue⟩ := ih fun y hy => h y (List.mem_cons_of_mem x hy)
    have hx := h x List.mem_cons_self
    rw [untilSome, bind_apply, hx]
    cases hfirst : (f x s).value with
    | some z =>
      refine ⟨rfl, iff_of_false (fun hnone => nomatch hnone) fun hall => ?_⟩
      exact nomatch hfirst.symm.trans (hall x List.mem_cons_self)
    | none =>
      refine ⟨hstate, hvalue.trans ⟨fun hall => ?_, fun hall y hy => ?_⟩⟩
      · exact List.forall_mem_cons.mpr ⟨hfirst, hall⟩
      · exact hall y (List.mem_cons_of_mem x hy)

/-- Lists of what to do, one for each element, done one list after the other. -/
theorem untilSome_flatten {γ δ ι : Type} {f : β → Traced σ ε (Option γ)}
    {g : δ → Traced σ ε (Option γ)} {parts : β → Except ι (List δ)}
    (hf : ∀ x ys, parts x = .ok ys → f x = untilSome g ys) {xs : List β} {yss : List (List δ)}
    (h : xs.mapM parts = .ok yss) : untilSome f xs = untilSome g yss.flatten := by
  induction xs generalizing yss with
  | nil =>
    cases h
    rfl
  | cons x rest ih =>
    obtain ⟨ys, yss', hx, hrest, rfl⟩ := Fallible.mapM_cons_ok h
    rw [untilSome, hf x ys hx, ih hrest, List.flatten_cons, untilSome_append]

/-- A relation that holds of doing nothing, and of two things in a row when it
holds of each. -/
structure Composes (R : σ → List ε → σ → Prop) : Prop where
  refl : ∀ s, R s [] s
  trans : ∀ {s u v t t'}, R s t u → R u t' v → R s (t ++ t') v

def Keeps (R : σ → List ε → σ → Prop) (m : Traced σ ε α) : Prop := ∀ s, R s (m s).trace (m s).state

section Rules
variable {R : σ → List ε → σ → Prop} (hR : Composes R)
include hR

theorem Keeps.pure (a : α) : Keeps R (Pure.pure a : Traced σ ε α) := fun s => hR.refl s

theorem Keeps.read (f : σ → α) : Keeps R (Traced.read f : Traced σ ε α) := fun s => hR.refl s

theorem Keeps.bind {m : Traced σ ε α} {f : α → Traced σ ε β} (hm : Keeps R m)
    (hf : ∀ a, Keeps R (f a)) : Keeps R (m >>= f) :=
  fun s => hR.trans (hm s) (hf (m s).value (m s).state)

theorem Keeps.each {f : β → Traced σ ε Unit} (hf : ∀ x, Keeps R (f x)) (xs : List β) :
    Keeps R (Traced.each f xs) := by
  induction xs with
  | nil => exact Keeps.pure hR ()
  | cons x rest ih => exact Keeps.bind hR (hf x) fun _ => ih

theorem Keeps.untilTrue {f : β → Traced σ ε Bool} {xs : List β} (hf : ∀ x ∈ xs, Keeps R (f x)) :
    Keeps R (Traced.untilTrue f xs) := by
  induction xs with
  | nil => exact Keeps.pure hR false
  | cons x rest ih =>
    refine Keeps.bind hR (hf x List.mem_cons_self) fun handled => ?_
    cases handled with
    | true => exact Keeps.pure hR true
    | false => exact ih fun y hy => hf y (List.mem_cons_of_mem x hy)

theorem Keeps.untilSome {γ : Type} {f : β → Traced σ ε (Option γ)} (hf : ∀ x, Keeps R (f x))
    (xs : List β) : Keeps R (Traced.untilSome f xs) := by
  induction xs with
  | nil => exact Keeps.pure hR none
  | cons x rest ih =>
    refine Keeps.bind hR (hf x) fun found => ?_
    cases found with
    | some y => exact Keeps.pure hR (some y)
    | none => exact ih

end Rules

/-- An event of two traces in a row is of the first or of the second. -/
theorem split_append {t t' before after : List ε} {e : ε} (h : t ++ t' = before ++ e :: after) :
    (∃ rest, t = before ++ e :: rest ∧ after = rest ++ t') ∨
      ∃ rest, before = t ++ rest ∧ t' = rest ++ e :: after := by
  rcases List.append_eq_append_iff.mp h with ⟨rest, hbefore, ht'⟩ | ⟨rest, ht, htail⟩
  · exact .inr ⟨rest, hbefore, ht'⟩
  · cases rest with
    | nil => exact .inr ⟨[], by rw [ht, List.append_nil, List.append_nil], htail.symm⟩
    | cons x rest =>
      obtain ⟨rfl, rfl⟩ := List.cons.inj htail
      exact .inl ⟨rest, ht, rfl⟩

/-- The events up to the first after which nothing comes, that one included. -/
def upTo (last : ε → Bool) : List ε → List ε
  | [] => []
  | e :: rest => if last e then [e] else e :: upTo last rest

theorem upTo_cases (last : ε → Bool) (t : List ε) :
    (upTo last t = t ∧ ∀ e ∈ t, last e = false) ∨
      ∃ before e after, t = before ++ e :: after ∧ upTo last t = before ++ [e] ∧ last e = true := by
  induction t with
  | nil => exact .inl ⟨rfl, fun _ h => nomatch h⟩
  | cons e rest ih =>
    cases he : last e with
    | true => exact .inr ⟨[], e, rest, rfl, by simp [upTo, he], he⟩
    | false =>
      have hcons : upTo last (e :: rest) = e :: upTo last rest := by simp [upTo, he]
      rcases ih with ⟨hrest, hnone⟩ | ⟨before, x, after, rfl, hrest, hx⟩
      · exact .inl ⟨by rw [hcons, hrest], List.forall_mem_cons.mpr ⟨he, hnone⟩⟩
      · exact .inr ⟨e :: before, x, after, rfl, by rw [hcons, hrest, List.cons_append], hx⟩

theorem upTo_isPrefix (last : ε → Bool) (t : List ε) : upTo last t <+: t := by
  rcases upTo_cases last t with ⟨h, -⟩ | ⟨before, e, after, rfl, h, -⟩
  · exact ⟨[], by rw [h, List.append_nil]⟩
  · exact ⟨after, by rw [h, List.append_assoc, List.singleton_append]⟩

/-- Where no event is the last, nothing is cut off. -/
theorem upTo_eq_self {last : ε → Bool} {t : List ε} (h : ∀ e ∈ upTo last t, last e = false) :
    upTo last t = t := by
  rcases upTo_cases last t with ⟨hall, -⟩ | ⟨before, e, after, rfl, hcut, he⟩
  · exact hall
  · have hnot := h e (by rw [hcut]; exact List.mem_append_right _ (List.mem_singleton_self e))
    exact nomatch he.symm.trans hnot

/-- A run event by event: an event shows the state it happens in and leads to
another by `E`, and from one to the next the state moves by `Q`. -/
inductive Steps (Q : σ → σ → Prop) (shown : ε → σ) (E : ε → σ → Prop) : σ → List ε → σ → Prop
  | nil (s s' : σ) (h : Q s s') : Steps Q shown E s [] s'
  | cons (s u s' : σ) (e : ε) (rest : List ε) (hquiet : Q s (shown e)) (hevent : E e u)
      (hrest : Steps Q shown E u rest s') : Steps Q shown E s (e :: rest) s'

namespace Steps
variable {Q : σ → σ → Prop} {shown : ε → σ} {E : ε → σ → Prop} {s s' s'' : σ} {t t' : List ε}

theorem after_quiet (htrans : ∀ {a b c}, Q a b → Q b c → Q a c) (hquiet : Q s s')
    (h : Steps Q shown E s' t s'') : Steps Q shown E s t s'' := by
  cases h with
  | nil _ _ h => exact .nil _ _ (htrans hquiet h)
  | cons _ u _ e rest h hevent hrest => exact .cons _ u _ e rest (htrans hquiet h) hevent hrest

theorem append (htrans : ∀ {a b c}, Q a b → Q b c → Q a c) (h : Steps Q shown E s t s')
    (h' : Steps Q shown E s' t' s'') : Steps Q shown E s (t ++ t') s'' := by
  induction h with
  | nil _ _ h => exact h'.after_quiet htrans h
  | cons _ u _ e rest hquiet hevent _ ih => exact .cons _ u _ e _ hquiet hevent (ih h')

theorem composes (hrefl : ∀ a, Q a a) (htrans : ∀ {a b c}, Q a b → Q b c → Q a c) :
    Composes (Steps Q shown E) :=
  ⟨fun a => .nil a a (hrefl a), fun h h' => h.append htrans h'⟩

/-- The run up to an event, the event and the run from it on. -/
theorem split {before after : List ε} {e : ε} (h : Steps Q shown E s (before ++ e :: after) s') :
    Steps Q shown E s before (shown e) ∧ ∃ u, E e u ∧ Steps Q shown E u after s' := by
  induction before generalizing s with
  | nil =>
    cases h with
    | cons _ u _ _ _ hquiet hevent hrest => exact ⟨.nil _ _ hquiet, u, hevent, hrest⟩
  | cons x before ih =>
    cases h with
    | cons _ u _ _ _ hquiet hevent hrest =>
      obtain ⟨hbefore, hafter⟩ := ih hrest
      exact ⟨.cons _ u _ x before hquiet hevent hbefore, hafter⟩

/-- What quiet moves and the events of the run keep, the run keeps. -/
theorem preserves {I : σ → Prop} (hquiet : ∀ {a b}, Q a b → I a → I b)
    (hevent : ∀ e ∈ t, ∀ u, E e u → I (shown e) → I u) (h : Steps Q shown E s t s') (hs : I s) :
    I s' := by
  induction h with
  | nil _ _ h => exact hquiet h hs
  | cons _ u _ e rest h he _ ih =>
    have hu : I u := hevent e List.mem_cons_self u he (hquiet h hs)
    exact ih (fun e' he' => hevent e' (List.mem_cons_of_mem e he')) hu

end Steps

/-- Every event of the trace has the property. -/
theorem Composes.events (P : ε → Prop) : Composes fun (_ : σ) t _ => ∀ e ∈ t, P e :=
  ⟨fun _ _ h => (nomatch h), fun ht ht' e he => (List.mem_append.mp he).elim (ht e) (ht' e)⟩

end Traced

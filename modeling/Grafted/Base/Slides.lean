import Mathlib.Data.Nat.Find
import Mathlib.Logic.Function.Iterate

/-! Sliding values by one place, at windows that may overlap.

A slide gives every place of a window the value of the next place. After a list of slides a
place has the value of one further on, with windows all the way there (`exists_source`).
Windows that do not meet give each place the next value; what overlaps slides further, and so
does a second round. Where every chain of places leaves the windows, one round is what was meant
and a second changes nothing exactly when the values are level there
(`slid_twice_iff`). -/
namespace Slides
section Rounds
variable {α β ι : Type} (next : α → α) (window : ι → α → Prop) [∀ i x, Decidable (window i x)]

def slide (f : α → β) (i : ι) : α → β := fun x => if window i x then f (next x) else f x

/-- A slide at each window, in order. -/
def slideAll (f : α → β) (windows : List ι) : α → β := windows.foldl (slide next window) f

def Covered (windows : List ι) (x : α) : Prop := ∃ i ∈ windows, window i x

/-- Every place of a window has the value of the next place, the others have their own. -/
structure Slid (f : α → β) (windows : List ι) (g : α → β) : Prop where
  inside : ∀ x, Covered window windows x → g x = f (next x)
  outside : ∀ x, ¬Covered window windows x → g x = f x

/-- The place after next has the value of the next one, where the next is in a window too. -/
def Level (f : α → β) (windows : List ι) : Prop :=
  ∀ x, Covered window windows x → Covered window windows (next x) →
    f (next (next x)) = f (next x)

/-- Going on from a place, the windows end. -/
def Leaves (windows : List ι) : Prop := ∀ x, ∃ n, ¬Covered window windows (next^[n] x)

/-- Where the value of a place comes from, whatever the values are. -/
theorem exists_source (windows : List ι) (x : α) :
    ∃ k, (∀ f : α → β, slideAll next window f windows x = f (next^[k] x)) ∧
      (∀ j < k, Covered window windows (next^[j] x)) ∧ (Covered window windows x → 0 < k) := by
  induction windows with
  | nil => exact ⟨0, fun _ => rfl, fun j hj => absurd hj (Nat.not_lt_zero j), fun ⟨_, h, _⟩ => nomatch h⟩
  | cons i rest ih =>
    obtain ⟨k, hvalue, hcovered, hpos⟩ := ih
    have hmore (y : α) (h : Covered window rest y) : Covered window (i :: rest) y := by
      obtain ⟨i', hi', hy⟩ := h
      exact ⟨i', List.mem_cons_of_mem i hi', hy⟩
    have hfirst (f : α → β) : slideAll next window f (i :: rest) x =
        slide next window f i (next^[k] x) := hvalue (slide next window f i)
    by_cases hi : window i (next^[k] x)
    · refine ⟨k + 1, fun f => ?_, fun j hj => ?_, fun _ => Nat.succ_pos k⟩
      · rw [hfirst, slide, if_pos hi, Function.iterate_succ_apply']
      · rcases Nat.lt_succ_iff_lt_or_eq.mp hj with hj | rfl
        · exact hmore _ (hcovered j hj)
        · exact ⟨i, List.mem_cons_self, hi⟩
    · refine ⟨k, fun f => ?_, fun j hj => hmore _ (hcovered j hj), fun h => ?_⟩
      · rw [hfirst, slide, if_neg hi]
      · obtain ⟨i', hi', hx⟩ := h
        rcases List.mem_cons.mp hi' with rfl | hrest
        · rcases Nat.eq_zero_or_pos k with rfl | hk
          · exact absurd hx hi
          · exact hk
        · exact hpos ⟨i', hrest, hx⟩

variable {next window} {f g : α → β} {windows : List ι}

omit [∀ i x, Decidable (window i x)] in
/-- Level values are the same as long as there are windows. -/
theorem Level.run (h : Level next window f windows) {x : α} {k : Nat}
    (hcovered : ∀ j < k + 1, Covered window windows (next^[j] x)) :
    f (next^[k + 1] x) = f (next x) := by
  induction k with
  | zero => rfl
  | succ k ih =>
    have hthis := hcovered k (by omega)
    have hnext := hcovered (k + 1) (by omega)
    rw [Function.iterate_succ_apply'] at hnext
    rw [Function.iterate_succ_apply', Function.iterate_succ_apply', h _ hthis hnext,
      ← Function.iterate_succ_apply' next k]
    exact ih fun j hj => hcovered j (by omega)

theorem Level.slid (h : Level next window f windows) :
    Slid next window f windows (slideAll next window f windows) := by
  constructor
  · intro x hx
    obtain ⟨k, hvalue, hcovered, hpos⟩ := exists_source next window windows x
    obtain ⟨k, rfl⟩ := Nat.exists_eq_add_of_le' (hpos hx)
    rw [hvalue f]
    exact h.run hcovered
  · intro x hx
    obtain ⟨k, hvalue, hcovered, -⟩ := exists_source next window windows x
    rcases Nat.eq_zero_or_pos k with rfl | hk
    · exact hvalue f
    · exact absurd (hcovered 0 hk) hx

/-- A second round finds the same values. -/
theorem Level.slid_again (h : Level next window f windows) :
    slideAll next window (slideAll next window f windows) windows =
      slideAll next window f windows := by
  funext x
  obtain ⟨hinside, houtside⟩ := h.slid
  obtain ⟨k, hvalue, hcovered, hpos⟩ := exists_source next window windows x
  rw [hvalue (slideAll next window f windows)]
  rcases Nat.eq_zero_or_pos k with rfl | hk
  · rfl
  · have hx : Covered window windows x := hcovered 0 hk
    obtain ⟨k, rfl⟩ := Nat.exists_eq_add_of_le' hk
    rw [hinside x hx]
    by_cases hend : Covered window windows (next^[k + 1] x)
    · rw [hinside _ hend, ← Function.iterate_succ_apply' next (k + 1)]
      refine h.run fun j hj => ?_
      rcases Nat.lt_succ_iff_lt_or_eq.mp hj with hj | rfl
      · exact hcovered j hj
      · exact hend
    · rw [houtside _ hend]
      exact h.run hcovered

/-- Values that a round does not change are those where the windows end. -/
theorem settled (h : slideAll next window g windows = g) {n : Nat} {x : α}
    (hcovered : ∀ j < n, Covered window windows (next^[j] x))
    (hend : ¬Covered window windows (next^[n] x)) : g x = g (next^[n] x) := by
  induction n using Nat.strong_induction_on generalizing x with
  | h n ih =>
    rcases Nat.eq_zero_or_pos n with rfl | hn
    · rfl
    · obtain ⟨k, hvalue, hchain, hpos⟩ := exists_source next window windows x
      have hk : 0 < k := hpos (hcovered 0 hn)
      have hkn : k ≤ n := by
        by_contra hlt
        exact hend (hchain n (by omega))
      obtain ⟨rest, rfl⟩ := Nat.exists_eq_add_of_le' hkn
      have hsplit (j : Nat) : next^[j] (next^[k] x) = next^[j + k] x :=
        (Function.iterate_add_apply next j k x).symm
      calc g x = slideAll next window g windows x := by rw [h]
        _ = g (next^[k] x) := hvalue g
        _ = g (next^[rest] (next^[k] x)) := by
          refine ih rest (by omega) (fun j hj => ?_) ?_
          · rw [hsplit]
            exact hcovered (j + k) (by omega)
          · rw [hsplit]
            exact hend
        _ = g (next^[rest + k] x) := by rw [hsplit]

theorem level_of_again (hleaves : Leaves next window windows) (hslid : Slid next window f windows g)
    (hagain : slideAll next window g windows = g) : Level next window f windows := by
  classical
  intro x hx hnext
  have hexit := hleaves (next x)
  have hend : ¬Covered window windows (next^[Nat.find hexit] (next x)) := Nat.find_spec hexit
  have hbefore (j : Nat) (hj : j < Nat.find hexit) :
      Covered window windows (next^[j] (next x)) := not_not.mp (Nat.find_min hexit hj)
  have hfrom : ∀ j < Nat.find hexit + 1, Covered window windows (next^[j] x) := by
    intro j hj
    cases j with
    | zero => exact hx
    | succ j => exact hbefore j (by omega)
  calc f (next (next x)) = g (next x) := (hslid.inside (next x) hnext).symm
    _ = g (next^[Nat.find hexit] (next x)) := settled hagain hbefore hend
    _ = g x := (settled hagain hfrom hend).symm
    _ = f (next x) := hslid.inside x hx

/-- One round is what was meant and a second changes nothing exactly when the values are
level. -/
theorem slid_twice_iff (hleaves : Leaves next window windows) :
    (Slid next window f windows (slideAll next window f windows) ∧
      slideAll next window (slideAll next window f windows) windows =
        slideAll next window f windows) ↔ Level next window f windows := by
  constructor
  · rintro ⟨hslid, hagain⟩
    exact level_of_again hleaves hslid hagain
  · intro h
    exact ⟨h.slid, h.slid_again⟩

end Rounds

end Slides

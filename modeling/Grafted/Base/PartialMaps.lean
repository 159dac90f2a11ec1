import Mathlib.Logic.Function.Basic

/-! Maps that give some keys a value.

Two maps are mutually inverse when each gives back what the other is given. A pair put in
both that is new to both leaves them so (`Inverse.insertAt`), and so does a pair taken out of
both (`Inverse.removeAt`). A map is one-to-one when no two keys share a value. -/
namespace PartialMaps
variable {α β : Type}

/-- Each gives back what the other is given. -/
def Inverse (f : α → Option β) (g : β → Option α) : Prop := ∀ a b, f a = some b ↔ g b = some a

theorem Inverse.empty : Inverse (fun _ : α => (none : Option β)) fun _ => none := by
  intro a b
  simp

/-- No two keys have one value. -/
def OneToOne (f : α → Option β) : Prop := ∀ a a' b, f a = some b → f a' = some b → a = a'

section Updates
variable [DecidableEq α]

def insertAt (f : α → Option β) (a : α) (b : β) : α → Option β := Function.update f a (some b)

def removeAt (f : α → Option β) (a : α) : α → Option β := Function.update f a none

@[simp] theorem insertAt_self (f : α → Option β) (a : α) (b : β) : insertAt f a b a = some b :=
  Function.update_self ..

theorem insertAt_of_ne (f : α → Option β) {a x : α} (b : β) (h : x ≠ a) : insertAt f a b x = f x :=
  Function.update_of_ne h ..

theorem insertAt_eq_some {f : α → Option β} {a x : α} {b y : β} :
    insertAt f a b x = some y ↔ (x = a ∧ b = y) ∨ (x ≠ a ∧ f x = some y) := by
  by_cases hx : x = a
  · subst hx
    simp [insertAt]
  · simp [insertAt, hx]

theorem removeAt_eq_some {f : α → Option β} {a x : α} {y : β} :
    removeAt f a x = some y ↔ x ≠ a ∧ f x = some y := by
  by_cases hx : x = a
  · subst hx
    simp [removeAt]
  · simp [removeAt, hx]

/-- A pair that is new to both maps is put in both. -/
theorem Inverse.insertAt [DecidableEq β] {f : α → Option β} {g : β → Option α} (h : Inverse f g)
    {a : α} {b : β} (ha : f a = none) (hb : g b = none) : Inverse (insertAt f a b) (insertAt g b a) := by
  intro x y
  rw [insertAt_eq_some, insertAt_eq_some]
  constructor
  · rintro (⟨rfl, rfl⟩ | ⟨hx, hxy⟩)
    · exact .inl ⟨rfl, rfl⟩
    · have hyx := (h x y).mp hxy
      refine .inr ⟨fun heq => ?_, hyx⟩
      rw [heq, hb] at hyx
      exact nomatch hyx
  · rintro (⟨rfl, rfl⟩ | ⟨hy, hyx⟩)
    · exact .inl ⟨rfl, rfl⟩
    · have hxy := (h x y).mpr hyx
      refine .inr ⟨fun heq => ?_, hxy⟩
      rw [heq, ha] at hxy
      exact nomatch hxy

/-- A pair is taken out of both maps. -/
theorem Inverse.removeAt [DecidableEq β] {f : α → Option β} {g : β → Option α} (h : Inverse f g)
    {a : α} {b : β} (hab : f a = some b) : Inverse (removeAt f a) (removeAt g b) := by
  intro x y
  rw [removeAt_eq_some, removeAt_eq_some]
  have hba := (h a b).mp hab
  constructor
  · rintro ⟨hx, hxy⟩
    have hyx := (h x y).mp hxy
    refine ⟨fun heq => hx ?_, hyx⟩
    rw [heq, hba] at hyx
    exact (Option.some.inj hyx).symm
  · rintro ⟨hy, hyx⟩
    have hxy := (h x y).mpr hyx
    refine ⟨fun heq => hy ?_, hxy⟩
    rw [heq, hab] at hxy
    exact (Option.some.inj hxy).symm

end Updates

end PartialMaps

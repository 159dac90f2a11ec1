import Grafted.Loader.ProcessStack
import Grafted.Objc.Runtime

/-! Looking a method up by a selector that is not the runtime's own.

A binary has its own copies of selector names. A method is looked for under the selector's
address, then under the address that the runtime has for its string, and last among the
built-in ones by name. The second search passes over strings that are long or no UTF-8, so
a copy finds what the runtime's own selector finds exactly when it is reached by that
search, or there is nothing to find (`lookup_copy_iff`). -/
namespace Grafted.Objc
open ByteMemory Transition Utf8
open Loader.ProcessStack (asBytes)

/-! ### The source -/

/-- The addresses of the built-in methods. -/
structure Builtins where
  alloc : Word
  init : Word
  noop : Word
  returnsFalse : Word
  returnsNull : Word
  returnsZero : Word

/-- By name, and the last for a name that is not known. -/
def Builtins.method (fns : Builtins) (name : List Byte) : Word :=
  if name = asBytes "alloc" ∨ name = asBytes "allocWithZone:" then fns.alloc
  else if name = asBytes "init" ∨ name = asBytes "new" then fns.init
  else if name = asBytes "retain" ∨ name = asBytes "autorelease" ∨ name = asBytes "self" then fns.init
  else if name = asBytes "release" ∨ name = asBytes "dealloc" then fns.noop
  else if name = asBytes "respondsToSelector:" ∨ name = asBytes "conformsToProtocol:" ∨
      name = asBytes "isKindOfClass:" ∨ name = asBytes "isMemberOfClass:" then fns.returnsFalse
  else if name = asBytes "class" ∨ name = asBytes "superclass" ∨ name = asBytes "description" ∨
      name = asBytes "debugDescription" then fns.returnsNull
  else if name = asBytes "hash" ∨ name = asBytes "count" ∨ name = asBytes "length" then fns.returnsZero
  else fns.returnsNull

/-- The receiver as a class, and its class if its address may be one. -/
def classesToCheck (m : Memory) (receiver : Word) : List Word :=
  let isa := m.readWord receiver
  [receiver, if 0x1000 < isa ∧ isa < 0x800000000000 then isa else 0]

namespace Runtime

/-- The method of the first class that has one under the selector. -/
def firstMethod (rt : Runtime) (classes : List Word) (selector : Word) : Option Word :=
  classes.findSome? fun cls => if cls = 0 then none else rt.methodRegistry.lookup (cls, selector)

/-- Under the runtime's own selector for the string of another. -/
def methodByName (rt : Runtime) (m : Memory) (classes : List Word) (selector : Word) : Option Word :=
  if 0x1000 < selector ∧ valid (rt.cStr m selector) ∧ (rt.cStr m selector).length < 256 then
    match rt.selectorRegistry.lookup (rt.cStr m selector) with
    | some canonical => if canonical ≠ selector then rt.firstMethod classes canonical else none
    | none => none
  else none

end Runtime

/-- `grafted_lookup_method`; 0 is no method. -/
def lookupMethod (fns : Builtins) (m : Memory) (receiver selector : Word) (rt : Runtime) : Word :=
  if receiver = 0 then 0
  else
    match rt.firstMethod (classesToCheck m receiver) selector with
    | some imp => imp
    | none =>
      match rt.methodByName m (classesToCheck m receiver) selector with
      | some imp => imp
      | none => fns.method (lossy (rt.cStr m selector))

/-! ### Methods under the runtime's own selectors -/

/-- Every method is under the address of a selector's string. -/
def OwnSelectors (rt : Runtime) : Prop := ∀ cls sel, (cls, sel) ∈ rt.methodRegistry → sel ∈ rt.boxes

/-- The event adds no method, or adds it under a selector that the runtime has made. -/
def AddsOwn (e : Event Runtime Action (Option Word)) : Prop :=
  ∀ cls sel imp, e.action = .addMethod cls sel imp → sel ∈ e.before.boxes

theorem ownSelectors_new : OwnSelectors .new := by
  intro cls sel h
  cases AList.notMem_empty _ h

/-- No box is taken away. -/
theorem Named.boxes {rt rt' : Runtime} {name : List Byte} {sel : Word} (h : Named name rt sel rt')
    (hrt : Interned rt) (hrt' : Interned rt') {a : Word} (ha : a ∈ rt.boxes) : a ∈ rt'.boxes := by
  obtain ⟨other, hother⟩ := hrt.canonical ha
  have hbox := (hrt'.boxed (h.kept hother)).1
  exact AList.lookup_isSome.mp (by rw [hbox]; rfl)

theorem step_own {allocator : Allocator} {rt : Runtime} {a : Action} (hrt : Interned rt)
    (h : OwnSelectors rt) (ha : AddsOwn ((runtime allocator).event rt a)) :
    OwnSelectors ((runtime allocator).step rt a).1 := by
  cases a with
  | registerName m name =>
    simp only [runtime]
    by_cases hname : name = 0
    · subst hname
      exact h
    · cases hreg : selRegisterName allocator m name rt with
      | none => exact h
      | some answer =>
        have hnamed := named_of_register hname hreg
        intro cls sel hmethod
        rw [hnamed.methods] at hmethod
        exact hnamed.boxes hrt (interned_register hrt hreg) (h cls sel hmethod)
  | addMethod cls sel imp =>
    intro cls' sel' hmethod
    simp only [runtime, (classAddMethod_selectors cls sel imp rt).2]
    simp only [runtime, classAddMethod] at hmethod
    split_ifs at hmethod
    · exact h cls' sel' hmethod
    · obtain heq | hold := (AList.mem_insert _).mp hmethod
      · cases heq
        exact ha cls sel imp rfl
      · exact h cls' sel' hold

theorem run_own {allocator : Allocator} {actions : List Action}
    (h : (runtime allocator).Along AddsOwn .new actions) :
    OwnSelectors ((runtime allocator).run .new actions) := by
  have hkeep : ∀ rt a, Interned rt ∧ OwnSelectors rt → AddsOwn ((runtime allocator).event rt a) →
      Interned ((runtime allocator).step rt a).1 ∧ OwnSelectors ((runtime allocator).step rt a).1 :=
    fun rt a hrt ha => ⟨step_interned hrt.1 a, step_own hrt.1 hrt.2 ha⟩
  exact (System.Along.run_invariant hkeep ⟨interned_new, ownSelectors_new⟩ h).2

theorem OwnSelectors.firstMethod {rt : Runtime} (h : OwnSelectors rt) {sel : Word}
    (hsel : sel ∉ rt.boxes) (classes : List Word) : rt.firstMethod classes sel = none := by
  rw [Runtime.firstMethod, List.findSome?_eq_none_iff]
  intro cls _
  split_ifs
  · rfl
  · exact AList.lookup_eq_none.mpr fun hmem => hsel (h cls sel hmem)

/-! ### What is found -/

section Lookup
variable (fns : Builtins) {rt : Runtime} (m : Memory) {receiver : Word}

/-- What there is for a name: a method under the runtime's own selector, or a built-in one. -/
def methodFor (rt : Runtime) (classes : List Word) (name : List Byte) : Word :=
  ((rt.selectorRegistry.lookup name).bind (rt.firstMethod classes)).getD (fns.method name)

/-- The runtime's own selector finds it. -/
theorem lookup_own (hrt : Interned rt) (hreceiver : receiver ≠ 0) {name : List Byte} {sel : Word}
    (h : rt.selectorRegistry.lookup name = some sel) :
    lookupMethod fns m receiver sel rt = methodFor fns rt (classesToCheck m receiver) name := by
  have hbyName : rt.methodByName m (classesToCheck m receiver) sel = none := by
    rw [Runtime.methodByName, hrt.cStr h, h]
    simp
  rw [lookupMethod, if_neg hreceiver, hbyName, hrt.cStr h, lossy_of_valid (hrt.boxed h).2.2, methodFor, h,
    Option.bind_some]
  cases rt.firstMethod (classesToCheck m receiver) sel <;> rfl

/-- The strings that are looked up. -/
def Reached (copy : Word) (text : List Byte) : Prop :=
  0x1000 < copy ∧ valid text ∧ text.length < 256

instance (copy : Word) (text : List Byte) : Decidable (Reached copy text) :=
  inferInstanceAs (Decidable (_ ∧ _ ∧ _))

/-- Looking a copy's string up is looking the runtime's own selector up. -/
theorem methodByName_eq (hrt : Interned rt) (classes : List Word) {copy : Word} (hcopy : copy ∉ rt.boxes) :
    rt.methodByName m classes copy =
      if Reached copy (rt.cStr m copy) then
        (rt.selectorRegistry.lookup (rt.cStr m copy)).bind (rt.firstMethod classes)
      else none := by
  by_cases hreached : Reached copy (rt.cStr m copy)
  · rw [if_pos hreached]
    refine (if_pos hreached).trans ?_
    cases hlookup : rt.selectorRegistry.lookup (rt.cStr m copy) with
    | none => rfl
    | some canonical =>
      have hne : canonical ≠ copy := by
        rintro rfl
        have hbox := (hrt.boxed hlookup).1
        exact hcopy (AList.lookup_isSome.mp (by rw [hbox]; rfl))
      exact if_pos hne
  · rw [if_neg hreached]
    exact if_neg hreached

/-- A copy finds it too, if its string is looked up, and else a built-in method. -/
theorem lookup_copy (hrt : Interned rt) (hown : OwnSelectors rt) (hreceiver : receiver ≠ 0)
    {copy : Word} (hcopy : copy ∉ rt.boxes) :
    lookupMethod fns m receiver copy rt =
      if Reached copy (rt.cStr m copy) then
        methodFor fns rt (classesToCheck m receiver) (rt.cStr m copy)
      else fns.method (lossy (rt.cStr m copy)) := by
  rw [lookupMethod, if_neg hreceiver, hown.firstMethod hcopy, methodByName_eq m hrt _ hcopy]
  split_ifs with hreached
  · rw [methodFor, lossy_of_valid hreached.2.1]
    cases (rt.selectorRegistry.lookup (rt.cStr m copy)).bind _ <;> rfl
  · rfl

/-- A name has the methods it had when its selector was made. -/
theorem methodFor_named {name : List Byte} {sel : Word} {rt' : Runtime}
    (h : Named name rt sel rt') (hown : OwnSelectors rt) (classes : List Word) :
    methodFor fns rt' classes name = methodFor fns rt classes name := by
  obtain rfl | ⟨hnone, hfresh⟩ := h.known
  · rfl
  · have hfirst : rt'.firstMethod classes sel = none := by
      have hold := hown.firstMethod hfresh classes
      rw [Runtime.firstMethod] at hold ⊢
      rw [h.methods]
      exact hold
    rw [methodFor, methodFor, h.named, hnone, Option.bind_some, hfirst]
    rfl

end Lookup

/-- How a copy of a name finds what the runtime's own selector for the name does: there is
nobody to ask, it is the runtime's own, its string is looked up, or the class has no method
but the built-in one. -/
def FindsAlike (fns : Builtins) (rt : Runtime) (m : Memory) (receiver copy : Word) : Prop :=
  receiver = 0 ∨ copy ∈ rt.boxes ∨ Reached copy (rt.cStr m copy) ∨
    ∀ imp, (rt.selectorRegistry.lookup (lossy (rt.cStr m copy))).bind
      (rt.firstMethod (classesToCheck m receiver)) = some imp →
        imp = fns.method (lossy (rt.cStr m copy))

/-- After a history that adds methods under the runtime's own selectors only, a copy of a name
and the selector that the name is registered as find one method in just these cases. -/
theorem lookup_copy_iff {allocator : Allocator} {actions : List Action}
    (hactions : (runtime allocator).Along AddsOwn .new actions) (fns : Builtins) {m : Memory}
    {receiver copy name sel : Word} {rt rt' : Runtime} (hrt : (runtime allocator).run .new actions = rt)
    (hname : name ≠ 0) (hcopy : rt.cStr m copy = rt.cStr m name)
    (hreg : selRegisterName allocator m name rt = some (sel, rt')) :
    lookupMethod fns m receiver copy rt = lookupMethod fns m receiver sel rt' ↔
      FindsAlike fns rt m receiver copy := by
  have hinterned : Interned rt := hrt ▸ run_interned actions
  have hown : OwnSelectors rt := hrt ▸ run_own hactions
  have hnamed := named_of_register hname hreg
  rw [← hcopy] at hnamed
  by_cases hreceiver : receiver = 0
  · simp [lookupMethod, FindsAlike, hreceiver]
  have hsel : lookupMethod fns m receiver sel rt' =
      methodFor fns rt (classesToCheck m receiver) (lossy (rt.cStr m copy)) := by
    rw [lookup_own fns m (interned_register hinterned hreg) hreceiver hnamed.named,
      methodFor_named fns hnamed hown]
  rw [hsel]
  by_cases hbox : copy ∈ rt.boxes
  · -- the copy is the selector
    obtain ⟨text, htext⟩ := hinterned.canonical hbox
    have hlossy : lossy (rt.cStr m copy) = text := by
      rw [hinterned.cStr htext, lossy_of_valid (hinterned.boxed htext).2.2]
    rw [lookup_own fns m hinterned hreceiver htext, hlossy]
    exact iff_of_true rfl (.inr (.inl hbox))
  · rw [lookup_copy fns m hinterned hown hreceiver hbox]
    split_ifs with hreached
    · rw [lossy_of_valid hreached.2.1]
      exact iff_of_true rfl (.inr (.inr (.inl hreached)))
    · simp only [FindsAlike, hreceiver, hbox, hreached, false_or]
      rw [methodFor]
      cases (rt.selectorRegistry.lookup (lossy (rt.cStr m copy))).bind _ with
      | none => simp
      | some imp => simp [eq_comm]

/-- The name at 0x2000 is registered, and has a method of the class at 0x4000. -/
def history (m : Memory) : List Action := [.registerName m 0x2000, .addMethod 0x4000 0x5000 0x7000]

/-- A name of one byte, twice. -/
def shortNames : Memory := fun a => if a = 0x2000 ∨ a = 0x3000 then 0x61 else 0

/-- A name of 256 bytes, twice. -/
def longNames : Memory := fun a =>
  if 0x2000 ≤ a ∧ a < 0x2100 ∨ 0x3000 ≤ a ∧ a < 0x3100 then 0x61 else 0

def builtinsAt : Builtins := ⟨0x9000, 0x9010, 0x9020, 0x9030, 0x9040, 0x9050⟩

theorem history_addsOwn {m : Memory}
    (h : (0x5000 : Word) ∈ ((runtime oneBox).step .new (.registerName m 0x2000)).1.boxes) :
    (runtime oneBox).Along AddsOwn .new (history m) := by
  refine System.along_cons.mpr ⟨?_, System.along_cons.mpr ⟨?_, System.along_nil _ _⟩⟩
  · intro cls sel imp ha
    cases ha
  · intro cls sel imp ha
    cases ha
    exact h

theorem lookup_short_copy :
    lookupMethod builtinsAt shortNames 0x4000 0x3000 ((runtime oneBox).run .new (history shortNames)) =
      lookupMethod builtinsAt shortNames 0x4000 0x5000
        ((runtime oneBox).run .new (history shortNames)) :=
  (lookup_copy_iff (history_addsOwn (by decide)) builtinsAt rfl (show (0x2000 : Word) ≠ 0 by decide) (by decide)
    (register_known (by decide) (by decide))).mpr (.inr (.inr (.inl (by decide))))

/-- The method is found by the runtime's own selector, and not by the copy. -/
theorem long_name_not_found : ∃ actions m receiver copy name sel rt',
    (runtime oneBox).Along AddsOwn .new actions ∧ name ≠ 0 ∧
      ((runtime oneBox).run .new actions).cStr m copy = ((runtime oneBox).run .new actions).cStr m name ∧
      selRegisterName oneBox m name ((runtime oneBox).run .new actions) = some (sel, rt') ∧
      lookupMethod builtinsAt m receiver copy ((runtime oneBox).run .new actions) ≠
        lookupMethod builtinsAt m receiver sel rt' := by
  refine ⟨history longNames, longNames, 0x4000, 0x3000, 0x2000, 0x5000, _,
    history_addsOwn (by decide +kernel), by decide, by decide +kernel,
    register_known (by decide) (by decide +kernel), ?_⟩
  decide +kernel

end Grafted.Objc

import Grafted.Base.CStrings
import Grafted.Base.Transition
import Grafted.Base.Utf8
import Mathlib.Data.List.AList
import Mathlib.Data.List.TakeWhile

/-! The registries of the Objective-C runtime: selectors, methods, classes.

A selector is the address of a string that is made once for a name and never freed. Names
are keys of a map from Rust strings, so what is no UTF-8 becomes a replacement first:
selectors are unique, and hold the names they were made for, exactly along the runs that
register only UTF-8 (`selectorsUnique_iff`). The strings of selectors are apart from the
memory of the program, which may be any at any call. -/
namespace Grafted.Objc
open ByteMemory Transition Utf8

/-! ### The source -/

abbrev Registry (κ : Type) := AList fun _ : κ => Word

structure Runtime where
  methodRegistry : Registry (Word × Word)
  classRegistry : Registry (List Byte)
  selectorRegistry : Registry (List Byte)
  /-- The boxes that the selectors are the addresses of. -/
  boxes : AList fun _ : Word => List Byte

namespace Runtime

def new : Runtime := ⟨∅, ∅, ∅, ∅⟩

end Runtime

/-- Where a box with the bytes is put, the others being at the addresses of the list. None
if there is no memory, and the process aborts. -/
structure Allocator where
  box : List Word → List Byte → Option Word
  fresh : ∀ {others bytes a}, box others bytes = some a → a ∉ others

/-- The bytes before the zero byte, in the memory of the program. -/
def cStrAt (m : Memory) (a : Word) : List Byte := (m.readCString (2 ^ 64) a).getD []

/-- `CStr::from_ptr`, in a box or in the memory of the program. -/
def Runtime.cStr (rt : Runtime) (m : Memory) (a : Word) : List Byte :=
  match rt.boxes.lookup a with
  | some box => box.takeWhile (· != 0)
  | none => cStrAt m a

/-- Answers false if there is a method already. -/
def classAddMethod (cls name imp : Word) (rt : Runtime) : Bool × Runtime :=
  if (cls, name) ∈ rt.methodRegistry then (false, rt)
  else (true, {rt with methodRegistry := rt.methodRegistry.insert (cls, name) imp})

/-- The selector of a name. -/
def internName (allocator : Allocator) (name : List Byte) (rt : Runtime) : Option (Word × Runtime) :=
  match rt.selectorRegistry.lookup name with
  | some sel => some (sel, rt)
  | none => (allocator.box rt.boxes.keys (name ++ [0])).map fun ptr =>
    (ptr, {rt with
      selectorRegistry := rt.selectorRegistry.insert name ptr
      boxes := rt.boxes.insert ptr (name ++ [0]) })

def selRegisterName (allocator : Allocator) (m : Memory) (name : Word) (rt : Runtime) :
    Option (Word × Runtime) :=
  if name = 0 then some (0, rt) else internName allocator (lossy (rt.cStr m name)) rt

/-- The `class_ro_t` of a class, less the bits of its address that are flags. -/
def classData (m : Memory) (cls : Word) : Word := m.readWord (cls + 32) &&& ~~~7

/-- Where its name is. -/
def classNameAt (m : Memory) (cls : Word) : Word := m.readWord (classData m cls + 24)

/-- Nothing for a class without data or name. -/
def registerClassPair (m : Memory) (cls : Word) (rt : Runtime) : Runtime :=
  if cls = 0 ∨ classData m cls = 0 ∨ classNameAt m cls = 0 then rt
  else {rt with
    classRegistry := rt.classRegistry.insert (lossy (cStrAt m (classNameAt m cls))) cls }

/-- The string of a selector. -/
def Runtime.stored (rt : Runtime) (sel : Word) : Option (List Byte) :=
  (rt.boxes.lookup sel).map fun box => box.takeWhile (· != 0)

/-! ### Runs -/

inductive Action where
  /-- `sel_registerName`, on a string in memory as it then is. -/
  | registerName (m : Memory) (name : Word)
  | addMethod (cls name imp : Word)

/-- The runtime, until an allocation fails. -/
def runtime (allocator : Allocator) : System Runtime Action (Option Word) where
  step rt
    | .registerName m name =>
      match selRegisterName allocator m name rt with
      | some (sel, rt') => (rt', some sel)
      | none => (rt, none)
    | .addMethod cls name imp => ((classAddMethod cls name imp rt).2, none)

/-! ### Strings -/

theorem zero_notMem_readCString {m : Memory} {n : Nat} {a : Word} {bytes : List Byte}
    (h : m.readCString n a = some bytes) : 0 ∉ bytes := by
  induction n generalizing a bytes with
  | zero => cases h
  | succ n ih =>
    rw [Memory.readCString] at h
    split_ifs at h with hzero
    · cases h
      exact List.not_mem_nil
    · obtain ⟨rest, hrest, rfl⟩ := Option.map_eq_some_iff.mp h
      rw [List.mem_cons, not_or]
      exact ⟨Ne.symm hzero, ih hrest⟩

theorem zero_notMem_takeWhile (box : List Byte) : 0 ∉ box.takeWhile (· != 0) := by
  intro hmem
  have hne := List.mem_takeWhile_imp hmem
  simp at hne

theorem Runtime.zero_notMem_cStr (rt : Runtime) (m : Memory) (a : Word) : 0 ∉ rt.cStr m a := by
  unfold cStr
  cases rt.boxes.lookup a with
  | some box => exact zero_notMem_takeWhile box
  | none =>
    show 0 ∉ cStrAt m a
    cases hread : m.readCString (2 ^ 64) a with
    | some bytes =>
      rw [cStrAt, hread]
      exact zero_notMem_readCString hread
    | none =>
      rw [cStrAt, hread]
      exact List.not_mem_nil

theorem takeWhile_terminated {name : List Byte} (h : 0 ∉ name) :
    (name ++ [0]).takeWhile (· != 0) = name := by
  rw [List.takeWhile_append_of_pos]
  · simp
  · intro b hb
    have hne : b ≠ 0 := fun heq => h (heq ▸ hb)
    simpa using hne

/-! ### Selectors -/

/-- A selector is the address of its own name. -/
structure Interned (rt : Runtime) : Prop where
  boxed : ∀ {name sel}, rt.selectorRegistry.lookup name = some sel →
    rt.boxes.lookup sel = some (name ++ [0]) ∧ 0 ∉ name ∧ valid name
  canonical : ∀ {sel}, sel ∈ rt.boxes → ∃ name, rt.selectorRegistry.lookup name = some sel

theorem interned_new : Interned .new := by
  refine ⟨fun {name sel} h => ?_, fun {sel} h => ?_⟩
  · cases h
  · cases AList.notMem_empty sel h

namespace Interned
variable {rt : Runtime}

theorem stored (hrt : Interned rt) {name : List Byte} {sel : Word}
    (h : rt.selectorRegistry.lookup name = some sel) : rt.stored sel = some name := by
  obtain ⟨hbox, hzero, -⟩ := hrt.boxed h
  rw [Runtime.stored, hbox, Option.map_some, takeWhile_terminated hzero]

theorem cStr (hrt : Interned rt) {name : List Byte} {sel : Word}
    (h : rt.selectorRegistry.lookup name = some sel) (m : Memory) : rt.cStr m sel = name := by
  obtain ⟨hbox, hzero, -⟩ := hrt.boxed h
  rw [Runtime.cStr, hbox]
  exact takeWhile_terminated hzero

/-- One name for a selector. -/
theorem injective (hrt : Interned rt) {name name' : List Byte} {sel : Word}
    (h : rt.selectorRegistry.lookup name = some sel)
    (h' : rt.selectorRegistry.lookup name' = some sel) : name = name' :=
  Option.some.inj ((hrt.stored h).symm.trans (hrt.stored h'))

end Interned

/-- What interning a name does. -/
structure Named (name : List Byte) (rt : Runtime) (sel : Word) (rt' : Runtime) : Prop where
  named : rt'.selectorRegistry.lookup name = some sel
  kept : ∀ {other s}, rt.selectorRegistry.lookup other = some s →
    rt'.selectorRegistry.lookup other = some s
  /-- It was there, or its address was not. -/
  known : rt' = rt ∨ rt.selectorRegistry.lookup name = none ∧ sel ∉ rt.boxes
  methods : rt'.methodRegistry = rt.methodRegistry
  classes : rt'.classRegistry = rt.classRegistry

theorem named_of_intern {allocator : Allocator} {name : List Byte} {rt rt' : Runtime} {sel : Word}
    (h : internName allocator name rt = some (sel, rt')) : Named name rt sel rt' := by
  rw [internName] at h
  cases hlookup : rt.selectorRegistry.lookup name with
  | some known =>
    rw [hlookup] at h
    cases h
    exact ⟨hlookup, id, .inl rfl, rfl, rfl⟩
  | none =>
    rw [hlookup] at h
    obtain ⟨ptr, hptr, heq⟩ := Option.map_eq_some_iff.mp h
    cases heq
    refine ⟨AList.lookup_insert _, fun {other s} hother => ?_, .inr ⟨hlookup, allocator.fresh hptr⟩,
      rfl, rfl⟩
    have hne : other ≠ name := by
      rintro rfl
      cases hlookup.symm.trans hother
    exact (AList.lookup_insert_ne hne).trans hother

theorem interned_intern {allocator : Allocator} {name : List Byte} {rt rt' : Runtime} {sel : Word}
    (hrt : Interned rt) (hzero : 0 ∉ name) (hvalid : valid name)
    (h : internName allocator name rt = some (sel, rt')) : Interned rt' := by
  rw [internName] at h
  cases hlookup : rt.selectorRegistry.lookup name with
  | some known =>
    rw [hlookup] at h
    cases h
    exact hrt
  | none =>
    rw [hlookup] at h
    obtain ⟨ptr, hptr, heq⟩ := Option.map_eq_some_iff.mp h
    cases heq
    have hfresh : sel ∉ rt.boxes := allocator.fresh hptr
    refine ⟨fun {other s} hother => ?_, fun {s} hs => ?_⟩
    · by_cases hname : other = name
      · subst hname
        cases hother.symm.trans (AList.lookup_insert _)
        exact ⟨AList.lookup_insert _, hzero, hvalid⟩
      · have hold := (AList.lookup_insert_ne hname).symm.trans hother
        obtain ⟨hbox, hrest⟩ := hrt.boxed hold
        have hne : s ≠ sel := by
          rintro rfl
          exact hfresh (AList.lookup_isSome.mp (by rw [hbox]; rfl))
        exact ⟨(AList.lookup_insert_ne hne).trans hbox, hrest⟩
    · obtain rfl | hold := (AList.mem_insert _).mp hs
      · exact ⟨name, AList.lookup_insert _⟩
      · obtain ⟨other, hother⟩ := hrt.canonical hold
        have hne : other ≠ name := by
          rintro rfl
          cases hlookup.symm.trans hother
        exact ⟨other, (AList.lookup_insert_ne hne).trans hother⟩

theorem named_of_register {allocator : Allocator} {m : Memory} {name : Word} (hname : name ≠ 0)
    {rt rt' : Runtime} {sel : Word} (h : selRegisterName allocator m name rt = some (sel, rt')) :
    Named (lossy (rt.cStr m name)) rt sel rt' := by
  rw [selRegisterName, if_neg hname] at h
  exact named_of_intern h

/-- A name that is known changes nothing. -/
theorem register_known {allocator : Allocator} {m : Memory} {name : Word} (hname : name ≠ 0)
    {rt : Runtime} {sel : Word} (h : rt.selectorRegistry.lookup (lossy (rt.cStr m name)) = some sel) :
    selRegisterName allocator m name rt = some (sel, rt) := by
  rw [selRegisterName, if_neg hname, internName, h]

theorem interned_register {allocator : Allocator} {m : Memory} {name : Word} {rt rt' : Runtime}
    {sel : Word} (hrt : Interned rt) (h : selRegisterName allocator m name rt = some (sel, rt')) :
    Interned rt' := by
  rw [selRegisterName] at h
  split_ifs at h with hname
  · cases h
    exact hrt
  · exact interned_intern hrt (zero_notMem_lossy (rt.zero_notMem_cStr m name)) (valid_lossy _) h

theorem classAddMethod_selectors (cls name imp : Word) (rt : Runtime) :
    (classAddMethod cls name imp rt).2.selectorRegistry = rt.selectorRegistry ∧
      (classAddMethod cls name imp rt).2.boxes = rt.boxes := by
  unfold classAddMethod
  split_ifs
  · exact ⟨rfl, rfl⟩
  · exact ⟨rfl, rfl⟩

/-! ### Along a run -/

section Run
variable (allocator : Allocator)

/-- The call of the event was on a string, and has returned. -/
def Returned (e : Event Runtime Action (Option Word)) (sel : Word) (text : List Byte) : Prop :=
  ∃ m name, e.action = .registerName m name ∧ name ≠ 0 ∧ e.answer = some sel ∧
    e.before.cStr m name = text

variable {allocator}

theorem step_interned {rt : Runtime} (h : Interned rt) (a : Action) :
    Interned ((runtime allocator).step rt a).1 := by
  cases a with
  | registerName m name =>
    simp only [runtime]
    cases hreg : selRegisterName allocator m name rt with
    | none => exact h
    | some answer => exact interned_register h hreg
  | addMethod cls name imp =>
    obtain ⟨hsel, hboxes⟩ := classAddMethod_selectors cls name imp rt
    refine ⟨fun {other sel} hother => ?_, fun {sel} hsel' => ?_⟩
    · simp only [runtime, hsel] at hother
      simp only [runtime, hboxes]
      exact h.boxed hother
    · simp only [runtime, hboxes] at hsel'
      simp only [runtime, hsel]
      exact h.canonical hsel'

theorem run_interned (actions : List Action) : Interned ((runtime allocator).run .new actions) := by
  have hkeep : ∀ rt a, Interned rt → Interned ((runtime allocator).step rt a).1 :=
    fun _ a h => step_interned h a
  exact System.run_invariant hkeep interned_new actions

theorem step_kept {rt : Runtime} (a : Action) {name : List Byte} {sel : Word}
    (h : rt.selectorRegistry.lookup name = some sel) :
    ((runtime allocator).step rt a).1.selectorRegistry.lookup name = some sel := by
  cases a with
  | registerName m ptr =>
    simp only [runtime]
    by_cases hptr : ptr = 0
    · subst hptr
      exact h
    · cases hreg : selRegisterName allocator m ptr rt with
      | none => exact h
      | some answer => exact (named_of_register hptr hreg).kept h
  | addMethod cls ptr imp =>
    simp only [runtime, (classAddMethod_selectors cls ptr imp rt).1]
    exact h

theorem run_kept {rt : Runtime} (actions : List Action) {name : List Byte} {sel : Word}
    (h : rt.selectorRegistry.lookup name = some sel) :
    ((runtime allocator).run rt actions).selectorRegistry.lookup name = some sel := by
  have hkeep : ∀ rt a, rt.selectorRegistry.lookup name = some sel →
      ((runtime allocator).step rt a).1.selectorRegistry.lookup name = some sel :=
    fun _ a hs => step_kept a hs
  exact System.run_invariant hkeep h actions

theorem Returned.named {rt : Runtime} {a : Action} {sel : Word} {text : List Byte}
    (h : Returned ((runtime allocator).event rt a) sel text) :
    ((runtime allocator).step rt a).1.selectorRegistry.lookup (lossy text) = some sel := by
  obtain ⟨m, name, ha, hname, hanswer, rfl⟩ := h
  obtain rfl : a = .registerName m name := ha
  simp only [System.event, runtime] at hanswer ⊢
  cases hreg : selRegisterName allocator m name rt with
  | none =>
    rw [hreg] at hanswer
    cases hanswer
  | some answer =>
    rw [hreg] at hanswer
    obtain ⟨known, rt'⟩ := answer
    cases hanswer
    exact (named_of_register hname hreg).named

/-- Every selector that was returned is at the end that of its name. -/
theorem Returned.named_at_end {actions : List Action} {e : Event Runtime Action (Option Word)}
    (he : e ∈ (runtime allocator).events .new actions) {sel : Word} {text : List Byte}
    (h : Returned e sel text) :
    ((runtime allocator).run .new actions).selectorRegistry.lookup (lossy text) = some sel := by
  have hall : (runtime allocator).Along (fun e => ∀ sel text, Returned e sel text →
      ((runtime allocator).run .new actions).selectorRegistry.lookup (lossy text) = some sel)
      .new actions := by
    rw [System.along_iff_split]
    rintro before a after rfl sel text h
    rw [System.run_append]
    exact run_kept after h.named
  exact hall e he sel text h

variable (allocator)

/-- What selectors owe: one for each string, and the string at each of them from then on. -/
structure SelectorsUnique (actions : List Action) : Prop where
  unique : ∀ e ∈ (runtime allocator).events .new actions,
    ∀ e' ∈ (runtime allocator).events .new actions, ∀ sel sel' text text',
      Returned e sel text → Returned e' sel' text' → (sel = sel' ↔ text = text')
  stored : ∀ before a between after, actions = before ++ a :: (between ++ after) →
    ∀ sel text, Returned ((runtime allocator).event ((runtime allocator).run .new before) a) sel text →
      ((runtime allocator).run .new (before ++ a :: between)).stored sel = some text

/-- Selectors are unique along the runs whose strings are UTF-8, and along no others. -/
theorem selectorsUnique_iff (actions : List Action) : SelectorsUnique allocator actions ↔
    (runtime allocator).Along (fun e => ∀ sel text, Returned e sel text → valid text) .new actions := by
  constructor
  · intro h
    rw [System.along_iff_split]
    intro before a after hactions sel text hret
    -- what is stored at once is what was made of the string
    have hstored := h.stored before a [] after hactions sel text hret
    have hnamed : ((runtime allocator).run .new (before ++ [a])).selectorRegistry.lookup (lossy text) =
        some sel := by
      rw [System.run_append]
      exact hret.named
    exact lossy_eq_iff.mp (Option.some.inj (((run_interned _).stored hnamed).symm.trans hstored))
  · intro hvalid
    refine ⟨?_, ?_⟩
    · intro e he e' he' sel sel' text text' hret hret'
      have hnamed := hret.named_at_end he
      have hnamed' := hret'.named_at_end he'
      constructor
      · rintro rfl
        have heq := (run_interned actions).injective hnamed hnamed'
        rwa [lossy_of_valid (hvalid e he _ _ hret), lossy_of_valid (hvalid e' he' _ _ hret')] at heq
      · rintro rfl
        exact Option.some.inj (hnamed.symm.trans hnamed')
    · rintro before a between after rfl sel text hret
      have hmem := (System.along_iff_split.mp hvalid) before a (between ++ after) rfl sel text hret
      have hnamed : ((runtime allocator).run .new (before ++ a :: between)).selectorRegistry.lookup
          (lossy text) = some sel := by
        rw [System.run_append]
        exact run_kept between hret.named
      rw [(run_interned _).stored hnamed, lossy_of_valid hmem]

end Run

theorem box_fresh {others : List Word} {a : Word}
    (h : (if others = [] then some (0x5000 : Word) else none) = some a) : a ∉ others := by
  split_ifs at h with hothers
  rw [hothers]
  exact List.not_mem_nil

/-- Memory for one box. -/
def oneBox : Allocator where
  box others _ := if others = [] then some 0x5000 else none
  fresh := box_fresh

/-- Two strings of one byte that is no character. -/
def brokenNames : Memory := fun a => if a = 0x1000 then 0xff else if a = 0x2000 then 0xfe else 0

/-- Both are one selector. -/
theorem selectors_collide : ¬ SelectorsUnique oneBox
    [.registerName brokenNames 0x1000, .registerName brokenNames 0x2000] := by
  intro h
  have hfirst : Returned ((runtime oneBox).event .new (.registerName brokenNames 0x1000)) 0x5000
      [0xff] := ⟨brokenNames, 0x1000, rfl, by decide, by decide, by decide⟩
  have hsecond : Returned ((runtime oneBox).event
      ((runtime oneBox).step .new (.registerName brokenNames 0x1000)).1
      (.registerName brokenNames 0x2000)) 0x5000 [0xfe] :=
    ⟨brokenNames, 0x2000, rfl, by decide, by decide, by decide⟩
  have hsame := (h.unique _ List.mem_cons_self _ (List.mem_cons_of_mem _ List.mem_cons_self) _ _ _ _
    hfirst hsecond).mp rfl
  exact absurd hsame (by decide)

end Grafted.Objc

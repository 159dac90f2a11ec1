import Grafted.Base.Transition
import Grafted.Dyld.Bindings
import Grafted.Objc.Runtime
import Mathlib.Data.List.Induction

/-! The linker's cache of classes and the registry of the runtime.

A lookup of a class symbol makes a stub where no class is registered, and remembers the
class for good. The registry holds the class that was registered last under a name. So
the two have one class for each name, in every state of a run, exactly if the run never
registers another class under a name that was looked up (`agreed_iff`). -/
namespace Grafted.Dyld.ClassCache
open ByteMemory Transition Linker

/-! ### The source -/

/-- The string of bytes that are UTF-8. -/
def text (bytes : List Byte) : String :=
  (String.fromUTF8? ⟨(bytes.map UInt8.ofBitVec).toArray⟩).getD ""

/-- The name of a class. None without data or name. -/
def className (m : Memory) (cls : Word) : Option String :=
  if cls = 0 ∨ Objc.classData m cls = 0 ∨ Objc.classNameAt m cls = 0 then none
  else some (text (Utf8.lossy (Objc.cStrAt m (Objc.classNameAt m cls))))

def objcRegisterClassPair (m : Memory) (cls : Word) (objc : Objc) : Objc :=
  match className m cls with
  | none => objc
  | some name => {objc with classRegistry := objc.classRegistry.insert name cls}

/-! ### Runs -/

/-- The linker, and the memory the program has written, may be any at any call. -/
inductive Action where
  | registerClassPair (m : Memory) (cls : Word)
  | resolve (linker : Linker) (dylib symbol : String) (isWeak : Bool)

abbrev Answer := Option (Except LinkError Address)

def classes (host : Host) : System Objc Action Answer where
  step objc
    | .registerClassPair m cls => (objcRegisterClassPair m cls objc, none)
    | .resolve linker dylib symbol isWeak =>
      let (answer, objc) := resolve host linker dylib symbol isWeak objc
      (objc, some answer)

def new : Objc := ⟨∅, ∅, 0⟩

/-- A lookup of the class, or of its metaclass, that nothing is found for before. -/
inductive AsksFor (host : Host) : Action → String → Prop where
  | lookup {linker : Linker} {dylib symbol name : String} {isWeak : Bool}
    (hreg : findRegistered linker dylib symbol = none)
    (hload : findLoaded host linker dylib symbol = none)
    (hsymbol : symbol = "_OBJC_CLASS_$_" ++ name ∨ symbol = "_OBJC_METACLASS_$_" ++ name) :
    AsksFor host (.resolve linker dylib symbol isWeak) name

/-- A lookup of a class answers what `objc_getClass` then does. -/
def Agrees (host : Host) (e : Event Objc Action Answer) : Prop :=
  ∀ name, AsksFor host e.action name → e.answer = some (.ok (e.after.getClass (cName name)))

/-- Whatever is looked up after any part of the run. -/
def Agreed (host : Host) (actions : List Action) : Prop :=
  ∀ before after, actions = before ++ after →
    ∀ a, Agrees host ((classes host).event ((classes host).run new before) a)

/-- No other class is registered under a name that was looked up. -/
def KeepsClass (e : Event Objc Action Answer) : Prop :=
  ∀ m cls name known, e.action = .registerClassPair m cls → className m cls = some (cName name) →
    e.before.classCache.lookup name = some known → cls = known

/-! ### The invariant -/

/-- What is remembered is what is registered. -/
def Coherent (objc : Objc) : Prop :=
  ∀ name known, objc.classCache.lookup name = some known →
    known ≠ 0 ∧ objc.getClass (cName name) = known

theorem coherent_new : Coherent new := by
  intro name known h
  cases h

/-- What a lookup of a class comes to. -/
structure Known (name : String) (cls : Word) (objc : Objc) : Prop where
  coherent : Coherent objc
  cached : objc.classCache.lookup name = some cls

namespace Known
variable {name : String} {cls : Word} {objc : Objc}

theorem ne_zero (h : Known name cls objc) : cls ≠ 0 := (h.coherent name cls h.cached).1

theorem getClass (h : Known name cls objc) : objc.getClass (cName name) = cls :=
  (h.coherent name cls h.cached).2

end Known

theorem getClass_insert (objc : Objc) (name name' : String) (cls : Word) :
    ({objc with classRegistry := objc.classRegistry.insert name cls} : Objc).getClass name' =
      if name' = name then cls else objc.getClass name' := by
  unfold Objc.getClass
  by_cases hname : name' = name
  · rw [if_pos hname, hname, AList.lookup_insert]
    rfl
  · rw [if_neg hname, AList.lookup_insert_ne hname]

/-- An entry is put in: it has the property, and the others still have it. -/
theorem forall_lookup_insert {cache : AList fun _ : String => Word} {name : String} {cls : Word}
    {P : String → Word → Prop} (hown : P name cls)
    (hothers : ∀ name' known, cache.lookup name' = some known → P name' known)
    (name' : String) (known : Word) (hknown : (cache.insert name cls).lookup name' = some known) :
    P name' known := by
  by_cases hname : name' = name
  · subst hname
    rw [AList.lookup_insert] at hknown
    cases hknown
    exact hown
  · rw [AList.lookup_insert_ne hname] at hknown
    exact hothers name' known hknown

theorem known_autoCreate (host : Host) {objc : Objc} (h : Coherent objc) (name : String) :
    Known name (autoCreateObjcClass host name objc).1 (autoCreateObjcClass host name objc).2 := by
  unfold autoCreateObjcClass
  cases hcached : objc.classCache.lookup name with
  | some cls => exact ⟨h, hcached⟩
  | none =>
    by_cases hexisting : objc.getClass (cName name) = 0
    · simp only [hexisting, ne_eq, not_true_eq_false, if_false]
      refine ⟨forall_lookup_insert ?_ fun name' known hknown => ?_, AList.lookup_insert _⟩
      · refine ⟨host.calloc_ne_zero _, ?_⟩
        rw [Objc.getClass, AList.lookup_insert]
        rfl
      · obtain ⟨hne, hget⟩ := h name' known hknown
        -- a class that is remembered is registered, so the stub is under another name
        have hother : cName name' ≠ cName name := by
          intro heq
          rw [heq, hexisting] at hget
          exact hne hget.symm
        refine ⟨hne, ?_⟩
        rw [Objc.getClass, AList.lookup_insert_ne hother]
        exact hget
    · simp only [ne_eq, hexisting, not_false_eq_true, if_true]
      exact ⟨forall_lookup_insert ⟨hexisting, rfl⟩ h, AList.lookup_insert _⟩

theorem coherent_findClass (host : Host) {objc : Objc} (h : Coherent objc) (start symbol : String) :
    Coherent (findClass host start symbol objc).2 := by
  unfold findClass
  cases stripPrefix start symbol with
  | none => exact h
  | some name => exact (known_autoCreate host h name).coherent

theorem coherent_resolve (host : Host) {objc : Objc} (h : Coherent objc) (linker : Linker)
    (dylib symbol : String) (isWeak : Bool) : Coherent (resolve host linker dylib symbol isWeak objc).2 := by
  unfold resolve
  cases findRegistered linker dylib symbol with
  | some addr => exact h
  | none =>
    cases findLoaded host linker dylib symbol with
    | some addr => exact h
    | none =>
      have hclass := coherent_findClass host h "_OBJC_CLASS_$_" symbol
      generalize findClass host "_OBJC_CLASS_$_" symbol objc = found at hclass
      obtain ⟨cls, objc₁⟩ := found
      cases cls with
      | some cls => exact hclass
      | none =>
        have hmeta := coherent_findClass host hclass "_OBJC_METACLASS_$_" symbol
        dsimp only at hmeta ⊢
        generalize findClass host "_OBJC_METACLASS_$_" symbol objc₁ = found at hmeta
        obtain ⟨cls, objc₂⟩ := found
        cases cls with
        | some cls => exact hmeta
        | none =>
          cases findSwift host symbol with
          | some addr => exact hmeta
          | none => cases isWeak <;> exact hmeta

/-! ### Lookups -/

variable {host : Host}

theorem stripPrefix_append (start rest : String) : stripPrefix start (start ++ rest) = some rest := by
  rw [stripPrefix, String.toList_append, if_pos (List.isPrefixOf_iff_prefix.mpr (List.prefix_append ..)),
    List.drop_left, String.ofList_toList]

theorem stripPrefix_class_metaclass (name : String) :
    stripPrefix "_OBJC_CLASS_$_" ("_OBJC_METACLASS_$_" ++ name) = none := by
  rw [stripPrefix, String.toList_append, if_neg]
  have hclass : "_OBJC_CLASS_$_".toList = "_OBJC_".toList ++ 'C' :: "LASS_$_".toList := rfl
  have hmeta : "_OBJC_METACLASS_$_".toList = "_OBJC_".toList ++ 'M' :: "ETACLASS_$_".toList := rfl
  rw [hclass, hmeta, List.append_assoc, List.isPrefixOf_iff_prefix, List.prefix_append_right_inj]
  intro hprefix
  exact absurd (List.cons_prefix_cons.mp hprefix).1 (by decide)

theorem findClass_append {name : String} {objc : Objc}
    (hne : (autoCreateObjcClass host name objc).1 ≠ 0) (start : String) :
    findClass host start (start ++ name) objc = ((some (autoCreateObjcClass host name objc).1),
      (autoCreateObjcClass host name objc).2) := by
  rw [findClass, stripPrefix_append]
  simp only [hne, if_false]

/-- A lookup of a class answers what the cache then has. -/
theorem step_asked {a : Action} {name : String} (ha : AsksFor host a name) {objc : Objc}
    (hne : (autoCreateObjcClass host name objc).1 ≠ 0) :
    (classes host).step objc a = ((autoCreateObjcClass host name objc).2,
      some (.ok (autoCreateObjcClass host name objc).1)) := by
  obtain ⟨hreg, hload, hsymbol⟩ := ha
  simp only [classes, resolve, hreg, hload]
  obtain rfl | rfl := hsymbol
  · rw [findClass_append hne]
  · have hclass : findClass host "_OBJC_CLASS_$_" ("_OBJC_METACLASS_$_" ++ name) objc = (none, objc) := by
      rw [findClass, stripPrefix_class_metaclass]
    simp only [hclass, findClass_append hne]

theorem agrees_of_coherent {objc : Objc} (h : Coherent objc) (a : Action) :
    Agrees host ((classes host).event objc a) := by
  intro name ha
  have hknown := known_autoCreate host h name
  have hstep := step_asked (show AsksFor host a name from ha) hknown.ne_zero
  show ((classes host).step objc a).2 = some (.ok (((classes host).step objc a).1.getClass _))
  rw [hstep, hknown.getClass]

/-- Where the cache is behind the registry. -/
theorem not_agrees_of_stale {objc : Objc} (name : String) {known : Word}
    (hcached : objc.classCache.lookup name = some known) (hne : known ≠ 0)
    (hstale : objc.getClass (cName name) ≠ known) :
    ¬ ∀ a, Agrees host ((classes host).event objc a) := by
  intro h
  have hcreate : autoCreateObjcClass host name objc = (known, objc) := by
    rw [autoCreateObjcClass, hcached]
  have ha : AsksFor host (.resolve (Linker.new ∅) "" ("_OBJC_CLASS_$_" ++ name) false) name :=
    .lookup rfl rfl (.inl rfl)
  have hagrees := h _ name ha
  rw [System.event, step_asked ha (by rw [hcreate]; exact hne), hcreate] at hagrees
  exact hstale (Except.ok.inj (Option.some.inj hagrees)).symm

/-! ### Along a run -/

theorem getClass_register {m : Memory} {cls : Word} {name : String} (hname : className m cls = some name)
    (objc : Objc) (name' : String) :
    (objcRegisterClassPair m cls objc).getClass name' = if name' = name then cls else objc.getClass name' := by
  rw [objcRegisterClassPair, hname]
  exact getClass_insert objc name name' cls

theorem classCache_register (m : Memory) (cls : Word) (objc : Objc) :
    (objcRegisterClassPair m cls objc).classCache = objc.classCache := by
  unfold objcRegisterClassPair
  cases className m cls <;> rfl

theorem step_coherent (objc : Objc) (a : Action) (h : Coherent objc)
    (hkeeps : KeepsClass ((classes host).event objc a)) : Coherent ((classes host).step objc a).1 := by
  cases a with
  | resolve linker dylib symbol isWeak => exact coherent_resolve _ h linker dylib symbol isWeak
  | registerClassPair m cls =>
    intro name known hknown
    have hcached : objc.classCache.lookup name = some known := by
      rw [← hknown, ← classCache_register m cls objc]
      rfl
    obtain ⟨hne, hget⟩ := h name known hcached
    refine ⟨hne, ?_⟩
    show (objcRegisterClassPair m cls objc).getClass (cName name) = known
    cases hclass : className m cls with
    | none =>
      rw [objcRegisterClassPair, hclass]
      exact hget
    | some name' =>
      rw [getClass_register hclass]
      split_ifs with hsame
      · exact hkeeps m cls name known rfl (hsame ▸ hclass) hcached
      · exact hget

/-- **One class for a name.** The address that is looked up is the one the runtime has, after
every part of the run, exactly if every registration keeps the classes that were looked
up. -/
theorem agreed_iff (actions : List Action) :
    Agreed host actions ↔ (classes host).Along KeepsClass new actions := by
  constructor
  · intro h
    induction actions using List.reverseRecOn with
    | nil => exact System.along_nil _ _
    | append_singleton first a ih =>
      have hfirst : Agreed host first := by
        intro before after heq
        refine h before (after ++ [a]) ?_
        rw [heq, List.append_assoc]
      have halong := ih hfirst
      refine System.along_append.mpr ⟨halong, System.along_cons.mpr ⟨?_, System.along_nil _ _⟩⟩
      have hcoherent := halong.run_invariant step_coherent coherent_new
      rintro m cls name known rfl hclass hcached
      by_contra hother
      refine not_agrees_of_stale name ?_ (hcoherent name known hcached).1 ?_
        (h (first ++ [.registerClassPair m cls]) [] (by simp))
      · rw [System.run_append]
        show (objcRegisterClassPair m cls _).classCache.lookup name = some known
        rw [classCache_register]
        exact hcached
      · rw [System.run_append]
        show (objcRegisterClassPair m cls _).getClass (cName name) ≠ known
        rw [getClass_register hclass, if_pos rfl]
        exact hother
  · rintro h before after rfl a
    have hbefore := (System.along_append.mp h).1
    exact agrees_of_coherent (hbefore.run_invariant step_coherent coherent_new) a

/-- A class at 0x1000, its data at 0x2000 and its name at 0x3000. -/
def oneClass : Memory := fun a =>
  if a = 0x1021 then 0x20 else if a = 0x2019 then 0x30
  else if a = 0x3000 then 0x4e else 0

theorem className_oneClass : className oneClass 0x1000 = some "N" := by decide +kernel

/-- The class is looked up, and then registered. -/
def stubFirst : List Action :=
  [.resolve (Linker.new ∅) "" "_OBJC_CLASS_$_N" false, .registerClassPair oneClass 0x1000]

theorem stub_stays : ¬ Agreed importHost stubFirst := by
  intro h
  have hasks : AsksFor importHost (.resolve (Linker.new ∅) "" "_OBJC_CLASS_$_N" false) "N" :=
    .lookup rfl rfl (.inl rfl)
  have hknown := known_autoCreate importHost coherent_new "N"
  have hcls : (autoCreateObjcClass importHost "N" new).1 = 0x600000000000 := rfl
  have hrun : (classes importHost).run new stubFirst =
      objcRegisterClassPair oneClass 0x1000 (autoCreateObjcClass importHost "N" new).2 := by
    rw [stubFirst, System.run, step_asked hasks hknown.ne_zero]
    rfl
  refine not_agrees_of_stale "N" ?_ hknown.ne_zero ?_ (h stubFirst [] rfl)
  · rw [hrun, classCache_register]
    exact hknown.cached
  · have hname : cName "N" = "N" := rfl
    rw [hrun, hname, getClass_register className_oneClass, if_pos rfl, hcls]
    decide

end Grafted.Dyld.ClassCache

import Grafted.Base.Fallible
import Grafted.Loader.MachoFile
import Grafted.Objc.Runtime

/-! Registering the classes of a binary.

The classes of a library are registered by one function and those of the program by
another, which read the same format with different limits. Both register the same names;
they register the same methods exactly when no class is between the limits
(`registered_alike_iff`). What they print is not here. -/
namespace Grafted.Objc
open ByteMemory Fallible Loader Utf8
open MachoFile (longs)

/-! ### The source -/

def read32 (m : Memory) (a : Address) : BitVec 32 :=
  BitVec.ofNat 32 (fromLE ((List.range 4).map fun i => m (a + BitVec.ofNat 64 i)))

/-- An offset from where it is. -/
def relative (m : Memory) (a : Address) : Address := a + (read32 m a).signExtend 64

/-- The `method_list_t` of a class, less the bits of its address that are tags. -/
def methodList (m : Memory) (cls : Word) : Word := m.readWord (classData m cls + 32) &&& ~~~3

def isRelative (m : Memory) (list : Word) : Bool := read32 m list &&& 0x80000000 ≠ 0

def entsize (m : Memory) (list : Word) : BitVec 32 := read32 m list &&& 0xffff

def methodCount (m : Memory) (list : Word) : BitVec 32 := read32 m (list + 4)

/-- Where its name is, and its implementation, of a method of the list. -/
def methodAt (m : Memory) (list : Word) (k : BitVec 32) : Word × Word :=
  let base := list + 8 + (k * entsize m list).setWidth 64
  if isRelative m list then (relative m base, relative m (base + 8))
  else (m.readWord base, m.readWord (base + 16))

section Register
variable (allocator : Allocator) (m : Memory)

def addMethod (cls : Word) (rt : Runtime) (method : Word × Word) : Option Runtime :=
  (selRegisterName allocator m method.1 rt).map fun (sel, rt) => (classAddMethod cls sel method.2 rt).2

def addMethods (cls list : Word) (rt : Runtime) : Option Runtime :=
  ((List.range (methodCount m list).toNat).map fun k => methodAt m list (BitVec.ofNat 32 k)).foldlM
    (addMethod allocator m cls) rt

/-- A turn of the loop of `register_objc_metadata`. -/
def registerMetadata (rt : Runtime) (cls : Word) : Option Runtime :=
  if cls = 0 ∨ classData m cls = 0 then some rt
  else
    let list := methodList m cls
    if list ≠ 0 then
      if 500 < methodCount m list ∨ entsize m list = 0 ∨ 64 < entsize m list then
        some (registerClassPair m cls rt)
      else (addMethods allocator m cls list rt).map (registerClassPair m cls)
    else some (registerClassPair m cls rt)

/-- A turn of the loop of `register_objc_class_names`. -/
def registerClassName (rt : Runtime) (cls : Word) : Option Runtime :=
  if cls = 0 ∨ classData m cls = 0 then some rt
  else if classNameAt m cls = 0 then some rt
  else
    let named := registerClassPair m cls rt
    let list := methodList m cls
    if list ≠ 0 ∧ 0x10000 < list then
      if methodCount m list ≤ 200 ∧ 0 < entsize m list ∧ entsize m list ≤ 64 then
        addMethods allocator m cls list named
      else some named
    else some named

/-- The pointers of the class lists. -/
def classPointers (slide : Word) : Except String Section → List Word
  | .ok sect =>
    if sect.name.getD "" = "__objc_classlist" then
      (List.range (sect.size.toNat / 8)).map fun i =>
        m.readWord (sect.addr + slide + BitVec.ofNat 64 (8 * i))
    else []
  | .error _ => []

def classPtrs (macho : MachO) (slide : Word) : List Word := macho.sections.flatMap (classPointers m slide)

variable (goblin : Goblin)

/-- The error is that of parsing, and none if the process aborts. -/
def registerObjcMetadata (binary : MachOBinary) (rt : Runtime) : Except String (Option Runtime) := do
  let macho ← goblin.parseMachO binary.data
  pure ((classPtrs m macho binary.slide).foldlM (registerMetadata allocator m) rt)

def registerObjcClassNames (binary : MachOBinary) (rt : Runtime) : Except String (Option Runtime) := do
  let macho ← goblin.parseMachO binary.data
  pure ((classPtrs m macho binary.slide).foldlM (registerClassName allocator m) rt)

end Register

/-! ### Names and methods apart -/

def Runtime.mapClasses (f : Registry (List Byte) → Registry (List Byte)) (rt : Runtime) : Runtime :=
  {rt with classRegistry := f rt.classRegistry}

/-- A class pair is one entry of the names. -/
theorem registerClassPair_eq (m : Memory) (cls : Word) :
    ∃ f, ∀ rt, registerClassPair m cls rt = rt.mapClasses f := by
  by_cases h : cls = 0 ∨ classData m cls = 0 ∨ classNameAt m cls = 0
  · refine ⟨id, fun rt => ?_⟩
    rw [registerClassPair, if_pos h]
    rfl
  · refine ⟨fun names => names.insert (lossy (cStrAt m (classNameAt m cls))) cls, fun rt => ?_⟩
    rw [registerClassPair, if_neg h]
    rfl

theorem registerClassPair_methods (m : Memory) (cls : Word) (rt : Runtime) :
    (registerClassPair m cls rt).methodRegistry = rt.methodRegistry := by
  obtain ⟨f, hf⟩ := registerClassPair_eq m cls
  rw [hf]
  rfl

/-- Without a name there is nothing to register. -/
theorem registerClassPair_nameless {m : Memory} {cls : Word} (h : classNameAt m cls = 0)
    (rt : Runtime) : registerClassPair m cls rt = rt := if_pos (.inr (.inr h))

section Apart
variable (allocator : Allocator) (m : Memory) (f : Registry (List Byte) → Registry (List Byte))

theorem internName_mapClasses (name : List Byte) (rt : Runtime) :
    internName allocator name (rt.mapClasses f) =
      (internName allocator name rt).map fun (sel, rt) => (sel, rt.mapClasses f) := by
  have hregistry : (rt.mapClasses f).selectorRegistry = rt.selectorRegistry := rfl
  rw [internName, internName, hregistry]
  cases rt.selectorRegistry.lookup name with
  | some sel => rfl
  | none =>
    rw [Option.map_map]
    rfl

theorem selRegisterName_mapClasses (name : Word) (rt : Runtime) :
    selRegisterName allocator m name (rt.mapClasses f) =
      (selRegisterName allocator m name rt).map fun (sel, rt) => (sel, rt.mapClasses f) := by
  unfold selRegisterName
  split_ifs
  · rfl
  · exact internName_mapClasses allocator f _ rt

omit m in
theorem classAddMethod_mapClasses (cls sel imp : Word) (rt : Runtime) :
    (classAddMethod cls sel imp (rt.mapClasses f)).2 = (classAddMethod cls sel imp rt).2.mapClasses f := by
  have hregistry : (rt.mapClasses f).methodRegistry = rt.methodRegistry := rfl
  by_cases h : (cls, sel) ∈ rt.methodRegistry
  · rw [classAddMethod, classAddMethod, hregistry, if_pos h, if_pos h]
  · rw [classAddMethod, classAddMethod, hregistry, if_neg h, if_neg h]
    rfl

theorem addMethod_mapClasses (cls : Word) (rt : Runtime) (method : Word × Word) :
    addMethod allocator m cls (rt.mapClasses f) method =
      (addMethod allocator m cls rt method).map (Runtime.mapClasses f) := by
  unfold addMethod
  rw [selRegisterName_mapClasses, Option.map_map, Option.map_map]
  congr 1
  funext answer
  obtain ⟨sel, rt⟩ := answer
  exact classAddMethod_mapClasses f cls sel method.2 rt

theorem foldlM_mapClasses (cls : Word) (methods : List (Word × Word)) (rt : Runtime) :
    methods.foldlM (addMethod allocator m cls) (rt.mapClasses f) =
      (methods.foldlM (addMethod allocator m cls) rt).map (Runtime.mapClasses f) := by
  induction methods generalizing rt with
  | nil => rfl
  | cons method rest ih =>
    rw [List.foldlM_cons, List.foldlM_cons, addMethod_mapClasses]
    cases addMethod allocator m cls rt method with
    | none => rfl
    | some rt' => exact ih rt'

/-- The name of a class and its methods may be registered in either order. -/
theorem addMethods_registerClassPair (cls list : Word) (rt : Runtime) :
    addMethods allocator m cls list (registerClassPair m cls rt) =
      (addMethods allocator m cls list rt).map (registerClassPair m cls) := by
  obtain ⟨f, hf⟩ := registerClassPair_eq m cls
  have hfun : registerClassPair m cls = Runtime.mapClasses f := funext hf
  rw [hfun]
  exact foldlM_mapClasses allocator m f cls _ rt

end Apart

/-! ### The limits -/

/-- The class has methods that are registered for a library. -/
def Parsed (m : Memory) (cls : Word) : Prop :=
  cls ≠ 0 ∧ classData m cls ≠ 0 ∧ methodList m cls ≠ 0 ∧
    (0 < entsize m (methodList m cls) ∧ entsize m (methodList m cls) ≤ 64) ∧
    0 < methodCount m (methodList m cls) ∧ methodCount m (methodList m cls) ≤ 500

/-- It has a name, a list that is not near 0, and not too many of them. -/
def WithinLimits (m : Memory) (cls : Word) : Prop :=
  classNameAt m cls ≠ 0 ∧ 0x10000 < methodList m cls ∧ methodCount m (methodList m cls) ≤ 200

theorem addMethods_none {allocator : Allocator} {m : Memory} {list : Word}
    (h : methodCount m list = 0) (cls : Word) (rt : Runtime) :
    addMethods allocator m cls list rt = some rt := by
  rw [addMethods, h]
  rfl

/-- A class within the limits is registered alike. -/
theorem register_alike {allocator : Allocator} {m : Memory} {cls : Word}
    (h : Parsed m cls → WithinLimits m cls) (rt : Runtime) :
    registerMetadata allocator m rt cls = registerClassName allocator m rt cls := by
  unfold registerMetadata registerClassName
  by_cases hdata : cls = 0 ∨ classData m cls = 0
  · rw [if_pos hdata, if_pos hdata]
  rw [if_neg hdata, if_neg hdata]
  obtain ⟨hcls, hdata⟩ := not_or.mp hdata
  by_cases hlist : methodList m cls = 0
  · -- only the name
    simp only [hlist, ne_eq, not_true_eq_false, false_and, if_false]
    split_ifs with hname
    · rw [registerClassPair_nameless hname]
    · rfl
  by_cases hbig : 500 < methodCount m (methodList m cls) ∨ entsize m (methodList m cls) = 0 ∨
      64 < entsize m (methodList m cls)
  · -- only the name, for both limits
    have hbig' : ¬ (methodCount m (methodList m cls) ≤ 200 ∧ 0 < entsize m (methodList m cls) ∧
        entsize m (methodList m cls) ≤ 64) := by
      bv_omega
    simp only [hlist, hbig, hbig', ne_eq, not_false_eq_true, true_and, if_true, if_false, ite_self]
    split_ifs with hname
    · rw [registerClassPair_nameless hname]
    · rfl
  have hsize : 0 < entsize m (methodList m cls) ∧ entsize m (methodList m cls) ≤ 64 ∧
      methodCount m (methodList m cls) ≤ 500 := by
    bv_omega
  simp only [hlist, hbig, ne_eq, not_false_eq_true, true_and, if_true, if_false]
  by_cases hcount : methodCount m (methodList m cls) = 0
  · -- a list without methods
    rw [addMethods_none hcount, addMethods_none hcount, Option.map_some]
    simp only [ite_self]
    split_ifs with hname
    · rw [registerClassPair_nameless hname]
    · rfl
  · have hpos : 0 < methodCount m (methodList m cls) := by
      bv_omega
    obtain ⟨hname, hlow, hmost⟩ := h ⟨hcls, hdata, hlist, ⟨hsize.1, hsize.2.1⟩, hpos, hsize.2.2⟩
    rw [if_neg hname, if_pos hlow, if_pos ⟨hmost, hsize.1, hsize.2.1⟩, addMethods_registerClassPair]

/-! ### What is added -/

section Added
variable {allocator : Allocator} {m : Memory}

/-- The class has a method. -/
def HasMethod (rt : Runtime) (cls : Word) : Prop := ∃ sel, (cls, sel) ∈ rt.methodRegistry

theorem selRegisterName_methods {name : Word} {rt rt' : Runtime} {sel : Word}
    (h : selRegisterName allocator m name rt = some (sel, rt')) :
    rt'.methodRegistry = rt.methodRegistry := by
  by_cases hname : name = 0
  · rw [selRegisterName, if_pos hname] at h
    cases h
    rfl
  · exact (named_of_register hname h).methods

/-- One method of one class. -/
theorem addMethod_mem {cls : Word} {rt rt' : Runtime} {method : Word × Word}
    (h : addMethod allocator m cls rt method = some rt') :
    ∃ sel, ∀ key, key ∈ rt'.methodRegistry ↔ key = (cls, sel) ∨ key ∈ rt.methodRegistry := by
  obtain ⟨answer, hreg, rfl⟩ := Option.map_eq_some_iff.mp h
  obtain ⟨sel, rt₁⟩ := answer
  refine ⟨sel, fun key => ?_⟩
  rw [← selRegisterName_methods hreg]
  show key ∈ (classAddMethod cls sel method.2 rt₁).2.methodRegistry ↔ _
  unfold classAddMethod
  split_ifs with hknown
  · constructor
    · exact .inr
    · rintro (rfl | hkey)
      · exact hknown
      · exact hkey
  · exact AList.mem_insert _

theorem addMethods_kept {cls list : Word} {rt rt' : Runtime}
    (h : addMethods allocator m cls list rt = some rt') {key : Word × Word}
    (hkey : key ∈ rt.methodRegistry) : key ∈ rt'.methodRegistry := by
  refine foldlM_invariant (I := fun s => key ∈ s.methodRegistry) (fun method _ s s' hs hstep => ?_)
    hkey h
  obtain ⟨sel, hmem⟩ := addMethod_mem hstep
  exact (hmem key).mpr (.inr hs)

theorem addMethods_only {cls list : Word} {rt rt' : Runtime}
    (h : addMethods allocator m cls list rt = some rt') {key : Word × Word}
    (hkey : key ∈ rt'.methodRegistry) : key.1 = cls ∨ key ∈ rt.methodRegistry := by
  have hall : ∀ key ∈ rt'.methodRegistry, key.1 = cls ∨ key ∈ rt.methodRegistry := by
    refine foldlM_invariant (I := fun s => ∀ key ∈ s.methodRegistry, key.1 = cls ∨ key ∈ rt.methodRegistry)
      (fun method _ s s' hs hstep key hkey => ?_) (fun key hkey => .inr hkey) h
    obtain ⟨sel, hmem⟩ := addMethod_mem hstep
    obtain rfl | hold := (hmem key).mp hkey
    · exact .inl rfl
    · exact hs key hold
  exact hall key hkey

theorem addMethods_some {cls list : Word} {rt rt' : Runtime} (hcount : 0 < methodCount m list)
    (h : addMethods allocator m cls list rt = some rt') : HasMethod rt' cls := by
  have hfirst : methodAt m list (BitVec.ofNat 32 0) ∈
      (List.range (methodCount m list).toNat).map fun k => methodAt m list (BitVec.ofNat 32 k) := by
    refine List.mem_map.mpr ⟨0, List.mem_range.mpr ?_, rfl⟩
    bv_omega
  refine foldlM_brings (P := fun s => HasMethod s cls) hfirst (fun s s' hstep => ?_) (fun method _ s s' hs hstep => ?_) h
  · obtain ⟨sel, hmem⟩ := addMethod_mem hstep
    exact ⟨sel, (hmem _).mpr (.inl rfl)⟩
  · obtain ⟨sel, hmem⟩ := addMethod_mem hstep
    obtain ⟨known, hknown⟩ := hs
    exact ⟨known, (hmem _).mpr (.inr hknown)⟩

theorem registerMetadata_kept {cls : Word} {rt rt' : Runtime}
    (h : registerMetadata allocator m rt cls = some rt') {key : Word × Word}
    (hkey : key ∈ rt.methodRegistry) : key ∈ rt'.methodRegistry := by
  simp only [registerMetadata] at h
  have hnamed : key ∈ (registerClassPair m cls rt).methodRegistry := by
    rw [registerClassPair_methods]
    exact hkey
  split_ifs at h
  · cases h
    exact hkey
  · cases h
    exact hnamed
  · obtain ⟨rt₁, hadd, rfl⟩ := Option.map_eq_some_iff.mp h
    rw [registerClassPair_methods]
    exact addMethods_kept hadd hkey
  · cases h
    exact hnamed

/-- The methods of such a class of a library are all added. -/
theorem registerMetadata_parsed {cls : Word} (hparsed : Parsed m cls) (rt : Runtime) :
    registerMetadata allocator m rt cls =
      (addMethods allocator m cls (methodList m cls) rt).map (registerClassPair m cls) := by
  obtain ⟨hcls, hdata, hlist, hsize, hcount, hmost⟩ := hparsed
  have hsmall : ¬ (500 < methodCount m (methodList m cls) ∨ entsize m (methodList m cls) = 0 ∨
      64 < entsize m (methodList m cls)) := by
    bv_omega
  unfold registerMetadata
  rw [if_neg (not_or.mpr ⟨hcls, hdata⟩), if_pos hlist, if_neg hsmall]

/-- So it has one in the registry. -/
theorem registerMetadata_some {cls : Word} {rt rt' : Runtime} (hparsed : Parsed m cls)
    (h : registerMetadata allocator m rt cls = some rt') : HasMethod rt' cls := by
  rw [registerMetadata_parsed hparsed] at h
  obtain ⟨rt₁, hadd, rfl⟩ := Option.map_eq_some_iff.mp h
  obtain ⟨-, -, -, -, hcount, -⟩ := hparsed
  obtain ⟨sel, hsel⟩ := addMethods_some hcount hadd
  exact ⟨sel, by rwa [registerClassPair_methods]⟩

/-- Methods of one name that is a selector already need no box. -/
theorem addMethod_named (allocator : Allocator) (cls : Word) {name sel : Word} (hname : name ≠ 0)
    {methods : List (Word × Word)} (hall : ∀ method ∈ methods, method.1 = name) {rt : Runtime}
    (hsel : rt.selectorRegistry.lookup (lossy (rt.cStr m name)) = some sel) :
    ∃ rt', methods.foldlM (addMethod allocator m cls) rt = some rt' := by
  induction methods generalizing rt with
  | nil => exact ⟨rt, rfl⟩
  | cons method rest ih =>
    have hadd : addMethod allocator m cls rt method = some (classAddMethod cls sel method.2 rt).2 := by
      rw [addMethod, hall method List.mem_cons_self, selRegisterName, if_neg hname, internName, hsel]
      rfl
    have hkeep : ∀ rt' : Runtime, rt' = (classAddMethod cls sel method.2 rt).2 →
        rt'.selectorRegistry = rt.selectorRegistry ∧ rt'.boxes = rt.boxes := by
      rintro rt' rfl
      unfold classAddMethod
      split_ifs
      · exact ⟨rfl, rfl⟩
      · exact ⟨rfl, rfl⟩
    obtain ⟨hregistry, hboxes⟩ := hkeep _ rfl
    have hcStr : (classAddMethod cls sel method.2 rt).2.cStr m name = rt.cStr m name := by
      rw [Runtime.cStr, Runtime.cStr, hboxes]
    have hnext : (classAddMethod cls sel method.2 rt).2.selectorRegistry.lookup
        (lossy ((classAddMethod cls sel method.2 rt).2.cStr m name)) = some sel := by
      rw [hregistry, hcStr, hsel]
    obtain ⟨rt', hrest⟩ := ih (fun x hx => hall x (List.mem_cons_of_mem method hx)) hnext
    exact ⟨rt', by rw [List.foldlM_cons, hadd]; exact hrest⟩

/-- Of the program only the classes within the limits get methods. -/
theorem registerClassName_only {cls : Word} {rt rt' : Runtime}
    (h : registerClassName allocator m rt cls = some rt') {key : Word × Word}
    (hkey : key ∈ rt'.methodRegistry) :
    key.1 = cls ∧ WithinLimits m cls ∨ key ∈ rt.methodRegistry := by
  have hnamed := registerClassPair_methods m cls rt
  simp only [registerClassName] at h
  split_ifs at h with hdata hname hlist hlimits
  · cases h
    exact .inr hkey
  · cases h
    exact .inr hkey
  · obtain hcls | hold := addMethods_only h hkey
    · exact .inl ⟨hcls, hname, hlist.2, hlimits.1⟩
    · exact .inr (hnamed ▸ hold)
  · cases h
    exact .inr (hnamed ▸ hkey)
  · cases h
    exact .inr (hnamed ▸ hkey)

end Added

/-! ### The two functions -/

/-- One class for each name, and one implementation for each method. -/
def SameRegistered (rt rt' : Runtime) : Prop :=
  (∀ name, rt.classRegistry.lookup name = rt'.classRegistry.lookup name) ∧
    ∀ key, rt.methodRegistry.lookup key = rt'.methodRegistry.lookup key

section Both
variable {allocator : Allocator} {m : Memory} {goblin : Goblin} {binary : MachOBinary} {macho : MachO}

/-- The classes of the binary that have methods are within the limits. -/
def ClassesWithinLimits (m : Memory) (macho : MachO) (slide : Word) : Prop :=
  ∀ cls ∈ classPtrs m macho slide, Parsed m cls → WithinLimits m cls

/-- From any registries, classes within the limits are registered alike. -/
theorem registerObjc_alike (hparse : goblin.parseMachO binary.data = .ok macho)
    (h : ClassesWithinLimits m macho binary.slide) (rt : Runtime) :
    registerObjcMetadata allocator m goblin binary rt =
      registerObjcClassNames allocator m goblin binary rt := by
  rw [registerObjcMetadata, registerObjcClassNames, hparse]
  exact congrArg Except.ok (foldlM_congr (fun cls hcls rt => register_alike (h cls hcls) rt) rt)

/-- What a new process registers of a binary is the same for a library and for the program
just if every class with methods has a name, a list above 0x10000 and at most 200 of them. -/
theorem registered_alike_iff (hparse : goblin.parseMachO binary.data = .ok macho) {rt rt' : Runtime}
    (h : registerObjcMetadata allocator m goblin binary .new = .ok (some rt))
    (h' : registerObjcClassNames allocator m goblin binary .new = .ok (some rt')) :
    SameRegistered rt rt' ↔ ClassesWithinLimits m macho binary.slide := by
  constructor
  · intro hsame cls hcls hparsed
    rw [registerObjcMetadata, hparse] at h
    rw [registerObjcClassNames, hparse] at h'
    have hadded : HasMethod rt cls := by
      refine foldlM_brings (P := fun rt => HasMethod rt cls) hcls
        (fun _ _ hstep => registerMetadata_some hparsed hstep) (fun _ _ _ _ hs hstep => ?_)
        (Except.ok.inj h)
      obtain ⟨sel, hsel⟩ := hs
      exact ⟨sel, registerMetadata_kept hstep hsel⟩
    have honly : ∀ key ∈ rt'.methodRegistry, WithinLimits m key.1 := by
      refine foldlM_invariant (I := fun rt => ∀ key ∈ rt.methodRegistry, WithinLimits m key.1)
        (fun cls _ rt rt' hs hstep key hkey => ?_) (fun key hkey => ?_) (Except.ok.inj h')
      · obtain ⟨heq, hlimits⟩ | hold := registerClassName_only hstep hkey
        · rwa [heq]
        · exact hs key hold
      · exact absurd hkey (AList.notMem_empty key)
    obtain ⟨sel, hsel⟩ := hadded
    refine honly (cls, sel) (AList.lookup_isSome.mp ?_)
    rw [← hsame.2]
    exact AList.lookup_isSome.mpr hsel
  · intro hwithin
    have halike : registerObjcMetadata allocator m goblin binary .new =
        registerObjcClassNames allocator m goblin binary .new := registerObjc_alike hparse hwithin .new
    rw [h, h'] at halike
    cases halike
    exact ⟨fun _ => rfl, fun _ => rfl⟩

end Both

/-- The class `Box` at 0x100002000, with its data at 0x100003000 and its methods at 0x100004000. -/
def classRecord (count : Nat) : Memory :=
  let names := Memory.writeBytes (fun _ => 0) 0x100003100
    [0x42, 0x6f, 0x78, 0, 0x72, 0x75, 0x6e, 0, 0x76, 0x31, 0x36, 0x40, 0x30, 0x3a, 0x38, 0]
  names.writeWords [(0x100001000, 0x100002000), (0x100002020, 0x100003000), (0x100003018, 0x100003100),
    (0x100003020, 0x100004000), (0x100004000, 24 + (BitVec.ofNat 64 count <<< 32))]

/-- With `count` entries of three words: the name `run`, its types and its implementation. -/
def classImage (count : Nat) : Memory := fun x =>
  if (x - 0x100004008).toNat < 24 * count then
    (((longs [0x100003104, 0x100003108, 0x100000f00])[(x - 0x100004008).toNat % 24]?).getD 0)
  else classRecord count x

def classListSegments : List Segment :=
  [⟨"__TEXT", 0x100000000, 0x1000, 0, 289, 5, 5⟩, ⟨"__DATA", 0x100001000, 0x8000, 280, 8, 3, 3⟩]

/-- A program with one class list, of one class. -/
def classListData : List Byte :=
  MachoFile.file 2 [MachoFile.segment64 "__TEXT" 0x100000000 0x1000 0 289 5 [],
    MachoFile.segment64 "__DATA" 0x100001000 0x8000 280 8 3
      [MachoFile.sectionHeader "__DATA" "__objc_classlist" 0x100001000 8 280 0x10000000 0],
    MachoFile.main 288] (MachoFile.longs [0x100002000] ++ [0xc3])

def classListMachO : MachO where
  filetype := 2
  cputype := CPU_TYPE_X86_64
  name := none
  libs := ["self"]
  rpaths := []
  loadCommands := [.segment64 (some "__TEXT") 0x100000000 0x1000 0 289 5 5,
    .segment64 (some "__DATA") 0x100001000 0x8000 280 8 3 3, .main 288]
  exports := .ok []
  symbols := []
  imports := .ok []
  sections := [.ok ⟨some "__objc_classlist", 0x100001000, 8⟩]

def classListFile : Goblin := ⟨fun _ => .ok classListMachO, fun _ => .error "not fat"⟩

def classListBinary : MachOBinary where
  path := "/bin/program"
  fileType := 2
  cpuType := CPU_TYPE_X86_64
  entryPoint := 288
  entryIsOffset := true
  segments := classListSegments
  dylibDeps := []
  rpaths := []
  chainedFixups := none
  exportsTrie := none
  data := classListData
  slide := 0

/-- The keys of the methods that were registered. -/
def methodsOf (answer : Except String (Option Runtime)) : Option (List (Word × Word)) :=
  match answer with
  | .ok rt => rt.map fun rt => rt.methodRegistry.keys
  | .error _ => none

theorem answer_of_methods {answer : Except String (Option Runtime)} {keys : List (Word × Word)}
    (h : methodsOf answer = some keys) : ∃ rt, answer = .ok (some rt) ∧ rt.methodRegistry.keys = keys := by
  cases answer with
  | error e => cases h
  | ok answer =>
    obtain ⟨rt, rfl, hkeys⟩ := Option.map_eq_some_iff.mp h
    exact ⟨rt, rfl, hkeys⟩

theorem registered_alike_one : ∃ rt rt',
    registerObjcMetadata oneBox (classImage 1) classListFile classListBinary .new = .ok (some rt) ∧
      registerObjcClassNames oneBox (classImage 1) classListFile classListBinary .new =
        .ok (some rt') ∧ SameRegistered rt rt' := by
  obtain ⟨rt, h, -⟩ := answer_of_methods (show methodsOf
    (registerObjcMetadata oneBox (classImage 1) classListFile classListBinary .new) =
      some [(0x100002000, 0x5000)] by decide +kernel)
  obtain ⟨rt', h', -⟩ := answer_of_methods (show methodsOf
    (registerObjcClassNames oneBox (classImage 1) classListFile classListBinary .new) =
      some [(0x100002000, 0x5000)] by decide +kernel)
  refine ⟨rt, rt', h, h', (registered_alike_iff rfl h h').mpr fun cls hcls _ => ?_⟩
  obtain rfl : cls = 0x100002000 := by
    have hall : classPtrs (classImage 1) classListMachO 0 = [0x100002000] := by decide +kernel
    exact List.mem_singleton.mp (hall ▸ hcls)
  unfold WithinLimits
  decide +kernel

/-- What is read of the class with 201 methods. -/
theorem classImage_many :
    classPtrs (classImage 201) classListMachO 0 = [0x100002000] ∧
      classData (classImage 201) 0x100002000 = 0x100003000 ∧
      methodList (classImage 201) 0x100002000 = 0x100004000 ∧
      methodCount (classImage 201) 0x100004000 = 201 ∧ entsize (classImage 201) 0x100004000 = 24 ∧
      ∀ k < 201, (methodAt (classImage 201) 0x100004000 (BitVec.ofNat 32 k)).1 = 0x100003104 := by
  decide +kernel

/-- A library gets all of them: only the first needs a box. -/
theorem registers_many : ∃ rt, registerObjcMetadata oneBox (classImage 201) classListFile
    classListBinary .new = .ok (some rt) ∧ HasMethod rt 0x100002000 := by
  obtain ⟨hptrs, hdata, hlist, hcount, hsize, hnames⟩ := classImage_many
  have hparsed : Parsed (classImage 201) 0x100002000 := by
    rw [Parsed, hdata, hlist, hcount, hsize]
    decide
  obtain ⟨first, hfirst, hsel⟩ := Option.map_eq_some_iff.mp (show
    (addMethod oneBox (classImage 201) 0x100002000 .new
      (methodAt (classImage 201) 0x100004000 (BitVec.ofNat 32 0))).map
        (fun rt => rt.selectorRegistry.lookup (lossy (rt.cStr (classImage 201) 0x100003104))) =
          some (some 0x5000) by decide +kernel)
  have hothers : ∀ method ∈ (List.range 200).map
      ((fun k => methodAt (classImage 201) 0x100004000 (BitVec.ofNat 32 k)) ∘ Nat.succ),
      method.1 = 0x100003104 := by
    intro method hmethod
    obtain ⟨k, hk, rfl⟩ := List.mem_map.mp hmethod
    exact hnames (k + 1) (Nat.succ_lt_succ (List.mem_range.mp hk))
  obtain ⟨added, hrest⟩ := addMethod_named oneBox 0x100002000 (by decide)
    hothers hsel
  have hadded : addMethods oneBox (classImage 201) 0x100002000 0x100004000 .new = some added := by
    rw [addMethods, hcount, show (201 : BitVec 32).toNat = 200 + 1 from rfl, List.range_succ_eq_map,
      List.map_cons, List.map_map, List.foldlM_cons]
    rw [hfirst]
    exact hrest
  have hrun : registerMetadata oneBox (classImage 201) .new 0x100002000 =
      some (registerClassPair (classImage 201) 0x100002000 added) := by
    rw [registerMetadata_parsed hparsed, hlist, hadded]
    rfl
  refine ⟨_, ?_, registerMetadata_some hparsed hrun⟩
  have hfold : registerObjcMetadata oneBox (classImage 201) classListFile classListBinary .new =
      .ok ((classPtrs (classImage 201) classListMachO 0).foldlM
        (registerMetadata oneBox (classImage 201)) .new) := rfl
  rw [hfold, hptrs, List.foldlM_cons, hrun]
  rfl

/-- A class with 201 methods has some in a library and none in the program. -/
theorem methods_left_out : ∃ rt rt',
    registerObjcMetadata oneBox (classImage 201) classListFile classListBinary .new = .ok (some rt) ∧
      registerObjcClassNames oneBox (classImage 201) classListFile classListBinary .new =
        .ok (some rt') ∧ ¬ SameRegistered rt rt' := by
  obtain ⟨rt, h, sel, hsel⟩ := registers_many
  obtain ⟨rt', h', hkeys'⟩ := answer_of_methods (show methodsOf
    (registerObjcClassNames oneBox (classImage 201) classListFile classListBinary .new) = some []
      by decide +kernel)
  refine ⟨rt, rt', h, h', fun hsame => ?_⟩
  have hnot : (0x100002000, sel) ∉ rt'.methodRegistry := fun hmem =>
    absurd (AList.mem_keys.mp hmem) (by simp [hkeys'])
  have hsome := AList.lookup_isSome.mpr hsel
  rw [hsame.2, AList.lookup_eq_none.mpr hnot] at hsome
  cases hsome

end Grafted.Objc

import Grafted.Base.Blocks
import Grafted.Objc.Lookup

/-! Classes that a framework makes from a table.

`methodNamed` is what the registries come to: a method for a class and a name. A row of a table
gives its class a method under its name, unless the class has one (`methodNamed_add`), and
nothing that is called later takes one away (`methodNamed_run`). So what is found for a receiver
is the row of its class, and where there is none a built-in method: neither a superclass nor
another class is asked (`lookup_receiver`). -/
namespace Grafted.Objc
open ByteMemory Transition Utf8
open Loader.ProcessStack (asBytes NulFree)

/-! ### The source -/

structure ClassTable (Imp : Type) where
  name : String
  instanceSize : BitVec 32
  methods : List (String × Imp)

/-- With the functions where they are. -/
def ClassTable.linked {Imp : Type} (t : ClassTable Imp) (address : Imp → Word) : ClassTable Word :=
  ⟨t.name, t.instanceSize, t.methods.map fun row => (row.1, address row.2)⟩

/-- A class, and where its `class_t`, its `class_ro_t` and the copy of its name are. -/
structure MadeClass where
  table : ClassTable Word
  cls : Word
  ro : Word
  nameAt : Word

/-- The name of the selector is a literal, whose string is its bytes. -/
def reg (allocator : Allocator) (cls : Word) (row : String × Word) (rt : Runtime) :
    Option Runtime :=
  (internName allocator (asBytes row.1) rt).map fun answer =>
    (classAddMethod cls answer.1 row.2 answer.2).2

def regs (allocator : Allocator) (cls : Word) : List (String × Word) → Runtime → Option Runtime
  | [], rt => some rt
  | row :: rest, rt => (reg allocator cls row rt).bind (regs allocator cls rest)

/-- The memory of `alloc_class`. -/
def allocClass (c : MadeClass) (m : Memory) : Memory :=
  let name := asBytes c.table.name
  let m := (m.calloc c.cls 256).calloc c.ro 256
  let m := (m.writeBytes c.nameAt name).writeByte (c.nameAt + BitVec.ofNat 64 name.length) 0
  let m := (m.writeWord (c.ro + 24) c.nameAt).writeU32 (c.ro + 8) c.table.instanceSize
  m.writeWord (c.cls + 32) c.ro

def registerClass (allocator : Allocator) (c : MadeClass) (s : Memory × Runtime) :
    Option (Memory × Runtime) :=
  let m := allocClass c s.1
  (regs allocator c.cls c.table.methods (registerClassPair m c.cls s.2)).map fun rt => (m, rt)

/-- None when a selector could not be allocated. -/
def registerAll (allocator : Allocator) :
    List MadeClass → Memory × Runtime → Option (Memory × Runtime)
  | [], s => some s
  | c :: rest, s => (registerClass allocator c s).bind (registerAll allocator rest)

/-- `objc_getClass`; 0 is no class. -/
def getClass (m : Memory) (name : Word) (rt : Runtime) : Word :=
  if name = 0 then 0 else (rt.classRegistry.lookup (lossy (rt.cStr m name))).getD 0

/-! ### Methods by name -/

/-- The method of a class under a name. -/
def methodNamed (rt : Runtime) (cls : Word) (name : List Byte) : Option Word :=
  (rt.selectorRegistry.lookup name).bind fun sel => rt.methodRegistry.lookup (cls, sel)

structure Sound (rt : Runtime) : Prop where
  interned : Interned rt
  own : OwnSelectors rt

/-- A string that is kept as it is. -/
structure Literal (s : String) : Prop where
  nulFree : NulFree s
  utf8 : valid (asBytes s)

instance (s : String) : Decidable (Literal s) :=
  decidable_of_iff (NulFree s ∧ valid (asBytes s))
    ⟨fun h => ⟨h.1, h.2⟩, fun h => ⟨h.nulFree, h.utf8⟩⟩

section Methods
variable {rt rt' : Runtime} {name : List Byte} {sel : Word}

theorem methodNamed_named (hrt : Sound rt) (hrt' : Interned rt') (h : Named name rt sel rt')
    (cls : Word) (other : List Byte) : methodNamed rt' cls other = methodNamed rt cls other := by
  unfold methodNamed
  rw [h.methods]
  cases hother : rt.selectorRegistry.lookup other with
  | some s => rw [h.kept hother]
  | none =>
    cases hother' : rt'.selectorRegistry.lookup other with
    | none => rfl
    | some s =>
      -- a method under it would be under a selector that was there, and so under another name
      refine AList.lookup_eq_none.mpr fun hmem => ?_
      obtain ⟨text, htext⟩ := hrt.interned.canonical (hrt.own cls s hmem)
      obtain rfl := hrt'.injective (h.kept htext) hother'
      cases hother.symm.trans htext

theorem Sound.named (hrt : Sound rt) (hrt' : Interned rt') (h : Named name rt sel rt') :
    Sound rt' := by
  refine ⟨hrt', fun cls s hmem => ?_⟩
  rw [h.methods] at hmem
  exact h.boxes hrt.interned hrt' (hrt.own cls s hmem)

theorem Sound.add (hrt : Sound rt) (cls imp : Word) (hsel : sel ∈ rt.boxes) :
    Sound (classAddMethod cls sel imp rt).2 := by
  obtain ⟨hselectors, hboxes⟩ := classAddMethod_selectors cls sel imp rt
  refine ⟨⟨fun {other s} hother => ?_, fun {s} hs => ?_⟩, fun cls' s hmem => ?_⟩
  · rw [hselectors] at hother
    rw [hboxes]
    exact hrt.interned.boxed hother
  · rw [hboxes] at hs
    rw [hselectors]
    exact hrt.interned.canonical hs
  · rw [hboxes]
    unfold classAddMethod at hmem
    split_ifs at hmem
    · exact hrt.own cls' s hmem
    · obtain heq | hold := (AList.mem_insert _).mp hmem
      · cases heq
        exact hsel
      · exact hrt.own cls' s hold

theorem lookup_classAddMethod (cls imp : Word) (key : Word × Word) :
    (classAddMethod cls sel imp rt).2.methodRegistry.lookup key =
      if key = (cls, sel) then some ((rt.methodRegistry.lookup (cls, sel)).getD imp)
      else rt.methodRegistry.lookup key := by
  unfold classAddMethod
  by_cases hmem : (cls, sel) ∈ rt.methodRegistry
  · rw [if_pos hmem]
    obtain ⟨held, hheld⟩ := Option.isSome_iff_exists.mp (AList.lookup_isSome.mpr hmem)
    split_ifs with hkey
    · rw [hkey, hheld]
      rfl
    · rfl
  · rw [if_neg hmem, AList.lookup_eq_none.mpr hmem]
    split_ifs with hkey
    · rw [hkey]
      exact AList.lookup_insert _
    · exact AList.lookup_insert_ne hkey

/-- The first method of a class under a name stays. -/
theorem methodNamed_add (hrt : Interned rt) (hsel : rt.selectorRegistry.lookup name = some sel)
    (cls imp cls' : Word) (other : List Byte) :
    methodNamed (classAddMethod cls sel imp rt).2 cls' other =
      if cls' = cls ∧ other = name then some ((methodNamed rt cls name).getD imp)
      else methodNamed rt cls' other := by
  unfold methodNamed
  rw [(classAddMethod_selectors cls sel imp rt).1]
  by_cases hother : other = name
  · subst hother
    rw [hsel, Option.bind_some, Option.bind_some, lookup_classAddMethod]
    simp
  · rw [if_neg fun h => hother h.2]
    cases hs : rt.selectorRegistry.lookup other with
    | none => rfl
    | some s =>
      have hne : (cls', s) ≠ (cls, sel) := by
        intro heq
        rw [(Prod.mk.inj heq).2] at hs
        exact hother (hrt.injective hs hsel)
      rw [Option.bind_some, Option.bind_some, lookup_classAddMethod, if_neg hne]

end Methods

/-! ### Registering -/

section Register
variable {allocator : Allocator} {rt rt' : Runtime}

/-- The first row of a name. -/
def rowFor (rows : List (String × Word)) (name : List Byte) : Option Word :=
  (rows.find? fun row => asBytes row.1 = name).map Prod.snd

theorem rowFor_cons (row : String × Word) (rest : List (String × Word)) (name : List Byte) :
    rowFor (row :: rest) name = if asBytes row.1 = name then some row.2 else rowFor rest name := by
  unfold rowFor
  split_ifs with hname <;> simp [hname]

/-- What making a class of the rows does to the methods. -/
structure Adds (cls : Word) (rows : List (String × Word)) (rt rt' : Runtime) : Prop where
  sound : Sound rt'
  classes : rt'.classRegistry = rt.classRegistry
  methods : ∀ name, methodNamed rt' cls name = (methodNamed rt cls name).or (rowFor rows name)
  others : ∀ other, other ≠ cls → ∀ name, methodNamed rt' other name = methodNamed rt other name

theorem adds_reg (hrt : Sound rt) {cls : Word} {row : String × Word} (hrow : Literal row.1)
    (h : reg allocator cls row rt = some rt') : Adds cls [row] rt rt' := by
  obtain ⟨⟨sel, middle⟩, hintern, heq⟩ := Option.map_eq_some_iff.mp h
  subst heq
  have hnamed := named_of_intern hintern
  have hinterned := interned_intern hrt.interned hrow.nulFree hrow.utf8 hintern
  have hmiddle := hrt.named hinterned hnamed
  have hbox : sel ∈ middle.boxes := by
    refine AList.lookup_isSome.mp ?_
    rw [(hinterned.boxed hnamed.named).1]
    rfl
  have hadd := methodNamed_add hinterned hnamed.named cls row.2
  have hsame := methodNamed_named hrt hinterned hnamed
  refine ⟨hmiddle.add cls row.2 hbox, ?_, fun name => ?_, fun other hother name => ?_⟩
  · rw [← hnamed.classes]
    unfold classAddMethod
    split_ifs <;> rfl
  · dsimp only
    rw [hadd, hsame, hsame, rowFor_cons]
    by_cases hname : asBytes row.1 = name
    · rw [if_pos hname, if_pos ⟨rfl, hname.symm⟩, hname]
      cases methodNamed rt cls name <;> rfl
    · rw [if_neg hname, if_neg fun h => hname h.2.symm]
      exact Option.or_none.symm
  · dsimp only
    rw [hadd, if_neg fun h => hother h.1]
    exact hsame other name

theorem adds_regs (hrt : Sound rt) {cls : Word} {rows : List (String × Word)}
    (hrows : ∀ row ∈ rows, Literal row.1) (h : regs allocator cls rows rt = some rt') :
    Adds cls rows rt rt' := by
  induction rows generalizing rt with
  | nil =>
    cases h
    exact ⟨hrt, rfl, fun name => Option.or_none.symm, fun _ _ _ => rfl⟩
  | cons row rest ih =>
    obtain ⟨hrow, hrest⟩ := List.forall_mem_cons.mp hrows
    obtain ⟨middle, hreg, hregs⟩ := Option.bind_eq_some_iff.mp h
    have hfirst := adds_reg hrt hrow hreg
    have hlater := ih hfirst.sound hrest hregs
    refine ⟨hlater.sound, hlater.classes.trans hfirst.classes, fun name => ?_,
      fun other hother name => ?_⟩
    · rw [hlater.methods, hfirst.methods, Option.or_assoc, rowFor_cons, rowFor_cons]
      congr 1
      split_ifs <;> rfl
    · exact (hlater.others other hother name).trans (hfirst.others other hother name)

end Register

/-! ### The memory of a class -/

/-- Where user space has its addresses. -/
def InUserSpace (cls : Word) : Prop := 0x1000 < cls ∧ cls < 0x800000000000

instance (cls : Word) : Decidable (InUserSpace cls) := inferInstanceAs (Decidable (_ ∧ _))

theorem InUserSpace.ne_zero {cls : Word} (h : InUserSpace cls) : cls ≠ 0 := by
  intro heq
  rw [heq] at h
  exact absurd h.1 (by decide)

/-- What was allocated is apart, and an allocation is aligned. -/
structure MadeClass.Placed (c : MadeClass) : Prop where
  clsFits : Block.Fits ⟨c.cls, 256⟩
  roFits : Block.Fits ⟨c.ro, 256⟩
  nameFits : Block.Fits ⟨c.nameAt, (asBytes c.table.name).length + 1⟩
  clsRo : Block.Off ⟨c.cls, 256⟩ ⟨c.ro, 256⟩
  clsName : Block.Off ⟨c.cls, 256⟩ ⟨c.nameAt, (asBytes c.table.name).length + 1⟩
  roName : Block.Off ⟨c.ro, 256⟩ ⟨c.nameAt, (asBytes c.table.name).length + 1⟩
  user : InUserSpace c.cls
  ro_ne : c.ro ≠ 0
  name_ne : c.nameAt ≠ 0
  aligned : c.ro &&& ~~~7 = c.ro

section Memory
variable {c : MadeClass}

theorem MadeClass.placed_iff : c.Placed ↔
    (Block.Fits ⟨c.cls, 256⟩ ∧ Block.Fits ⟨c.ro, 256⟩ ∧
      Block.Fits ⟨c.nameAt, (asBytes c.table.name).length + 1⟩) ∧
    (Block.Off ⟨c.cls, 256⟩ ⟨c.ro, 256⟩ ∧
      Block.Off ⟨c.cls, 256⟩ ⟨c.nameAt, (asBytes c.table.name).length + 1⟩ ∧
      Block.Off ⟨c.ro, 256⟩ ⟨c.nameAt, (asBytes c.table.name).length + 1⟩) ∧
    InUserSpace c.cls ∧ c.ro ≠ 0 ∧ c.nameAt ≠ 0 ∧ c.ro &&& ~~~7 = c.ro := by
  constructor
  · intro h
    exact ⟨⟨h.clsFits, h.roFits, h.nameFits⟩, ⟨h.clsRo, h.clsName, h.roName⟩, h.user, h.ro_ne,
      h.name_ne, h.aligned⟩
  · intro ⟨⟨hcls, hro, hname⟩, ⟨hclsRo, hclsName, hroName⟩, huser, hroNe, hnameNe, haligned⟩
    exact ⟨hcls, hro, hname, hclsRo, hclsName, hroName, huser, hroNe, hnameNe, haligned⟩

instance (c : MadeClass) : Decidable c.Placed := decidable_of_iff' _ MadeClass.placed_iff

theorem toNat_add_lt {a : Word} {size n : Nat} (h : Block.Fits ⟨a, size⟩) (hn : n < size) :
    (a + BitVec.ofNat 64 n).toNat = a.toNat + n := by
  refine toNat_add_ofNat ?_
  have hfits : a.toNat + size < 2 ^ 64 := h
  omega

/-- The registry reads the name that was copied. -/
theorem classAt_allocClass (h : c.Placed) (hname : Literal c.table.name) (m : Memory) :
    classData (allocClass c m) c.cls = c.ro ∧ classNameAt (allocClass c m) c.cls = c.nameAt ∧
      cStrAt (allocClass c m) c.nameAt = asBytes c.table.name := by
  have hcls : (c.cls + 32).toNat = c.cls.toNat + 32 := toNat_add_lt h.clsFits (by decide)
  have hroName : (c.ro + 24).toNat = c.ro.toNat + 24 := toNat_add_lt h.roFits (by decide)
  have hroSize : (c.ro + 8).toNat = c.ro.toNat + 8 := toNat_add_lt h.roFits (by decide)
  have hclsFits : c.cls.toNat + 256 < 2 ^ 64 := h.clsFits
  have hroFits : c.ro.toNat + 256 < 2 ^ 64 := h.roFits
  have hnameFits : c.nameAt.toNat + ((asBytes c.table.name).length + 1) < 2 ^ 64 := h.nameFits
  have hinCls {b : Block} (hoff : Block.Off ⟨c.cls, 256⟩ b) : Block.Off ⟨c.cls + 32, 8⟩ b :=
    hoff.part (by dsimp only; omega) (by dsimp only; omega)
  have hroOff := h.roName.part (a := c.ro + 24) (n := 8) (by dsimp only; omega)
    (by dsimp only; omega)
  have hsizeOff := h.roName.part (a := c.ro + 8) (n := 4) (by dsimp only; omega)
    (by dsimp only; omega)
  have hstring := Memory.cString_written ((m.calloc c.cls 256).calloc c.ro 256) hname.nulFree
    (a := c.nameAt) (by omega)
  unfold allocClass
  dsimp only
  generalize ((((m.calloc c.cls 256).calloc c.ro 256).writeBytes c.nameAt
    (asBytes c.table.name)).writeByte
      (c.nameAt + BitVec.ofNat 64 (asBytes c.table.name).length) 0) = m at *
  have hdata : classData (((m.writeWord (c.ro + 24) c.nameAt).writeU32 (c.ro + 8)
      c.table.instanceSize).writeWord (c.cls + 32) c.ro) c.cls = c.ro := by
    rw [classData, Memory.readWord_writeWord, h.aligned]
  refine ⟨hdata, ?_, ?_⟩
  · have hro := Memory.keeps_writeWord (m := (m.writeWord (c.ro + 24) c.nameAt).writeU32 (c.ro + 8)
      c.table.instanceSize) (v := c.ro) (by omega) (hinCls h.clsRo)
    have hsize := Memory.keeps_writeU32 (m := m.writeWord (c.ro + 24) c.nameAt)
      (v := c.table.instanceSize) (a := c.ro + 8) (b := ⟨c.ro + 24, 8⟩) (by omega)
      (.inl (by dsimp only; omega))
    have hfits : Block.Fits ⟨c.ro + 24, 8⟩ := by
      unfold Block.Fits
      dsimp only
      omega
    rw [classNameAt, hdata, hro.readWord h.roFits (by dsimp only; omega) (by dsimp only; omega),
      hsize.readWord hfits (Nat.le_refl _) (Nat.le_refl _), Memory.readWord_writeWord]
  · have hkept := ((Memory.keeps_writeWord (m := m) (v := c.nameAt) (by omega) hroOff).trans
      (Memory.keeps_writeU32 (v := c.table.instanceSize) (by omega) hsizeOff)).trans
        (Memory.keeps_writeWord (v := c.ro) (by omega) (hinCls h.clsName))
    have hread := hkept.cString h.nameFits hstring (Nat.le_refl _) (by dsimp only; omega)
    have hlength : (asBytes c.table.name).length < 2 ^ 64 := by omega
    rw [cStrAt, Memory.readCString_eq hread hlength]
    rfl

end Memory

/-! ### All classes -/

section All
variable {allocator : Allocator} {s s' : Memory × Runtime} {made : List MadeClass}

/-- Its name and those of its rows are strings that are kept. -/
structure MadeClass.Named (c : MadeClass) : Prop where
  name : Literal c.table.name
  rows : ∀ row ∈ c.table.methods, Literal row.1

theorem registerClassPair_allocClass {c : MadeClass} (h : c.Placed)
    (hliteral : Literal c.table.name) (m : Memory) (rt : Runtime) : registerClassPair (allocClass c m) c.cls rt =
      {rt with classRegistry := rt.classRegistry.insert (asBytes c.table.name) c.cls } := by
  obtain ⟨hdata, hname, hstring⟩ := classAt_allocClass h hliteral m
  unfold registerClassPair
  rw [hdata, hname, hstring, lossy_of_valid hliteral.utf8,
    if_neg fun hnull => hnull.elim h.user.ne_zero fun hnull => hnull.elim h.ro_ne h.name_ne]

/-- What making a class does to the registries. -/
structure AddsClass (c : MadeClass) (rt rt' : Runtime) : Prop where
  sound : Sound rt'
  classes : rt'.classRegistry = rt.classRegistry.insert (asBytes c.table.name) c.cls
  methods : ∀ name, methodNamed rt' c.cls name =
    (methodNamed rt c.cls name).or (rowFor c.table.methods name)
  others : ∀ other, other ≠ c.cls → ∀ name, methodNamed rt' other name = methodNamed rt other name

theorem addsClass_registerClass (hrt : Sound s.2) {c : MadeClass} (hplaced : c.Placed)
    (hnamed : c.Named) (h : registerClass allocator c s = some s') : AddsClass c s.2 s'.2 := by
  obtain ⟨rt', hregs, heq⟩ := Option.map_eq_some_iff.mp h
  subst heq
  rw [registerClassPair_allocClass hplaced hnamed.name] at hregs
  have hsound : Sound {s.2 with
      classRegistry := s.2.classRegistry.insert (asBytes c.table.name) c.cls } :=
    ⟨⟨hrt.interned.boxed, hrt.interned.canonical⟩, hrt.own⟩
  have hadds := adds_regs hsound hnamed.rows hregs
  exact ⟨hadds.sound, hadds.classes, hadds.methods, hadds.others⟩

/-- What making all the classes does. -/
structure AddsAll (made : List MadeClass) (rt rt' : Runtime) : Prop where
  sound : Sound rt'
  classes : ∀ c ∈ made, rt'.classRegistry.lookup (asBytes c.table.name) = some c.cls
  otherClasses : ∀ name, (∀ c ∈ made, asBytes c.table.name ≠ name) →
    rt'.classRegistry.lookup name = rt.classRegistry.lookup name
  methods : ∀ c ∈ made, ∀ name, methodNamed rt' c.cls name =
    (methodNamed rt c.cls name).or (rowFor c.table.methods name)
  others : ∀ other, (∀ c ∈ made, c.cls ≠ other) →
    ∀ name, methodNamed rt' other name = methodNamed rt other name

theorem addsAll_registerAll (hrt : Sound s.2) (hplaced : ∀ c ∈ made, c.Placed)
    (hnamed : ∀ c ∈ made, c.Named) (hcls : (made.map fun c => c.cls).Nodup)
    (hnames : (made.map fun c => asBytes c.table.name).Nodup)
    (h : registerAll allocator made s = some s') : AddsAll made s.2 s'.2 := by
  induction made generalizing s with
  | nil =>
    cases h
    exact ⟨hrt, by simp, fun _ _ => rfl, by simp, fun _ _ _ => rfl⟩
  | cons c rest ih =>
    obtain ⟨hplacedFirst, hplacedRest⟩ := List.forall_mem_cons.mp hplaced
    obtain ⟨hnamedFirst, hnamedRest⟩ := List.forall_mem_cons.mp hnamed
    obtain ⟨hclsFirst, hclsRest⟩ := List.nodup_cons.mp hcls
    obtain ⟨hnameFirst, hnamesRest⟩ := List.nodup_cons.mp hnames
    obtain ⟨middle, hclass, hall⟩ := Option.bind_eq_some_iff.mp h
    have hfirst := addsClass_registerClass hrt hplacedFirst hnamedFirst hclass
    have hlater := ih hfirst.sound hplacedRest hnamedRest hclsRest hnamesRest hall
    have hclsNe {c' : MadeClass} (hc : c' ∈ rest) : c'.cls ≠ c.cls := fun heq =>
      hclsFirst (List.mem_map.mpr ⟨c', hc, heq⟩)
    have hnameNe {c' : MadeClass} (hc : c' ∈ rest) : asBytes c'.table.name ≠ asBytes c.table.name :=
      fun heq => hnameFirst (List.mem_map.mpr ⟨c', hc, heq⟩)
    refine ⟨hlater.sound, ?_, fun name hname => ?_, ?_, fun other hother name => ?_⟩
    · refine List.forall_mem_cons.mpr ⟨?_, hlater.classes⟩
      rw [hlater.otherClasses _ fun c' hc => hnameNe hc, hfirst.classes]
      exact AList.lookup_insert _
    · obtain ⟨hne, hrest⟩ := List.forall_mem_cons.mp hname
      rw [hlater.otherClasses name hrest, hfirst.classes]
      exact AList.lookup_insert_ne (Ne.symm hne)
    · refine List.forall_mem_cons.mpr ⟨fun name => ?_, fun c' hc name => ?_⟩
      · rw [hlater.others c.cls fun c' hc => hclsNe hc]
        exact hfirst.methods name
      · rw [hlater.methods c' hc, hfirst.others c'.cls (hclsNe hc)]
    · obtain ⟨hne, hrest⟩ := List.forall_mem_cons.mp hother
      exact (hlater.others other hrest name).trans (hfirst.others other (Ne.symm hne) name)

end All

/-! ### What is found -/

/-- What is called afterwards adds no method to the class. -/
def Foreign (cls : Word) (actions : List Action) : Prop :=
  ∀ sel imp, Action.addMethod cls sel imp ∉ actions

section Later
variable {allocator : Allocator} {rt : Runtime}

theorem Sound.step (hrt : Sound rt) {a : Action} (ha : AddsOwn ((runtime allocator).event rt a)) :
    Sound ((runtime allocator).step rt a).1 :=
  ⟨step_interned hrt.interned a, step_own hrt.interned hrt.own ha⟩

/-- **One call** adds a method where there was none, or changes nothing. -/
theorem methodNamed_step (hrt : Sound rt) {a : Action}
    (ha : AddsOwn ((runtime allocator).event rt a)) (cls : Word) (name : List Byte) :
    (∀ imp, methodNamed rt cls name = some imp →
      methodNamed ((runtime allocator).step rt a).1 cls name = some imp) ∧
    (Foreign cls [a] →
      methodNamed ((runtime allocator).step rt a).1 cls name = methodNamed rt cls name) := by
  cases a with
  | registerName m ptr =>
    suffices hsame : methodNamed ((runtime allocator).step rt (.registerName m ptr)).1 cls name =
        methodNamed rt cls name from ⟨fun imp h => hsame.trans h, fun _ => hsame⟩
    simp only [runtime]
    by_cases hptr : ptr = 0
    · subst hptr
      rfl
    · cases hreg : selRegisterName allocator m ptr rt with
      | none => rfl
      | some answer =>
        exact methodNamed_named hrt (interned_register hrt.interned hreg)
          (named_of_register hptr hreg) cls name
  | addMethod cls' sel imp =>
    obtain ⟨text, htext⟩ := hrt.interned.canonical (ha cls' sel imp rfl)
    have hadd := methodNamed_add hrt.interned htext cls' imp cls name
    simp only [runtime]
    rw [hadd]
    refine ⟨fun held hheld => ?_, fun hforeign => ?_⟩
    · by_cases hkey : cls = cls' ∧ name = text
      · obtain ⟨rfl, rfl⟩ := hkey
        rw [if_pos ⟨rfl, rfl⟩, hheld]
        rfl
      · rw [if_neg hkey, hheld]
    · refine if_neg fun hkey => hforeign sel imp ?_
      rw [hkey.1]
      exact List.mem_singleton_self _

/-- **A run.** A method stays, and a class that no method is added to has no other. -/
theorem methodNamed_run (hrt : Sound rt) {actions : List Action}
    (hactions : (runtime allocator).Along AddsOwn rt actions) (cls : Word) (name : List Byte) :
    Sound ((runtime allocator).run rt actions) ∧
    (∀ imp, methodNamed rt cls name = some imp →
      methodNamed ((runtime allocator).run rt actions) cls name = some imp) ∧
    (Foreign cls actions →
      methodNamed ((runtime allocator).run rt actions) cls name = methodNamed rt cls name) := by
  induction actions generalizing rt with
  | nil => exact ⟨hrt, fun _ h => h, fun _ => rfl⟩
  | cons a rest ih =>
    obtain ⟨hfirst, hrest⟩ := System.along_cons.mp hactions
    obtain ⟨hkept, hsame⟩ := methodNamed_step hrt hfirst cls name
    obtain ⟨hsound, hkeptRest, hsameRest⟩ := ih (hrt.step hfirst) hrest
    refine ⟨hsound, fun imp h => hkeptRest imp (hkept imp h), fun hforeign => ?_⟩
    refine (hsameRest fun sel imp hmem => hforeign sel imp (List.mem_cons_of_mem a hmem)).trans ?_
    refine hsame fun sel imp hmem => hforeign sel imp ?_
    rw [List.mem_singleton.mp hmem]
    exact List.mem_cons_self

theorem classRegistry_run (rt : Runtime) (actions : List Action) :
    ((runtime allocator).run rt actions).classRegistry = rt.classRegistry := by
  have hkeep : ∀ held a, held.classRegistry = rt.classRegistry →
      ((runtime allocator).step held a).1.classRegistry = rt.classRegistry := by
    intro held a hheld
    cases a with
    | registerName m ptr =>
      simp only [runtime]
      by_cases hptr : ptr = 0
      · subst hptr
        exact hheld
      · cases hreg : selRegisterName allocator m ptr held with
        | none => exact hheld
        | some answer => exact (named_of_register hptr hreg).classes.trans hheld
    | addMethod cls sel imp =>
      refine Eq.trans ?_ hheld
      simp only [runtime, classAddMethod]
      split_ifs <;> rfl
  exact System.run_invariant hkeep rfl actions

end Later

/-- The class itself, as it was made, or an object of it. -/
inductive Receiver (m : Memory) (rt : Runtime) (cls : Word) : Word → Prop where
  | ofClass (hisa : m.readWord cls = 0) : Receiver m rt cls cls
  | object {obj : Word} (hne : obj ≠ 0) (hisa : m.readWord obj = cls)
    (hclass : ∀ sel, (obj, sel) ∉ rt.methodRegistry) : Receiver m rt cls obj

/-- A selector for a name: the runtime's own, or a copy of the string that is looked up. -/
inductive Selects (m : Memory) (rt : Runtime) (name : List Byte) : Word → Prop where
  | own {sel : Word} (hsel : rt.selectorRegistry.lookup name = some sel) : Selects m rt name sel
  | copy {sel : Word} (hcopy : sel ∉ rt.boxes) (htext : rt.cStr m sel = name)
    (hreached : Reached sel name) : Selects m rt name sel

/-- A selector that is read as a name, whether or not its string is looked up. -/
inductive ReadAs (m : Memory) (rt : Runtime) (name : List Byte) : Word → Prop where
  | own {sel : Word} (hsel : rt.selectorRegistry.lookup name = some sel) : ReadAs m rt name sel
  | copy {sel : Word} (hcopy : sel ∉ rt.boxes) (htext : lossy (rt.cStr m sel) = name) :
    ReadAs m rt name sel

section Find
variable {m : Memory} {rt : Runtime} {cls receiver : Word}

theorem Receiver.ne_zero (h : Receiver m rt cls receiver) (hcls : InUserSpace cls) :
    receiver ≠ 0 := by
  cases h with
  | ofClass hisa => exact hcls.ne_zero
  | object hobj hisa hclass => exact hobj

theorem Receiver.firstMethod (h : Receiver m rt cls receiver) (hcls : InUserSpace cls)
    (sel : Word) :
    rt.firstMethod (classesToCheck m receiver) sel = rt.methodRegistry.lookup (cls, sel) := by
  have hne := hcls.ne_zero
  unfold Runtime.firstMethod classesToCheck
  cases h with
  | ofClass hisa =>
    rw [hisa]
    dsimp only
    rw [if_neg (by decide), List.findSome?_cons, if_neg hne]
    cases hmethod : rt.methodRegistry.lookup (cls, sel) with
    | some imp => rfl
    | none => rfl
  | object hobj hisa hclass =>
    rw [hisa]
    dsimp only
    obtain ⟨hlow, hhigh⟩ := hcls
    rw [if_pos ⟨hlow, hhigh⟩, List.findSome?_cons, if_neg hobj,
      AList.lookup_eq_none.mpr (hclass sel)]
    dsimp only
    rw [List.findSome?_cons, if_neg hne]
    cases hmethod : rt.methodRegistry.lookup (cls, sel) with
    | some imp => rfl
    | none => rfl

/-- Of the classes that are asked only its own may have methods. -/
theorem Receiver.methodFor (h : Receiver m rt cls receiver) (hcls : InUserSpace cls)
    (fns : Builtins) (name : List Byte) : methodFor fns rt (classesToCheck m receiver) name =
      (methodNamed rt cls name).getD (fns.method name) := by
  unfold Objc.methodFor methodNamed
  congr 2
  funext s
  exact h.firstMethod hcls s

/-- **What is found** is the method of the class under the name, and else a built-in one. -/
theorem lookup_receiver (fns : Builtins) (hrt : Sound rt) (hcls : InUserSpace cls)
    (hreceiver : Receiver m rt cls receiver) {name : List Byte} {sel : Word}
    (hsel : Selects m rt name sel) :
    lookupMethod fns m receiver sel rt = (methodNamed rt cls name).getD (fns.method name) := by
  have hne := hreceiver.ne_zero hcls
  have hfor := hreceiver.methodFor hcls fns name
  cases hsel with
  | own hsel => exact (lookup_own fns m hrt.interned hne hsel).trans hfor
  | copy hcopy htext hreached =>
    rw [lookup_copy fns m hrt.interned hrt.own hne hcopy, htext, if_pos hreached]
    exact hfor

/-- Where the class has no method under the name it is the built-in one, also for a string that is
not looked up. -/
theorem lookup_builtin (fns : Builtins) (hrt : Sound rt) (hcls : InUserSpace cls)
    (hreceiver : Receiver m rt cls receiver) {name : List Byte} {sel : Word}
    (hsel : ReadAs m rt name sel) (hnone : methodNamed rt cls name = none) :
    lookupMethod fns m receiver sel rt = fns.method name := by
  have hne := hreceiver.ne_zero hcls
  have hfor := hreceiver.methodFor hcls fns name
  rw [hnone] at hfor
  cases hsel with
  | own hsel => exact (lookup_own fns m hrt.interned hne hsel).trans hfor
  | copy hcopy htext =>
    rw [lookup_copy fns m hrt.interned hrt.own hne hcopy]
    by_cases hreached : Reached sel (rt.cStr m sel)
    · rw [lossy_of_valid hreached.2.1] at htext
      rw [if_pos hreached, htext]
      exact hfor
    · rw [if_neg hreached, htext]

end Find

end Grafted.Objc

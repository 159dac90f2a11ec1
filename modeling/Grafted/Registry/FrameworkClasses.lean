import Grafted.Objc.ClassTables

/-! The classes of Foundation and AppKit.

They are registered before anything else, in this order. From then on a message to one of them, or
to an object of it, gets the function of its row, whatever the program adds, and a message that
it has no row for gets a built-in method, as long as the program adds none to it
(`framework_dispatch`). -/
namespace Grafted.Registry.FrameworkClasses
open ByteMemory Transition Utf8 Objc
open Loader.ProcessStack (asBytes)

/-- A class without methods. -/
def bare {Imp : Type} (name : String) (instanceSize : BitVec 32) : ClassTable Imp :=
  ⟨name, instanceSize, []⟩

/-! ### Foundation -/

namespace Foundation

/-- The functions that are registered. -/
inductive Imp where
  | nsStringLength
  | nsStringUtf8
  | nsStringIsEqual
  | nsStringWithUtf8
  | nsStringWithFormat
  | nsStringDescription
  | nsStringHash
  | nsNumberWithInt
  | nsNumberIntValue
  | nsNumberBoolValue
  | nsBundleMain
  | nsBundlePath
  | nsBundleResourcePath
  | nsBundleInfoDict
  | nsBundleIdentifier
  | nsNotificationCenterDefault
  | nsNotificationCenterAddObserver
  | nsNotificationCenterRemoveObserver
  | nsNotificationCenterRemoveObserverNameObject
  | nsNotificationCenterPost
  | nsNotificationCenterPostUserInfo
  | nsDistributedNotificationCenterDefault
  | processInfo
  | processName
  | osVersion
  | defaultManager
  | notificationName
  | notificationObject
  | notificationUserInfo

def registerNsstring : List (ClassTable Imp) :=
  [⟨"NSString", 64,
     [("length", .nsStringLength), ("UTF8String", .nsStringUtf8),
      ("isEqualToString:", .nsStringIsEqual), ("stringWithUTF8String:", .nsStringWithUtf8),
      ("stringWithFormat:", .nsStringWithFormat), ("description", .nsStringDescription),
      ("hash", .nsStringHash)]⟩,
   ⟨"NSMutableString", 64,
     [("length", .nsStringLength), ("UTF8String", .nsStringUtf8)]⟩,
   bare "NSMutableAttributedString" 128, bare "NSAttributedString" 128]

def registerNsnumber : List (ClassTable Imp) :=
  [⟨"NSNumber", 32,
     [("numberWithInt:", .nsNumberWithInt), ("numberWithInteger:", .nsNumberWithInt),
      ("numberWithBool:", .nsNumberWithInt), ("intValue", .nsNumberIntValue),
      ("integerValue", .nsNumberIntValue), ("boolValue", .nsNumberBoolValue)]⟩,
   bare "NSNull" 16, bare "NSNumberFormatter" 64, bare "NSByteCountFormatter" 64]

def registerNsbundle : List (ClassTable Imp) :=
  [⟨"NSBundle", 1024,
     [("mainBundle", .nsBundleMain), ("bundlePath", .nsBundlePath),
      ("resourcePath", .nsBundleResourcePath), ("infoDictionary", .nsBundleInfoDict),
      ("bundleIdentifier", .nsBundleIdentifier)]⟩]

def registerNsnotificationCenter : List (ClassTable Imp) :=
  [⟨"NSNotificationCenter", 256,
     [("defaultCenter", .nsNotificationCenterDefault),
      ("addObserver:selector:name:object:", .nsNotificationCenterAddObserver),
      ("removeObserver:", .nsNotificationCenterRemoveObserver),
      ("removeObserver:name:object:", .nsNotificationCenterRemoveObserverNameObject),
      ("postNotificationName:object:", .nsNotificationCenterPost),
      ("postNotificationName:object:userInfo:", .nsNotificationCenterPostUserInfo)]⟩,
   ⟨"NSDistributedNotificationCenter", 256,
     [("defaultCenter", .nsDistributedNotificationCenterDefault),
      ("addObserver:selector:name:object:", .nsNotificationCenterAddObserver),
      ("removeObserver:", .nsNotificationCenterRemoveObserver),
      ("postNotificationName:object:", .nsNotificationCenterPost)]⟩]

def registerNsprocessinfo : List (ClassTable Imp) :=
  [⟨"NSProcessInfo", 256,
     [("processInfo", .processInfo), ("processName", .processName),
      ("operatingSystemVersion", .osVersion)]⟩]

def registerNsfilemanager : List (ClassTable Imp) :=
  [⟨"NSFileManager", 64,
     [("defaultManager", .defaultManager)]⟩]

def registerNsnotification : List (ClassTable Imp) :=
  [⟨"NSNotification", 64,
     [("name", .notificationName), ("object", .notificationObject),
      ("userInfo", .notificationUserInfo)]⟩]

/-- `foundation::register_all` -/
def classes : List (ClassTable Imp) :=
  registerNsstring ++ registerNsnumber ++ registerNsbundle ++ registerNsnotificationCenter ++
    registerNsprocessinfo ++ registerNsfilemanager ++ registerNsnotification

end Foundation

/-! ### AppKit -/

namespace Appkit

/-- The functions that are registered. -/
inductive Imp where
  | nsApplicationShared
  | nsApplicationRun
  | nsApplicationTerminate
  | nsApplicationIsRunning
  | nsApplicationActivate
  | nsApplicationSetActivationPolicy
  | nsWindowInit
  | nsWindowSetTitle
  | nsWindowMakeKeyAndOrderFront
  | nsWindowOrderOut
  | nsWindowClose
  | nsWindowDisplay
  | nsWindowFrame
  | nsWindowSetContentView
  | nsWindowContentView
  | nsWindowGraphicsContext
  | nsViewInitWithFrame
  | nsViewFrame
  | nsViewSetFrame
  | nsViewBounds
  | nsViewAddSubview
  | nsViewSuperview
  | nsViewSetNeedsDisplay
  | nsViewIsHidden
  | nsViewSetHidden
  | nsViewDrawRect
  | nsScreenMain
  | nsScreenFrame
  | nsObjectInit
  | nsObjectClass
  | nsObjectResponds
  | nsObjectDescription
  | nsMenuInitWithTitle
  | nsMenuAddItem
  | nsMenuItemCount
  | nsMenuSetSubmenu
  | nsMenuItemInit
  | nsMenuItemSeparator
  | nsMenuItemSetTarget
  | nsMenuItemSetSubmenu
  | nsMenuItemSetEnabled
  | nsMenuItemSetTag
  | nsPasteboardGeneral
  | nsPasteboardStringForType
  | nsPasteboardSetString
  | nsPasteboardClear
  | nsPasteboardChangeCount
  | nsPasteboardTypes
  | nsPasteboardItems
  | nsPasteboardDeclareTypes
  | nsPasteboardDataForType
  | nsColorWithRgb
  | nsColorNamed
  | nsImageNamed
  | nsImageSize
  | nsLayoutActivate

def registerNsapplication : List (ClassTable Imp) :=
  [⟨"NSApplication", 256,
     [("sharedApplication", .nsApplicationShared), ("run", .nsApplicationRun),
      ("terminate:", .nsApplicationTerminate), ("isRunning", .nsApplicationIsRunning),
      ("activateIgnoringOtherApps:", .nsApplicationActivate),
      ("setActivationPolicy:", .nsApplicationSetActivationPolicy)]⟩]

def registerNswindow : List (ClassTable Imp) :=
  [⟨"NSWindow", 1024,
     [("initWithContentRect:styleMask:backing:defer:", .nsWindowInit),
      ("setTitle:", .nsWindowSetTitle), ("makeKeyAndOrderFront:", .nsWindowMakeKeyAndOrderFront),
      ("orderOut:", .nsWindowOrderOut), ("close", .nsWindowClose), ("display", .nsWindowDisplay),
      ("frame", .nsWindowFrame), ("setContentView:", .nsWindowSetContentView),
      ("contentView", .nsWindowContentView), ("graphicsContext", .nsWindowGraphicsContext)]⟩]

def registerNsview : List (ClassTable Imp) :=
  [⟨"NSView", 1024,
     [("initWithFrame:", .nsViewInitWithFrame), ("frame", .nsViewFrame),
      ("setFrame:", .nsViewSetFrame), ("bounds", .nsViewBounds), ("addSubview:", .nsViewAddSubview),
      ("superview", .nsViewSuperview), ("setNeedsDisplay:", .nsViewSetNeedsDisplay),
      ("isHidden", .nsViewIsHidden), ("setHidden:", .nsViewSetHidden),
      ("drawRect:", .nsViewDrawRect)]⟩]

def registerNsscreen : List (ClassTable Imp) :=
  [⟨"NSScreen", 64,
     [("mainScreen", .nsScreenMain), ("frame", .nsScreenFrame), ("visibleFrame", .nsScreenFrame)]⟩]

def registerNsobject : List (ClassTable Imp) :=
  [⟨"NSObject", 16,
     [("init", .nsObjectInit), ("class", .nsObjectClass),
      ("respondsToSelector:", .nsObjectResponds), ("description", .nsObjectDescription)]⟩]

def registerNsmenu : List (ClassTable Imp) :=
  [⟨"NSMenu", 512,
     [("initWithTitle:", .nsMenuInitWithTitle), ("addItem:", .nsMenuAddItem),
      ("numberOfItems", .nsMenuItemCount), ("setSubmenu:forItem:", .nsMenuSetSubmenu)]⟩,
   ⟨"NSMenuItem", 512,
     [("initWithTitle:action:keyEquivalent:", .nsMenuItemInit),
      ("separatorItem", .nsMenuItemSeparator), ("setTarget:", .nsMenuItemSetTarget),
      ("setSubmenu:", .nsMenuItemSetSubmenu), ("setEnabled:", .nsMenuItemSetEnabled),
      ("setTag:", .nsMenuItemSetTag)]⟩]

def registerNspasteboard : List (ClassTable Imp) :=
  [⟨"NSPasteboard", 256,
     [("generalPasteboard", .nsPasteboardGeneral), ("stringForType:", .nsPasteboardStringForType),
      ("setString:forType:", .nsPasteboardSetString), ("clearContents", .nsPasteboardClear),
      ("changeCount", .nsPasteboardChangeCount), ("types", .nsPasteboardTypes),
      ("pasteboardItems", .nsPasteboardItems), ("declareTypes:owner:", .nsPasteboardDeclareTypes),
      ("dataForType:", .nsPasteboardDataForType)]⟩,
   bare "NSPasteboardItem" 128]

def registerNscolor : List (ClassTable Imp) :=
  [⟨"NSColor", 64,
     [("colorWithRed:green:blue:alpha:", .nsColorWithRgb), ("colorNamed:", .nsColorNamed),
      ("whiteColor", .nsColorNamed), ("blackColor", .nsColorNamed), ("clearColor", .nsColorNamed),
      ("controlBackgroundColor", .nsColorNamed), ("textColor", .nsColorNamed)]⟩]

def registerNsimage : List (ClassTable Imp) :=
  [⟨"NSImage", 128,
     [("imageNamed:", .nsImageNamed), ("size", .nsImageSize)]⟩,
   bare "NSGraphicsContext" 64]

def registerNslayout : List (ClassTable Imp) :=
  [⟨"NSLayoutConstraint", 128,
     [("activateConstraints:", .nsLayoutActivate)]⟩,
   bare "NSAlert" 256, bare "NSPopover" 256, bare "NSFont" 64, bare "NSEvent" 256,
   bare "NSAnimationContext" 64, bare "NSGlassEffectView" 128, bare "NSRegularExpression" 128,
   bare "NSKeyedArchiver" 128, bare "NSKeyedUnarchiver" 128, bare "NSSearchField" 128,
   bare "NSResponder" 64, bare "NSViewController" 256, bare "NSWindowController" 256,
   bare "NSToolbar" 128, bare "NSSplitView" 128, bare "NSTableView" 256, bare "NSOutlineView" 256,
   bare "NSScrollView" 128, bare "NSTextField" 128, bare "NSButton" 128, bare "NSTextView" 256,
   bare "NSStackView" 128, bare "NSTabView" 128, bare "NSProgressIndicator" 64, bare "NSSlider" 64,
   bare "NSComboBox" 128, bare "NSSegmentedControl" 128]

/-- `appkit::register_all` -/
def classes : List (ClassTable Imp) :=
  registerNsapplication ++ registerNswindow ++ registerNsview ++ registerNsscreen ++
    registerNsobject ++ registerNsmenu ++ registerNspasteboard ++ registerNscolor ++
    registerNsimage ++ registerNslayout

end Appkit

/-! ### Both -/

/-- The order of `framework_registry`. -/
def classes (foundation : Foundation.Imp → Word) (appkit : Appkit.Imp → Word) :
    List (ClassTable Word) :=
  Foundation.classes.map (·.linked foundation) ++ Appkit.classes.map (·.linked appkit)

/-- What is written in the tables, less the functions. -/
def names {Imp : Type} (t : ClassTable Imp) : String × List String :=
  (t.name, t.methods.map Prod.fst)

theorem names_linked {Imp : Type} (address : Imp → Word) :
    (names ∘ fun t : ClassTable Imp => t.linked address) = names := by
  funext t
  simp [names, ClassTable.linked]

def allNames : List (String × List String) :=
  Foundation.classes.map names ++ Appkit.classes.map names

theorem names_classes (foundation : Foundation.Imp → Word) (appkit : Appkit.Imp → Word) :
    (classes foundation appkit).map names = allNames := by
  simp only [classes, allNames, List.map_append, List.map_map, names_linked]

theorem nodup_names : (allNames.map fun entry => asBytes entry.1).Nodup := by decide +kernel

theorem nodup_rows : (allNames.all fun entry => (entry.2.map asBytes).Nodup) = true := by
  decide +kernel

theorem literal_names :
    (allNames.all fun entry => Literal entry.1 && entry.2.all fun row => Literal row) = true := by
  decide +kernel

section Made
variable {foundation : Foundation.Imp → Word} {appkit : Appkit.Imp → Word} {made : List MadeClass}

theorem names_mem (hmade : made.map (fun c => c.table) = classes foundation appkit) {c : MadeClass}
    (hc : c ∈ made) : names c.table ∈ allNames := by
  rw [← names_classes foundation appkit, ← hmade]
  exact List.mem_map_of_mem (List.mem_map_of_mem hc)

theorem named_made (hmade : made.map (fun c => c.table) = classes foundation appkit) {c : MadeClass}
    (hc : c ∈ made) : c.Named := by
  have hliteral := List.all_eq_true.mp literal_names _ (names_mem hmade hc)
  simp only [names, Bool.and_eq_true, decide_eq_true_eq, List.all_eq_true, List.mem_map] at hliteral
  exact ⟨of_decide_eq_true hliteral.1, fun row hrow => hliteral.2 row.1 ⟨row, hrow, rfl⟩⟩

theorem nodup_made (hmade : made.map (fun c => c.table) = classes foundation appkit) :
    (made.map fun c => asBytes c.table.name).Nodup := by
  have hnodup := nodup_names
  rw [← names_classes foundation appkit, ← hmade, List.map_map, List.map_map] at hnodup
  exact hnodup

/-- A row is the first of its name. -/
theorem rowFor_made (hmade : made.map (fun c => c.table) = classes foundation appkit)
    {c : MadeClass} (hc : c ∈ made) {row : String × Word} (hrow : row ∈ c.table.methods) :
    rowFor c.table.methods (asBytes row.1) = some row.2 := by
  have hnodup := List.all_eq_true.mp nodup_rows _ (names_mem hmade hc)
  simp only [names, decide_eq_true_eq, List.map_map] at hnodup
  generalize c.table.methods = rows at hrow hnodup
  induction rows with
  | nil => cases hrow
  | cons first rest ih =>
    obtain ⟨hfirst, hrest⟩ := List.nodup_cons.mp hnodup
    rw [rowFor_cons]
    rcases List.mem_cons.mp hrow with heq | hlater
    · rw [heq, if_pos rfl]
    · rw [if_neg fun heq => hfirst (List.mem_map.mpr ⟨row, hlater, heq.symm⟩)]
      exact ih hlater hrest

end Made

theorem rowFor_none {rows : List (String × Word)} {name : List Byte}
    (h : ∀ row ∈ rows, asBytes row.1 ≠ name) : rowFor rows name = none := by
  induction rows with
  | nil => rfl
  | cons row rest ih =>
    obtain ⟨hfirst, hrest⟩ := List.forall_mem_cons.mp h
    rw [rowFor_cons, if_neg hfirst, ih hrest]

/-- What a class of the frameworks does in a program: it is found by its name, and answers what
its table says. -/
structure Dispatches (fns : Builtins) (c : MadeClass) (foreign : Prop) (rt : Runtime) : Prop where
  found : ∀ m ptr, ptr ≠ 0 → lossy (rt.cStr m ptr) = asBytes c.table.name →
    getClass m ptr rt = c.cls
  row : ∀ {m receiver sel row}, Receiver m rt c.cls receiver → row ∈ c.table.methods →
    Selects m rt (asBytes row.1) sel → lookupMethod fns m receiver sel rt = row.2
  builtin : ∀ {m receiver sel name}, foreign → Receiver m rt c.cls receiver →
    (∀ row ∈ c.table.methods, asBytes row.1 ≠ name) → ReadAs m rt name sel →
      lookupMethod fns m receiver sel rt = fns.method name

/-- **A message to a class of the frameworks gets the function of its row**, whatever was registered
before and is added afterwards, and one it has no row for a built-in method, if the program added
none to the class. -/
theorem framework_dispatch {allocator : Allocator} (fns : Builtins)
    {foundation : Foundation.Imp → Word} {appkit : Appkit.Imp → Word} {made : List MadeClass}
    (hmade : made.map (fun c => c.table) = classes foundation appkit)
    (hplaced : ∀ c ∈ made, c.Placed) (hdistinct : (made.map fun c => c.cls).Nodup)
    {before after : List Action} {rt : Runtime} {s : Memory × Runtime} {m : Memory}
    (hbefore : (runtime allocator).Along AddsOwn .new before)
    (hrt : (runtime allocator).run .new before = rt)
    (hfresh : ∀ c ∈ made, ∀ sel, (c.cls, sel) ∉ rt.methodRegistry)
    (hreg : registerAll allocator made (m, rt) = some s)
    (hafter : (runtime allocator).Along AddsOwn s.2 after) :
    ∀ c ∈ made, Dispatches fns c (Foreign c.cls after) ((runtime allocator).run s.2 after) := by
  have hsound : Sound rt := hrt ▸ ⟨run_interned before, run_own hbefore⟩
  have hall := addsAll_registerAll (s := (m, rt)) hsound hplaced (fun c hc => named_made hmade hc)
    hdistinct (nodup_made hmade) hreg
  intro c hc
  have huser := (hplaced c hc).user
  have hmethods (name : List Byte) : methodNamed s.2 c.cls name = rowFor c.table.methods name := by
    have hnone : methodNamed rt c.cls name = none := by
      unfold methodNamed
      cases rt.selectorRegistry.lookup name with
      | none => rfl
      | some sel => exact AList.lookup_eq_none.mpr (hfresh c hc sel)
    rw [hall.methods c hc, hnone]
    rfl
  constructor
  · intro m ptr hptr hname
    rw [getClass, if_neg hptr, hname, classRegistry_run, hall.classes c hc]
    rfl
  · intro m receiver sel row hreceiver hrow hsel
    obtain ⟨hlast, hkept, -⟩ := methodNamed_run hall.sound hafter c.cls (asBytes row.1)
    rw [lookup_receiver fns hlast huser hreceiver hsel,
      hkept row.2 ((hmethods _).trans (rowFor_made hmade hc hrow))]
    rfl
  · intro m receiver sel name hforeign hreceiver hno hsel
    obtain ⟨hlast, -, hsame⟩ := methodNamed_run hall.sound hafter c.cls name
    refine lookup_builtin fns hlast huser hreceiver hsel ?_
    rw [hsame hforeign, hmethods, rowFor_none hno]

/-! ### An allocator -/

/-- The highest address. -/
def top (others : List Word) : Nat := others.foldr (fun a n => max a.toNat n) 0

theorem le_top {others : List Word} {a : Word} (h : a ∈ others) : a.toNat ≤ top others := by
  induction others with
  | nil => cases h
  | cons first rest ih =>
    rcases List.mem_cons.mp h with heq | hrest
    · rw [heq]
      exact Nat.le_max_left ..
    · exact Nat.le_trans (ih hrest) (Nat.le_max_right ..)

theorem top_le {others : List Word} {n : Nat} (h : ∀ a ∈ others, a.toNat ≤ n) : top others ≤ n := by
  induction others with
  | nil => exact Nat.zero_le n
  | cons first rest ih =>
    obtain ⟨hfirst, hrest⟩ := List.forall_mem_cons.mp h
    exact Nat.max_le.mpr ⟨hfirst, ih hrest⟩

/-- One address after the other. -/
def next (others : List Word) : Option Word :=
  if top others + 1 < 2 ^ 64 then some (BitVec.ofNat 64 (top others + 1)) else none

theorem next_fresh {others : List Word} {a : Word} (h : next others = some a) : a ∉ others := by
  unfold next at h
  split_ifs at h with hroom
  cases h
  intro hmem
  have hle := le_top hmem
  rw [BitVec.toNat_ofNat, Nat.mod_eq_of_lt hroom] at hle
  exact Nat.not_succ_le_self _ hle

def bump : Allocator := ⟨fun others _ => next others, next_fresh⟩

def Below (n : Nat) (rt : Runtime) : Prop := ∀ a ∈ rt.boxes, a.toNat ≤ n

section Below
variable {n : Nat} {rt : Runtime}

theorem below_reg (h : Below n rt) (hn : n + 1 < 2 ^ 64) (cls : Word) (row : String × Word) :
    ∃ rt', reg bump cls row rt = some rt' ∧ Below (n + 1) rt' := by
  have hadd (sel : Word) (held : Runtime) (hheld : Below (n + 1) held) :
      Below (n + 1) (classAddMethod cls sel row.2 held).2 := by
    unfold Below
    rw [(classAddMethod_selectors cls sel row.2 held).2]
    exact hheld
  unfold reg internName
  cases hlookup : rt.selectorRegistry.lookup (asBytes row.1) with
  | some sel => exact ⟨_, rfl, hadd sel rt fun a ha => Nat.le_succ_of_le (h a ha)⟩
  | none =>
    have htop : top rt.boxes.keys ≤ n := top_le h
    have hnext : bump.box rt.boxes.keys (asBytes row.1 ++ [0]) =
        some (BitVec.ofNat 64 (top rt.boxes.keys + 1)) := if_pos (by omega)
    dsimp only
    rw [hnext]
    refine ⟨_, rfl, hadd _ _ fun a ha => ?_⟩
    rcases (AList.mem_insert _).mp ha with heq | hold
    · rw [heq, BitVec.toNat_ofNat, Nat.mod_eq_of_lt (by omega)]
      omega
    · exact Nat.le_succ_of_le (h a hold)

theorem below_regs (cls : Word) (rows : List (String × Word)) (h : Below n rt)
    (hn : n + rows.length < 2 ^ 64) :
    ∃ rt', regs bump cls rows rt = some rt' ∧ Below (n + rows.length) rt' := by
  induction rows generalizing n rt with
  | nil => exact ⟨rt, rfl, h⟩
  | cons row rest ih =>
    rw [List.length_cons] at hn
    obtain ⟨middle, hreg, hmiddle⟩ := below_reg h (by omega) cls row
    obtain ⟨rt', hregs, hlast⟩ := ih hmiddle (by omega)
    refine ⟨rt', Option.bind_eq_some_iff.mpr ⟨middle, hreg, hregs⟩, ?_⟩
    rw [List.length_cons, Nat.add_comm rest.length 1, ← Nat.add_assoc]
    exact hlast

/-- No class has more methods than ten. -/
theorem below_registerAll (made : List MadeClass) (hrows : ∀ c ∈ made, c.table.methods.length ≤ 10)
    (h : Below n rt) (hn : n + 10 * made.length < 2 ^ 64) (m : Memory) :
    ∃ s, registerAll bump made (m, rt) = some s := by
  induction made generalizing n rt m with
  | nil => exact ⟨(m, rt), rfl⟩
  | cons c rest ih =>
    obtain ⟨hfirst, hrest⟩ := List.forall_mem_cons.mp hrows
    rw [List.length_cons] at hn
    have hpair : Below n (registerClassPair (allocClass c m) c.cls rt) := by
      unfold registerClassPair
      split_ifs
      · exact h
      · exact h
    obtain ⟨rt', hregs, hlast⟩ := below_regs c.cls c.table.methods hpair (by omega)
    have hclass : registerClass bump c (m, rt) = some (allocClass c m, rt') := by
      unfold registerClass
      dsimp only
      rw [hregs]
      rfl
    obtain ⟨s, hs⟩ := ih hrest (n := n + 10) (fun a ha => Nat.le_trans (hlast a ha) (by omega))
      (by omega) (allocClass c m)
    exact ⟨s, Option.bind_eq_some_iff.mpr ⟨_, hclass, hs⟩⟩

end Below

/-- A page for each class. -/
def paged (page : Nat) : List (ClassTable Word) → List MadeClass
  | [] => []
  | t :: rest =>
    let base : Word := BitVec.ofNat 64 (page * 0x1000)
    ⟨t, base, base + 0x200, base + 0x400⟩ :: paged (page + 1) rest

/-- All functions at one address. -/
def frameworks : List MadeClass := paged 0x10 (classes (fun _ => 0x7000) fun _ => 0x7000)

def registered : Memory × Runtime :=
  (registerAll bump frameworks (fun _ => 0, .new)).getD (fun _ => 0, .new)

theorem tables_paged (page : Nat) (tables : List (ClassTable Word)) :
    (paged page tables).map (fun c => c.table) = tables := by
  induction tables generalizing page with
  | nil => rfl
  | cons t rest ih => exact congrArg (t :: ·) (ih (page + 1))

theorem frameworks_placed : (frameworks.all fun c => c.Placed) = true := by decide +kernel

theorem frameworks_distinct : (frameworks.map fun c => c.cls).Nodup := by decide +kernel

theorem frameworks_rows : (frameworks.all fun c => c.table.methods.length ≤ 10) = true := by
  decide +kernel

theorem registered_eq : registerAll bump frameworks (fun _ => 0, .new) = some registered := by
  have hrows : ∀ c ∈ frameworks, c.table.methods.length ≤ 10 := fun c hc =>
    of_decide_eq_true (List.all_eq_true.mp frameworks_rows c hc)
  have hnew : Below 0 .new := fun a ha => absurd ha (AList.notMem_empty a)
  obtain ⟨s, hs⟩ := below_registerAll frameworks hrows hnew (by decide +kernel) fun _ => 0
  rw [registered, hs]
  rfl

theorem frameworks_window : (frameworks.any fun c => c.table.name == "NSWindow") = true := by
  decide +kernel

/-- The program registers a selector afterwards. -/
theorem framework_dispatch_window : ∃ c ∈ frameworks, c.table.name = "NSWindow" ∧
    Dispatches builtinsAt c (Foreign c.cls [.registerName shortNames 0x2000])
      ((runtime bump).run registered.2 [.registerName shortNames 0x2000]) := by
  obtain ⟨c, hc, hname⟩ := List.any_eq_true.mp frameworks_window
  have hmade : frameworks.map (fun c => c.table) = classes (fun _ => 0x7000) fun _ => 0x7000 :=
    tables_paged 0x10 _
  refine ⟨c, hc, by simpa using hname, ?_⟩
  refine framework_dispatch builtinsAt hmade (fun c hc => ?_) frameworks_distinct
    (System.along_nil _ _) rfl (fun c _ sel => AList.notMem_empty _) registered_eq ?_ c hc
  · exact of_decide_eq_true (List.all_eq_true.mp frameworks_placed c hc)
  · refine System.along_cons.mpr ⟨?_, System.along_nil _ _⟩
    intro cls sel imp ha
    cases ha

end Grafted.Registry.FrameworkClasses

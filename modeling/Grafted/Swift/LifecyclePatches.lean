import Grafted.Base.ByteRanges
import Grafted.Base.Transition

/-! Patches that are applied and taken back.

The first bytes of each site are saved, overwritten by a jump, and written back. Sites may
coincide or overlap: every one was saved from the same memory, and a restore writes every byte
that an apply may have written (`lifecycle_patches_restored`). -/
namespace Grafted.Swift.LifecyclePatches
open ByteMemory Memory Transition Transition.System
open X86 (readBytes Within length_readBytes)

structure PatchSite where
  addr : Address
  original : List Byte
  size : Nat
  replacement : Address

/-- How many bytes are saved of a site. -/
def PATCH_SIZE : Nat := 12

/-- The jump: `mov rax, replacement` and `jmp rax`. -/
def jump (replacement : Address) : List Byte :=
  [0x48, 0xB8] ++ bytesLE replacement.toNat 8 ++ [0xFF, 0xE0]

/-- Where a name was found, or null, and what is to stand in for it. -/
structure Target where
  addr : Address
  replacement : Address

/-- Of the 32 bytes for the original only the first are copied. -/
def savedSite (m : Memory) (target : Target) : Option PatchSite :=
  if target.addr = 0 then none
  else some ⟨target.addr, readBytes m target.addr PATCH_SIZE ++ List.replicate 20 0, PATCH_SIZE,
    target.replacement⟩

/-- All sites are saved from one memory. -/
def saveOriginalBytes (m : Memory) (targets : List Target) : List PatchSite :=
  targets.filterMap (savedSite m)

/-- What `patch_function_at` writes. -/
def patchFunctionAt (target replacement : Address) : Option Write :=
  if target = 0 then none else some ⟨target, jump replacement⟩

def applyWrites (sites : List PatchSite) : List Write :=
  sites.filterMap fun site => patchFunctionAt site.addr site.replacement

def restoreWrites (sites : List PatchSite) : List Write :=
  sites.map fun site => ⟨site.addr, site.original.take site.size⟩

inductive Action where
  | applyLifecyclePatches
  | restoreLifecyclePatches
deriving DecidableEq

def Action.writes (sites : List PatchSite) : Action → List Write
  | .applyLifecyclePatches => applyWrites sites
  | .restoreLifecyclePatches => restoreWrites sites

/-- The memory, under calls for the sites. -/
def patches (sites : List PatchSite) : System Memory Action Unit where
  step m action := (m.writeAll (action.writes sites), ())

/-- In the 12 bytes of a site. -/
def InWindow (sites : List PatchSite) (x : Address) : Prop :=
  ∃ site ∈ sites, Within site.addr PATCH_SIZE x

/-- What a call is to leave alone on the way, and a restore to bring back. -/
structure Recovers (m₀ : Memory) (sites : List PatchSite) (e : Event Memory Action Unit) : Prop where
  restored : e.action = .restoreLifecyclePatches → e.after = m₀
  outside : ∀ m, e.before.OnTheWay (e.action.writes sites) m → ∀ x, ¬InWindow sites x → m x = m₀ x

/-! ### Sites -/

theorem length_jump (replacement : Address) : (jump replacement).length = PATCH_SIZE := by
  simp [jump, bytesLE, PATCH_SIZE]

theorem mem_saved {m : Memory} {targets : List Target} {site : PatchSite}
    (h : site ∈ saveOriginalBytes m targets) :
    site.original.take site.size = readBytes m site.addr PATCH_SIZE := by
  obtain ⟨target, -, hsaved⟩ := List.mem_filterMap.mp h
  unfold savedSite at hsaved
  split_ifs at hsaved
  obtain rfl := Option.some.inj hsaved
  exact List.take_left' (length_readBytes ..)

/-- A write of an apply is as long as a window. -/
theorem mem_applyWrites {sites : List PatchSite} {w : Write} (h : w ∈ applyWrites sites) :
    w.bytes.length = PATCH_SIZE ∧ ∃ site ∈ sites, w.addr = site.addr := by
  obtain ⟨site, hsite, hw⟩ := List.mem_filterMap.mp h
  unfold patchFunctionAt at hw
  split_ifs at hw
  obtain rfl := Option.some.inj hw
  exact ⟨length_jump _, site, hsite, rfl⟩

theorem mem_restoreWrites {m₀ : Memory} {targets : List Target} {w : Write}
    (h : w ∈ restoreWrites (saveOriginalBytes m₀ targets)) :
    w.bytes = readBytes m₀ w.addr PATCH_SIZE ∧
      ∃ site ∈ saveOriginalBytes m₀ targets, w.addr = site.addr := by
  obtain ⟨site, hsite, rfl⟩ := List.mem_map.mp h
  exact ⟨mem_saved hsite, site, hsite, rfl⟩

/-- Both calls write in the windows. -/
theorem mem_writes {m₀ : Memory} {targets : List Target} {action : Action} {w : Write}
    (h : w ∈ action.writes (saveOriginalBytes m₀ targets)) :
    w.bytes.length = PATCH_SIZE ∧ ∃ site ∈ saveOriginalBytes m₀ targets, w.addr = site.addr := by
  cases action with
  | applyLifecyclePatches => exact mem_applyWrites h
  | restoreLifecyclePatches =>
    obtain ⟨hbytes, hsite⟩ := mem_restoreWrites h
    exact ⟨hbytes ▸ length_readBytes .., hsite⟩

/-! ### Calls -/

section Calls
variable {m₀ m : Memory} {targets : List Target}

/-- Nothing is changed outside the windows. -/
def Intact (m₀ : Memory) (sites : List PatchSite) (m : Memory) : Prop :=
  ∀ x, ¬InWindow sites x → m x = m₀ x

theorem short_writes {action : Action} {w : Write}
    (h : w ∈ action.writes (saveOriginalBytes m₀ targets)) : w.bytes.length ≤ 2 ^ 64 := by
  rw [(mem_writes h).1]
  decide

theorem off_writes {action : Action} {x : Address}
    (hx : ¬InWindow (saveOriginalBytes m₀ targets) x) {w : Write}
    (h : w ∈ action.writes (saveOriginalBytes m₀ targets)) : ¬Within w.addr w.bytes.length x := by
  obtain ⟨hlength, site, hsite, haddr⟩ := mem_writes h
  rw [hlength, haddr]
  exact fun hin => hx ⟨site, hsite, hin⟩

theorem intact_onTheWay (h : Intact m₀ (saveOriginalBytes m₀ targets) m) {action : Action}
    {m' : Memory} (hway : m.OnTheWay (action.writes (saveOriginalBytes m₀ targets)) m') :
    Intact m₀ (saveOriginalBytes m₀ targets) m' := by
  intro x hx
  have hsame := onTheWay_off (fun _ hw => short_writes hw) (fun _ hw => off_writes hx hw) hway
  exact hsame.trans (h x hx)

theorem intact_step (h : Intact m₀ (saveOriginalBytes m₀ targets) m) (action : Action) :
    Intact m₀ (saveOriginalBytes m₀ targets)
      ((patches (saveOriginalBytes m₀ targets)).step m action).1 := by
  intro x hx
  have hsame : m.writeAll (action.writes (saveOriginalBytes m₀ targets)) x = m x :=
    writeAll_off (fun _ hw => short_writes hw) (fun _ hw => off_writes hx hw)
  exact hsame.trans (h x hx)

/-- A restore writes all windows, each with what was there. -/
theorem restore_eq (h : Intact m₀ (saveOriginalBytes m₀ targets) m) :
    m.writeAll (restoreWrites (saveOriginalBytes m₀ targets)) = m₀ := by
  funext x
  have hshort : ∀ w ∈ restoreWrites (saveOriginalBytes m₀ targets), w.bytes.length ≤ 2 ^ 64 := by
    intro w hw
    rw [(mem_restoreWrites hw).1, length_readBytes]
    decide
  refine writeAll_restores hshort (fun w hw => ?_) ?_
  · obtain ⟨hbytes, -⟩ := mem_restoreWrites hw
    rw [hbytes, length_readBytes]
  · by_cases hx : InWindow (saveOriginalBytes m₀ targets) x
    · obtain ⟨site, hsite, hin⟩ := hx
      refine .inr ⟨_, List.mem_map_of_mem hsite, ?_⟩
      rw [mem_saved hsite, length_readBytes]
      exact hin
    · exact .inl (h x hx)

end Calls

/-- However the calls follow one another, each restore brings back the memory that the
sites were saved from, and no byte outside the windows is ever changed. -/
theorem lifecycle_patches_restored (m₀ : Memory) (targets : List Target) (actions : List Action) :
    (patches (saveOriginalBytes m₀ targets)).Along (Recovers m₀ (saveOriginalBytes m₀ targets)) m₀
      actions := by
  have hstart : Intact m₀ (saveOriginalBytes m₀ targets) m₀ := fun _ _ => rfl
  have keep : ∀ m action, Intact m₀ (saveOriginalBytes m₀ targets) m → True →
      Intact m₀ (saveOriginalBytes m₀ targets)
        ((patches (saveOriginalBytes m₀ targets)).step m action).1 :=
    fun m action h _ => intact_step h action
  have hany : (patches (saveOriginalBytes m₀ targets)).Along (fun _ => True) m₀ actions :=
    fun _ _ => trivial
  refine Along.of_invariant keep (fun m action h _ => ⟨fun heq => ?_, ?_⟩) hstart hany
  · obtain rfl : action = .restoreLifecyclePatches := heq
    exact restore_eq h
  · exact fun m' hway => intact_onTheWay h hway

end Grafted.Swift.LifecyclePatches

import Grafted.Base.CStrings
import Grafted.Base.Interning
import Grafted.Base.X86

/-! Types by their mangled names, where there is no runtime.

The metadata of a name is made once and found again by its key: the bytes that are counted, or
those before the NUL, of which at most 256 are read. Names with a symbolic reference all have
one metadata. So the pointers are the same for names that are not (`symbolic_names_coincide`), and
when exactly is `pointer_eq_iff`. -/
namespace Grafted.Swift.MangledNames
open ByteMemory PartialMaps Interning Transition Transition.System
open X86 (readBytes)

/-- A call, with the memory that its name is in and the block that the allocator gives if it
is asked. -/
structure Call where
  memory : Memory
  mangledName : Address
  mangledNameLength : Nat
  raw : Address

/-- `while *p != 0 && v.len() < 256`, with so many bytes to go. -/
def untilNul (m : Memory) (p : Address) : Nat → List Byte
  | 0 => []
  | n + 1 => if m p = 0 then [] else m p :: untilNul m (p + 1) n

def key (c : Call) : List Byte :=
  if c.mangledName ≠ 0 ∧ 0 < c.mangledNameLength then
    readBytes c.memory c.mangledName c.mangledNameLength
  else if c.mangledName ≠ 0 then untilNul c.memory c.mangledName 256
  else [0]

def hasSymbolicRef (key : List Byte) : Bool := key.any fun b => 0x01 ≤ b && b ≤ 0x1F

/-- The cache, and the metadata for all names with symbolic references. -/
structure Cache where
  map : List Byte → Option Address
  swiftui : Option Address

def Cache.empty : Cache := ⟨fun _ => none, none⟩

/-- There are 64 bytes for negative offsets before the metadata. -/
def metadata (c : Call) : Address := c.raw + 64

def createSwiftuiCompatibleMetadata (s : Cache) (c : Call) : Cache × Address :=
  match s.swiftui with
  | some ptr => (s, ptr)
  | none => ({s with swiftui := some (metadata c)}, metadata c)

def swiftGetTypeByMangledName (s : Cache) (c : Call) : Cache × Address :=
  if hasSymbolicRef (key c) then createSwiftuiCompatibleMetadata s c
  else
    match s.map (key c) with
    | some ptr => (s, ptr)
    | none => ({s with map := insertAt s.map (key c) (metadata c)}, metadata c)

def fallback : System Cache Call Address := ⟨swiftGetTypeByMangledName⟩

/-- What a call asks for: the key, or nothing where that has a symbolic reference. -/
def asked (c : Call) : Option (List Byte) := if hasSymbolicRef (key c) then none else some (key c)

/-- Both as one table. -/
def Cache.look (s : Cache) : Option (List Byte) → Option Address
  | none => s.swiftui
  | some key => s.map key

/-- A block that is allocated is none of those before. -/
def FreshBlock (e : Event Cache Call Address) : Prop :=
  e.before.look (asked e.action) = none → ∀ k, e.before.look k ≠ some (metadata e.action)

/-! ### Keys -/

/-- The name up to its NUL, and no more than 256 bytes of it. -/
theorem untilNul_cString {m : Memory} {p : Address} {name : List Byte} (h : m.CString p name)
    (n : Nat) : untilNul m p n = name.take n := by
  induction n generalizing p name with
  | zero => rfl
  | succ n ih =>
    cases name with
    | nil => exact if_pos h
    | cons b rest =>
      obtain ⟨hb, hfirst, hrest⟩ := h
      rw [untilNul, hfirst, if_neg hb, ih hrest, List.take_succ_cons]

theorem key_cString {c : Call} {name : List Byte} (hname : c.mangledName ≠ 0)
    (hlength : c.mangledNameLength = 0) (h : c.memory.CString c.mangledName name) :
    key c = name.take 256 := by
  have hcounted : ¬(c.mangledName ≠ 0 ∧ 0 < c.mangledNameLength) := by
    rw [hlength]
    exact fun hboth => Nat.lt_irrefl 0 hboth.2
  rw [key, if_neg hcounted, if_pos hname, untilNul_cString h]

theorem asked_eq_iff (c c' : Call) : asked c = asked c' ↔
    (hasSymbolicRef (key c) = true ∧ hasSymbolicRef (key c') = true) ∨
      (hasSymbolicRef (key c) = false ∧ hasSymbolicRef (key c') = false ∧ key c = key c') := by
  unfold asked
  cases hasSymbolicRef (key c) <;> cases hasSymbolicRef (key c') <;> simp

/-! ### The cache -/

/-- Both calls of the allocator put their block into the one table. -/
theorem look_swiftui (s : Cache) (ptr : Address) :
    Cache.look {s with swiftui := some ptr} = insertAt s.look none ptr := by
  funext k
  cases k with
  | none => rw [insertAt_self, Cache.look]
  | some key => rw [insertAt_of_ne _ _ (Option.some_ne_none key), Cache.look, Cache.look]

theorem look_map (s : Cache) (key : List Byte) (ptr : Address) :
    Cache.look {s with map := insertAt s.map key ptr} = insertAt s.look (some key) ptr := by
  funext k
  cases k with
  | none => rw [insertAt_of_ne _ _ (Option.some_ne_none key).symm, Cache.look, Cache.look]
  | some key' =>
    show insertAt s.map key ptr key' = _
    by_cases h : key' = key
    · rw [h, insertAt_self, insertAt_self]
    · have hsome : some key' ≠ some key := fun heq => h (Option.some.inj heq)
      rw [insertAt_of_ne _ _ h, insertAt_of_ne _ _ hsome, Cache.look]

/-- A pointer that is there is answered, and one that is not is put there. -/
theorem step_cases (s : Cache) (c : Call) :
    (s.look (asked c) = none ∧ (fallback.step s c).2 = metadata c ∧
      (fallback.step s c).1.look = insertAt s.look (asked c) (metadata c)) ∨
    (s.look (asked c) = some (fallback.step s c).2 ∧ (fallback.step s c).1 = s) := by
  show (_ ∧ (swiftGetTypeByMangledName s c).2 = _ ∧ (swiftGetTypeByMangledName s c).1.look = _) ∨
    (_ = some (swiftGetTypeByMangledName s c).2 ∧ (swiftGetTypeByMangledName s c).1 = s)
  unfold swiftGetTypeByMangledName asked
  cases hsymbolic : hasSymbolicRef (key c) with
  | true =>
    simp only [if_true]
    unfold createSwiftuiCompatibleMetadata
    cases hptr : s.swiftui with
    | none => exact .inl ⟨hptr, rfl, look_swiftui s (metadata c)⟩
    | some ptr => exact .inr ⟨hptr, rfl⟩
  | false =>
    simp only [Bool.false_eq_true, if_false]
    cases hptr : s.map (key c) with
    | none => exact .inl ⟨hptr, rfl, look_map s (key c) (metadata c)⟩
    | some ptr => exact .inr ⟨hptr, rfl⟩

theorem interns : Interns fallback asked Cache.look := by
  constructor
  · intro s c
    rcases step_cases s c with ⟨-, hanswer, hafter⟩ | ⟨hfound, hsame⟩
    · rw [hafter, hanswer, insertAt_self]
    · rw [hsame]
      exact hfound
  · intro s c k ptr hk
    rcases step_cases s c with ⟨hnone, -, hafter⟩ | ⟨-, hsame⟩
    · rw [hafter]
      refine insertAt_eq_some.mpr (.inr ⟨fun heq => ?_, hk⟩)
      rw [heq, hnone] at hk
      exact nomatch hk
    · rw [hsame]
      exact hk
  · intro s c k ptr hk
    rcases step_cases s c with ⟨hnone, hanswer, hafter⟩ | ⟨-, hsame⟩
    · rw [hafter] at hk
      rcases insertAt_eq_some.mp hk with ⟨rfl, rfl⟩ | ⟨-, hold⟩
      · exact .inr ⟨rfl, hanswer.symm, hnone⟩
      · exact .inl hold
    · rw [hsame] at hk
      exact .inl hk

/-- What is answered for the first time is the block that was allocated. -/
theorem new_of_fresh {s : Cache} {c : Call} (h : FreshBlock (fallback.event s c)) :
    New asked Cache.look (fallback.event s c) := by
  intro hnone k
  rcases step_cases s c with ⟨-, hanswer, -⟩ | ⟨hfound, -⟩
  · show s.look k ≠ some (fallback.step s c).2
    rw [hanswer]
    exact h hnone k
  · have hmiss : s.look (asked c) = none := hnone
    rw [hmiss] at hfound
    exact nomatch hfound

theorem oneToOne_empty : OneToOne Cache.empty.look := by
  intro k k' ptr hk
  cases k with
  | none => exact nomatch hk
  | some key => exact nomatch hk

/-- In any run two calls give the same pointer exactly when both their keys have a symbolic
reference, or neither has and the keys are the same. -/
theorem pointer_eq_iff {calls : List Call} (hfresh : fallback.Along FreshBlock .empty calls)
    {e e' : Event Cache Call Address} (he : e ∈ fallback.events .empty calls)
    (he' : e' ∈ fallback.events .empty calls) :
    e.answer = e'.answer ↔
      (hasSymbolicRef (key e.action) = true ∧ hasSymbolicRef (key e'.action) = true) ∨
        (hasSymbolicRef (key e.action) = false ∧ hasSymbolicRef (key e'.action) = false ∧
          key e.action = key e'.action) := by
  have hnew := Along.imp (fun _ _ h => new_of_fresh h) hfresh
  rw [← asked_eq_iff]
  exact interns.answers_eq_iff oneToOne_empty hnew he he'

/-! ### Names -/

/-- A name of two bytes that is counted. -/
def counted (first second : Byte) (raw : Address) : Call :=
  ⟨fun x => if x = 0x1000 then first else second, 0x1000, 2, raw⟩

/-- Two calls, the second after the first. -/
def firstCall (c : Call) : Event Cache Call Address := fallback.event .empty c

def secondCall (c c' : Call) : Event Cache Call Address :=
  fallback.event (fallback.step .empty c).1 c'

theorem events_two (c c' : Call) :
    fallback.events .empty [c, c'] = [firstCall c, secondCall c c'] := rfl

/-- The second call does not allocate. -/
theorem fresh_two {c c' : Call} (h : (fallback.step .empty c).1.look (asked c') ≠ none) :
    fallback.Along FreshBlock .empty [c, c'] := by
  refine along_cons.mpr ⟨fun _ k => ?_, along_cons.mpr ⟨fun hnone => absurd hnone h, along_nil _ _⟩⟩
  cases k with
  | none => exact Option.some_ne_none _ ∘ Eq.symm
  | some key => exact Option.some_ne_none _ ∘ Eq.symm

/-- `"ab"`, and `"ab"` again. -/
theorem plain_name_again :
    (firstCall (counted 0x61 0x62 0x5000)).answer =
        (secondCall (counted 0x61 0x62 0x5000) (counted 0x61 0x62 0x6000)).answer ↔
      (hasSymbolicRef (key (counted 0x61 0x62 0x5000)) = true ∧
          hasSymbolicRef (key (counted 0x61 0x62 0x6000)) = true) ∨
        (hasSymbolicRef (key (counted 0x61 0x62 0x5000)) = false ∧
          hasSymbolicRef (key (counted 0x61 0x62 0x6000)) = false ∧
          key (counted 0x61 0x62 0x5000) = key (counted 0x61 0x62 0x6000)) := by
  have hfresh : fallback.Along FreshBlock .empty
      [counted 0x61 0x62 0x5000, counted 0x61 0x62 0x6000] := fresh_two (by decide)
  refine pointer_eq_iff hfresh ?_ ?_
  · rw [events_two]
    exact List.mem_cons_self
  · rw [events_two]
    exact List.mem_cons_of_mem _ List.mem_cons_self

/-- Two names with references to different types have one pointer. -/
theorem symbolic_names_coincide :
    fallback.Along FreshBlock .empty [counted 0x01 0x61 0x5000, counted 0x01 0x62 0x6000] ∧
      (firstCall (counted 0x01 0x61 0x5000)).answer =
        (secondCall (counted 0x01 0x61 0x5000) (counted 0x01 0x62 0x6000)).answer ∧
      key (counted 0x01 0x61 0x5000) ≠ key (counted 0x01 0x62 0x6000) :=
  ⟨fresh_two (by decide), by decide, by decide⟩

end Grafted.Swift.MangledNames

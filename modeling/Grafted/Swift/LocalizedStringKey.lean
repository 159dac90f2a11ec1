import Grafted.Swift.Strings

/-! The bridge for `LocalizedStringKey.init(stringLiteral:)`.

A call gives the string in the first two registers, or a buffer for the result in the first and
the string after it. Which it is is guessed from tag bits. Of the second kind of call the guess
looks at the first word of the string, which is text, and it is right exactly when the
eighth byte there has bit 6 clear (`bridge_iff`). -/
namespace Grafted.Swift.LocalizedStringKey
open ByteMemory PackedBytes Strings
open Cf.Strings (Heap)

/-- What a call did: the string that it translated, the words that it stored, and what it
returned in `rax` and `rdx`. -/
structure Outcome where
  translated : DarwinString
  stores : List (Address × Word)
  returned : BitVec 128

/-- The string, and where the result is to go. -/
def layout (rdi rsi rdx : Word) : DarwinString × Option Address :=
  if rsi >>> 60 = 0xE ∨ ((rsi >>> 62) &&& 1 = 1 ∧ 0x1000 < rdi) then (⟨rdi, rsi⟩, none)
  else if rdx >>> 60 = 0xE ∨ ((rdx >>> 62) &&& 1 = 1 ∧ 0x1000 < rsi) then (⟨rsi, rdx⟩, some rdi)
  else (⟨rdi, rsi⟩, none)

/-- `real` is the initializer of the Linux runtime, if there is one. -/
def bridge (h : Heap) (real : Option (LinuxString → LinuxString)) (rdi rsi rdx : Word) :
    Option Outcome :=
  let (ds, resultPtr) := layout rdi rsi rdx
  (ds.toLinuxString h).map fun ls =>
    match real, resultPtr with
    | some f, some ptr =>
      ⟨ds, [(ptr, (f ls).word0), (ptr + 8, (f ls).word1)], ptr.setWidth 128⟩
    | some f, none => ⟨ds, [], (f ls).word0.setWidth 128 ||| (f ls).word1.setWidth 128 <<< 64⟩
    | none, _ => ⟨ds, [], rdi.setWidth 128⟩

/-- Called with a buffer, it translates the string and writes the result there. -/
def Indirect (h : Heap) (real : Option (LinuxString → LinuxString)) (buffer : Address)
    (s : DarwinString) : Prop :=
  ∃ f ls returned, real = some f ∧ s.toLinuxString h = some ls ∧
    bridge h real buffer s.word0 s.word1 =
      some ⟨s, [(buffer, (f ls).word0), (buffer + 8, (f ls).word1)], returned⟩

/-- Called without one, it translates the string and writes nothing. -/
def Direct (h : Heap) (real : Option (LinuxString → LinuxString)) (s : DarwinString) : Prop :=
  ∀ rdx, ∃ returned, bridge h real s.word0 s.word1 rdx = some ⟨s, [], returned⟩

/-! ### The tag bits -/

/-- The tag of a bridged string is bit 6 of the eighth byte. -/
theorem bridged_bit (w : Word) : (w >>> 62) &&& 1 = 1 ↔ (byteAt w 7).getLsbD 6 = true := by
  have hbit : (byteAt w 7).getLsbD 6 = w.getLsbD 62 := getLsbD_byteAt w 7 6
  have hone : (w >>> 62) &&& 1 = BitVec.setWidth 64 (BitVec.ofBool (w.getLsbD 62)) := by
    rw [← BitVec.getLsbD_ushiftRight w 62 0]
    exact BitVec.and_one_eq_setWidth_ofBool_getLsbD
  rw [hbit, hone]
  cases w.getLsbD 62 <;> decide

/-- The tag of a small string has it set. -/
theorem bit_of_small {w : Word} (h : w >>> 60 = 0xE) : (byteAt w 7).getLsbD 6 = true := by
  have hbit : (byteAt w 7).getLsbD 6 = w.getLsbD 62 := getLsbD_byteAt w 7 6
  rw [hbit, ← BitVec.getLsbD_ushiftRight w 60 2, h]
  rfl

theorem layout_direct {s : DarwinString} (hs : s.isSmall) (rdx : Word) :
    layout s.word0 s.word1 rdx = (s, none) := if_pos (.inl hs)

/-- The text has no bit where the tag is looked for. -/
theorem layout_indirect {buffer : Address} {s : DarwinString} (hs : s.isSmall)
    (hclear : (byteAt s.word0 7).getLsbD 6 = false) :
    layout buffer s.word0 s.word1 = (s, some buffer) := by
  have hbit : ¬(byteAt s.word0 7).getLsbD 6 = true := by
    rw [hclear]
    exact Bool.false_ne_true
  have hfirst : ¬(s.word0 >>> 60 = 0xE ∨ ((s.word0 >>> 62) &&& 1 = 1 ∧ 0x1000 < buffer)) := by
    rintro (hsmall | ⟨hbridged, -⟩)
    · exact hbit (bit_of_small hsmall)
    · exact hbit ((bridged_bit s.word0).mp hbridged)
  rw [layout, if_neg hfirst, if_pos (.inl hs)]

/-- The buffer is taken for the pointer of a bridged string, or for text. -/
theorem layout_misread {buffer : Address} (hbuffer : 0x1000 < buffer) {w0 : Word}
    (hset : (byteAt w0 7).getLsbD 6 = true) (w1 : Word) :
    layout buffer w0 w1 = (⟨buffer, w0⟩, none) :=
  if_pos (.inr ⟨(bridged_bit w0).mpr hset, hbuffer⟩)

/-! ### Calls -/

theorem direct_small (h : Heap) (real : Option (LinuxString → LinuxString)) {s : DarwinString}
    (hs : s.isSmall) : Direct h real s := by
  intro rdx
  rw [bridge, layout_direct hs]
  simp only [toLinuxString_small hs, Option.map_some]
  cases real with
  | none => exact ⟨_, rfl⟩
  | some f => exact ⟨_, rfl⟩

theorem indirect_clear (h : Heap) (f : LinuxString → LinuxString) (buffer : Address)
    {s : DarwinString} (hs : s.isSmall) (hclear : (byteAt s.word0 7).getLsbD 6 = false) :
    Indirect h (some f) buffer s := by
  refine ⟨f, _, buffer.setWidth 128, rfl, toLinuxString_small hs, ?_⟩
  rw [bridge, layout_indirect hs hclear]
  simp only [toLinuxString_small hs, Option.map_some]

/-- Nothing is written, whatever was translated. -/
theorem stores_misread (h : Heap) (real : Option (LinuxString → LinuxString)) {buffer : Address}
    (hbuffer : 0x1000 < buffer) {w0 : Word} (hset : (byteAt w0 7).getLsbD 6 = true) (w1 : Word)
    {outcome : Outcome} (hcall : bridge h real buffer w0 w1 = some outcome) :
    outcome.stores = [] := by
  rw [bridge, layout_misread hbuffer hset] at hcall
  obtain ⟨ls, -, rfl⟩ := Option.map_eq_some_iff.mp hcall
  cases real with
  | none => rfl
  | some f => rfl

/-- Both kinds of call do what they should exactly when there is an initializer, and the
eighth byte of the first word has bit 6 clear. -/
theorem bridge_iff (h : Heap) (real : Option (LinuxString → LinuxString)) {buffer : Address}
    (hbuffer : 0x1000 < buffer) {s : DarwinString} (hs : s.isSmall) :
    Indirect h real buffer s ∧ Direct h real s ↔
      real.isSome ∧ (byteAt s.word0 7).getLsbD 6 = false := by
  constructor
  · rintro ⟨⟨f, ls, returned, rfl, -, hcall⟩, -⟩
    refine ⟨rfl, Bool.eq_false_iff.mpr fun hset => ?_⟩
    exact nomatch stores_misread h (some f) hbuffer hset s.word1 hcall
  · rintro ⟨hreal, hclear⟩
    obtain ⟨f, rfl⟩ := Option.isSome_iff_exists.mp hreal
    exact ⟨indirect_clear h f buffer hs hclear, direct_small h (some f) hs⟩

/-- `"hello"`. -/
def hello : DarwinString := ⟨0x6f6c6c6568, 0xe500000000000000⟩

theorem bridge_hello :
    Indirect (fun _ => none) (some id) 0x2000 hello ∧ Direct (fun _ => none) (some id) hello :=
  (bridge_iff _ _ (by decide) (by decide)).mpr (by decide)

/-- `"hello world"`, whose eighth byte is a letter. -/
def helloWorld : DarwinString := ⟨0x6f77206f6c6c6568, 0xeb00000000646c72⟩

theorem helloWorld_misread :
    ¬(Indirect (fun _ => none) (some id) 0x2000 helloWorld ∧
      Direct (fun _ => none) (some id) helloWorld) := by
  rintro ⟨⟨f, ls, returned, -, -, hcall⟩, -⟩
  have hset : (byteAt helloWorld.word0 7).getLsbD 6 = true := by
    decide
  have hbuffer : (0x1000 : Address) < 0x2000 := by
    decide
  exact nomatch stores_misread _ (some id) hbuffer hset helloWorld.word1 hcall

end Grafted.Swift.LocalizedStringKey

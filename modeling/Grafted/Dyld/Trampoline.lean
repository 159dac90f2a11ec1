import Grafted.Base.X86

/-! The code around a libc function.

`gen_trampoline` saves the integer argument registers, calls a function that sets the
selector, restores them and jumps to its target. Whatever that function does within
the ABI, the target finds the stack and these registers as the caller left them. The
vector registers it finds as that function left them (`transparent_iff`). -/
namespace Grafted.Dyld.Trampoline
open ByteMemory X86

/-! ### The source -/

/-- The bytes that are written. `afn` is `grafted_selector_allow`. -/
def genTrampoline (afn target : Address) : List Byte :=
  [0x50, 0x57, 0x56, 0x52, 0x51, 0x41, 0x50, 0x41, 0x51] ++
    ([0x48, 0xb8] ++ bytesLE afn.toNat 8) ++ [0xff, 0xd0] ++
    [0x41, 0x59, 0x41, 0x58, 0x59, 0x5a, 0x5e, 0x5f, 0x58] ++
    ([0x49, 0xbb] ++ bytesLE target.toNat 8) ++ [0x41, 0xff, 0xe3]

/-- In the order they are pushed. -/
def saved : List Reg := [.rax, .rdi, .rsi, .rdx, .rcx, .r8, .r9]

/-- What the bytes are. -/
theorem genTrampoline_eq (afn target : Address) : genTrampoline afn target =
    pushes saved ++ (encode (.movImm .rax afn) ++ (encode (.call .rax) ++
      (pops saved ++ (encode (.movImm .r11 target) ++ encode (.jmp .r11))))) := by
  simp only [genTrampoline, List.append_assoc]
  rfl

theorem genTrampoline_length (afn target : Address) : (genTrampoline afn target).length = 43 := by
  simp [genTrampoline, length_bytesLE]

/-! ### What is asked of it -/

/-- The caller's stack, `extent` bytes of it, is as it was, and so are the argument
registers. -/
structure Transparent (extent : Nat) (s s' : Cpu) : Prop where
  rsp : s'.reg .rsp = s.reg .rsp
  stack : ∀ x, Within (s.reg .rsp) extent x → s'.memory x = s.memory x
  args : ∀ r ∈ [Reg.rdi, .rsi, .rdx, .rcx, .r8, .r9], s'.reg r = s.reg r
  al : (s'.reg .rax).setWidth 8 = (s.reg .rax).setWidth 8
  xmm : ∀ i : Fin 16, i < 8 → s'.xmm i = s.xmm i

/-- What is not the callee's to write: the stack above its return address, and the
trampoline. -/
def Kept (extent : Nat) (s : Cpu) (x : Address) : Prop :=
  Within (s.reg .rsp - 56) (56 + extent) x ∨ Within s.rip 43 x

/-! ### The two halves -/

/-- At the entry of the function that is called. -/
structure Entered (afn : Address) (s s₁ : Cpu) : Prop where
  rip : s₁.rip = afn
  rsp : s₁.reg .rsp = s.reg .rsp - 64
  back : s₁.memory.readWord (s₁.reg .rsp) = s.rip + 21
  xmm : s₁.xmm = s.xmm
  memory : ∀ x, ¬ Within (s.reg .rsp - 64) 64 x → s₁.memory x = s.memory x
  stacked : Stacked s.reg s₁.memory saved (s.reg .rsp)

/-- Where each part of the code is. -/
structure Parts (afn target : Address) (m : Memory) (a : Address) : Prop where
  pushes : CodeAt m a (pushes saved)
  movAllow : CodeAt m (a + 9) (encode (.movImm .rax afn))
  call : CodeAt m (a + 19) (encode (.call .rax))
  pops : CodeAt m (a + 21) (pops saved)
  movTarget : CodeAt m (a + 30) (encode (.movImm .r11 target))
  jmp : CodeAt m (a + 40) (encode (.jmp .r11))

section Halves
variable {afn target : Address}

theorem parts {m : Memory} {a : Address} (hcode : CodeAt m a (genTrampoline afn target)) :
    Parts afn target m a := by
  rw [genTrampoline_eq] at hcode
  obtain ⟨hpushes, hcode⟩ := codeAt_append.mp hcode
  obtain ⟨hallow, hcode⟩ := codeAt_append.mp hcode
  obtain ⟨hcall, hcode⟩ := codeAt_append.mp hcode
  obtain ⟨hpops, hcode⟩ := codeAt_append.mp hcode
  obtain ⟨htarget, hjmp⟩ := codeAt_append.mp hcode
  have hsave : (X86.pushes saved).length = 9 ∧ (X86.pops saved).length = 9 := by decide
  have hcallLen : (encode (.call .rax)).length = 2 := rfl
  simp only [length_movImm, hsave.1, hsave.2, hcallLen] at hallow hcall hpops htarget hjmp
  refine ⟨hpushes, hallow, ?_, ?_, ?_, ?_⟩
  · convert hcall using 1
    bv_omega
  · convert hpops using 1
    bv_omega
  · convert htarget using 1
    bv_omega
  · convert hjmp using 1
    bv_omega

theorem runs_to_call {s : Cpu} (hcode : CodeAt s.memory s.rip (genTrampoline afn target))
    (hapart : ∀ x, Within s.rip 43 x → ¬ Within (s.reg .rsp - 64) 64 x) :
    ∃ s₁, run 9 s = some s₁ ∧ Entered afn s s₁ := by
  have hinside : ∀ x, Within (s.reg .rsp - 56) 56 x → Within (s.reg .rsp - 64) 64 x := by
    intro x hx
    simp only [Within] at hx ⊢
    bv_omega
  obtain ⟨s₁, hrun, h⟩ := run_pushes (by decide : Reg.rsp ∉ saved) (by decide) (parts hcode).pushes
    fun x hx hin => hapart x (hx.mono (by decide)) (hinside x hin)
  have hrsp : s₁.reg .rsp = s.reg .rsp - 56 := h.rsp
  have hrip : s₁.rip = s.rip + 9 := h.rip
  have hmemory : ∀ x, ¬ Within (s.reg .rsp - 64) 64 x → s₁.memory x = s.memory x := by
    intro x hx
    refine h.memory x fun hin => hx (hinside x ?_)
    rw [← hrsp]
    exact hin
  have hparts : Parts afn target s₁.memory s.rip := parts <| hcode.congr fun x hx =>
    hmemory x (hapart x (by rw [← genTrampoline_length afn target]; exact hx))
  have hmov : CodeAt s₁.memory s₁.rip (encode (.movImm .rax afn)) := by
    rw [hrip]
    exact hparts.movAllow
  obtain ⟨s₂, h₂, hrun₂⟩ := run_movImm hmov
  have hrip₂ : s₂.rip = s.rip + 19 := by
    rw [h₂.rip, hrip]
    bv_omega
  have hrsp₂ : s₂.reg .rsp = s.reg .rsp - 56 := by
    rw [h₂.reg .rsp (by decide), hrsp]
  have hcall : CodeAt s₂.memory s₂.rip (encode (.call .rax)) := by
    rw [hrip₂, h₂.memory]
    exact hparts.call
  obtain ⟨s₃, h₃, hrun₃⟩ := run_call hcall
  have hrsp₃ : s₃.reg .rsp = s.reg .rsp - 64 := by
    rw [h₃.rsp, hrsp₂]
    bv_omega
  have hmemory₃ : s₃.memory = s₁.memory.writeWord (s.reg .rsp - 64) (s.rip + 21) := by
    have hsp : s.reg .rsp - 56 - 8 = s.reg .rsp - 64 := by bv_omega
    have hlen : (encode (.call .rax)).length = 2 := rfl
    have hback : s.rip + 19 + BitVec.ofNat 64 2 = s.rip + 21 := by bv_omega
    rw [h₃.memory, h₂.memory, hrsp₂, hrip₂, hlen, hsp, hback]
  refine ⟨s₃, ?_, h₃.rip.trans h₂.self, hrsp₃, ?_, h₃.xmm.trans (h₂.xmm.trans h.xmm), ?_, ?_⟩
  · rw [show (9 : Nat) = saved.length + 2 from rfl, run_add, hrun]
    exact (hrun₂ 1).trans (hrun₃ 0)
  · rw [hmemory₃, hrsp₃, Memory.readWord_writeWord]
  · intro x hx
    rw [hmemory₃, Memory.writeWord_outside, hmemory x hx]
    exact Nat.le_of_not_lt fun hin => hx (Within.mono hin (by decide))
  · refine h.stacked.congr (by decide) (fun _ _ => rfl) fun x hx => ?_
    rw [hmemory₃]
    refine Memory.writeWord_outside _ _ ?_
    have hx : (x - (s.reg .rsp - 56)).toNat < 56 := hx
    bv_omega

/-- At the target, coming from a state `t` where the call has returned. -/
structure Arrived (target : Address) (s t s' : Cpu) : Prop where
  rip : s'.rip = target
  rsp : s'.reg .rsp = s.reg .rsp
  restored : ∀ r ∈ saved, s'.reg r = s.reg r
  xmm : s'.xmm = t.xmm
  /-- The selector too is as the call left it. -/
  memory : s'.memory = t.memory

theorem runs_to_target {s s₁ t : Cpu} {extent : Nat}
    (hcode : CodeAt s.memory s.rip (genTrampoline afn target))
    (hapart : ∀ x, Within s.rip 43 x → ¬ Within (s.reg .rsp - 64) 64 x)
    (h₁ : Entered afn s s₁) (h : Returned (Kept extent s) s₁ t) :
    ∃ s', run 9 t = some s' ∧ Arrived target s t s' := by
  have hrip : t.rip = s.rip + 21 := h.rip.trans h₁.back
  have hrsp : t.reg .rsp = s.reg .rsp - 56 := by
    rw [h.rsp, h₁.rsp]
    bv_omega
  have hparts : Parts afn target t.memory s.rip := parts <| hcode.congr fun x hx => by
    have hx : Within s.rip 43 x := by
      rw [← genTrampoline_length afn target]
      exact hx
    rw [h.memory x (.inr hx), h₁.memory x (hapart x hx)]
  have hstacked : Stacked s.reg t.memory saved (t.reg .rsp + BitVec.ofNat 64 (8 * saved.length)) := by
    have htop : t.reg .rsp + BitVec.ofNat 64 (8 * saved.length) = s.reg .rsp := by
      rw [hrsp]
      exact BitVec.sub_add_cancel _ _
    rw [htop]
    exact h₁.stacked.congr (by decide) (fun _ _ => rfl) fun x hx =>
      h.memory x (.inl (Within.mono hx (Nat.le_add_right 56 extent)))
  have hpops : CodeAt t.memory t.rip (pops saved) := by
    rw [hrip]
    exact hparts.pops
  obtain ⟨s₂, hrun, hpopped⟩ := run_pops (by decide : Reg.rsp ∉ saved) (by decide) hpops hstacked
  have hrip₂ : s₂.rip = s.rip + 30 := by
    have hadvance : s₂.rip = t.rip + 9 := hpopped.rip
    rw [hadvance, hrip]
    bv_omega
  have hmov : CodeAt s₂.memory s₂.rip (encode (.movImm .r11 target)) := by
    rw [hpopped.memory, hrip₂]
    exact hparts.movTarget
  obtain ⟨s₃, h₃, hrun₃⟩ := run_movImm hmov
  have hjmp : CodeAt s₃.memory s₃.rip (encode (.jmp .r11)) := by
    have hrip₃ : s₃.rip = s.rip + 40 := by
      rw [h₃.rip, hrip₂]
      bv_omega
    rw [h₃.memory, hpopped.memory, hrip₃]
    exact hparts.jmp
  refine ⟨s₃.goto (s₃.reg .r11), ?_, h₃.self, ?_, fun r hr => ?_, h₃.xmm.trans hpopped.xmm,
    h₃.memory.trans hpopped.memory⟩
  · rw [show (9 : Nat) = saved.length + 2 from rfl, run_add, hrun]
    exact (hrun₃ 1).trans (run_jmp hjmp 0)
  · rw [Cpu.goto_reg, h₃.reg .rsp (by decide), hpopped.rsp, hrsp]
    exact BitVec.sub_add_cancel _ _
  · have hne : r ≠ .r11 := by
      intro heq
      subst heq
      exact absurd hr (by decide)
    rw [Cpu.goto_reg, h₃.reg r hne, hpopped.popped r hr]

/-- **What the target finds.** The code calls `grafted_selector_allow` with the stack
aligned, and, however that function returns within the ABI, jumps to the target. The
caller's stack and argument registers are then as they were exactly if the function
has left the first eight vector registers alone. -/
theorem transparent_iff {s : Cpu} {extent : Nat}
    (hcode : CodeAt s.memory s.rip (genTrampoline afn target))
    (hapart : ∀ x, Within s.rip 43 x → ¬ Within (s.reg .rsp - 64) 64 x)
    (hextent : extent + 64 ≤ 2 ^ 64) :
    ∃ s₁, run 9 s = some s₁ ∧ s₁.rip = afn ∧ (AlignedEntry s → AlignedEntry s₁) ∧
      ∀ t, Returned (Kept extent s) s₁ t → ∃ s', run 9 t = some s' ∧ s'.rip = target ∧
        (Transparent extent s s' ↔ ∀ i : Fin 16, i < 8 → t.xmm i = s.xmm i) := by
  obtain ⟨s₁, hrun, h₁⟩ := runs_to_call hcode hapart
  refine ⟨s₁, hrun, h₁.rip, fun haligned => ?_, fun t ht => ?_⟩
  · rw [AlignedEntry, h₁.rsp]
    rw [AlignedEntry] at haligned
    bv_omega
  · obtain ⟨s', hrun', h'⟩ := runs_to_target hcode hapart h₁ ht
    refine ⟨s', hrun', h'.rip, ?_⟩
    constructor
    · intro h i hi
      rw [← h'.xmm]
      exact h.xmm i hi
    · intro hxmm
      refine ⟨h'.rsp, fun x hx => ?_, fun r hr => ?_, ?_, fun i hi => ?_⟩
      · have hkept : Within (s.reg .rsp - 56) (56 + extent) x := by
          simp only [Within] at hx ⊢
          bv_omega
        have habove : ¬ Within (s.reg .rsp - 64) 64 x := by
          simp only [Within] at hx ⊢
          bv_omega
        rw [h'.memory, ht.memory x (.inl hkept), h₁.memory x habove]
      · exact h'.restored r (by revert r; decide)
      · rw [h'.restored .rax (by decide)]
      · rw [h'.xmm]
        exact hxmm i hi

end Halves

/-- A function that only changes vector registers. -/
def returning (s : Cpu) (xmm : Fin 16 → BitVec 128) : Cpu :=
  {s.set .rsp (s.reg .rsp + 8) with rip := s.memory.readWord (s.reg .rsp), xmm := xmm}

theorem returning_returned (kept : Address → Prop) (s : Cpu) (xmm : Fin 16 → BitVec 128) :
    Returned kept s (returning s xmm) := by
  refine ⟨rfl, Cpu.set_reg_self s .rsp _, fun r hr => Cpu.set_reg_of_ne s _ ?_, fun _ _ => rfl⟩
  intro heq
  subst heq
  exact absurd hr (by unfold Reg.CalleeSaved; decide)

/-- A trampoline at 0x1000, called with the stack aligned. -/
def entry : Cpu where
  reg := fun r => if r = .rsp then 0x7ffffff8 else 0
  xmm := fun _ => 0
  flags := 0
  rip := 0x1000
  memory := fun x => (genTrampoline 0x5000 0x6000).getD (x - 0x1000).toNat 0

theorem entry_code : CodeAt entry.memory entry.rip (genTrampoline 0x5000 0x6000) := rfl

theorem entry_apart (x : Address) (hx : Within entry.rip 43 x) :
    ¬ Within (entry.reg .rsp - 64) 64 x := by
  have hrip : entry.rip = 0x1000 := rfl
  have hrsp : entry.reg .rsp = 0x7ffffff8 := rfl
  simp only [Within, hrip, hrsp] at hx ⊢
  bv_omega

theorem transparent_entry : ∃ s₁ s', run 9 entry = some s₁ ∧
    run 9 (returning s₁ entry.xmm) = some s' ∧ s'.rip = 0x6000 ∧ Transparent 4096 entry s' := by
  obtain ⟨s₁, hrun, -, -, hreturns⟩ := @transparent_iff 0x5000 0x6000 entry 4096 entry_code
    entry_apart (by decide)
  obtain ⟨s', hrun', hrip, hiff⟩ := hreturns _ (returning_returned _ s₁ entry.xmm)
  exact ⟨s₁, s', hrun, hrun', hrip, hiff.mpr fun _ _ => rfl⟩

/-- A vector register that the call changes is not restored. -/
theorem vector_argument_lost : ¬ ∀ {afn target : Address} {s : Cpu} {extent : Nat},
    CodeAt s.memory s.rip (genTrampoline afn target) →
    (∀ x, Within s.rip 43 x → ¬ Within (s.reg .rsp - 64) 64 x) → extent + 64 ≤ 2 ^ 64 →
    ∃ s₁, run 9 s = some s₁ ∧ s₁.rip = afn ∧ (AlignedEntry s → AlignedEntry s₁) ∧
      ∀ t, Returned (Kept extent s) s₁ t → ∃ s', run 9 t = some s' ∧ s'.rip = target ∧
        Transparent extent s s' := by
  intro h
  obtain ⟨s₁, hrun, -, -, hreturns⟩ := h entry_code entry_apart (by decide : 4096 + 64 ≤ 2 ^ 64)
  obtain ⟨s₂, hrun₂, h₂⟩ := runs_to_call entry_code entry_apart
  cases hrun.symm.trans hrun₂
  have hreturned := returning_returned (Kept 4096 entry) s₁ fun _ => 1
  obtain ⟨s', hrun', -, htransparent⟩ := hreturns _ hreturned
  obtain ⟨s'', hrun'', harrived⟩ := runs_to_target entry_code entry_apart h₂ hreturned
  cases hrun'.symm.trans hrun''
  have hxmm : s'.xmm 0 = 1 := by
    rw [harrived.xmm]
    rfl
  rw [htransparent.xmm 0 (by decide)] at hxmm
  exact absurd hxmm (by decide)

end Grafted.Dyld.Trampoline

import Grafted.Kernel.Device
import Grafted.Loader.Executor

/-! Mach traps: the handler of system calls with the kernel module under it.

The handler answers itself for the traps the module has an answer to, so what it asks the
module for is answered with a failure, whatever was trapped (`module_fails`). -/
namespace Grafted.Loader.MachTraps
open ByteMemory Traced Kernel Kernel.Device

section Handler
variable {σ : Type} (platform : Platform σ) (fd pid : BitVec 32)

/-- A platform whose descriptor `fd` is the device. The record of a trap is at an address of
the process's stack, and the state keeps the result of the last. -/
def withDevice (u : Ioctl.UserSpace) (a : Address) : Platform (σ × Word) where
  answer call s :=
    match call with
    | .machTrap fd' trapNr args =>
      if fd' = fd then
        match (machTrap pid u a ⟨trapNr, Vector.ofFn fun i => args[i.val]?.getD 0, 0⟩).2 with
        | .ok trap => (0, (s.1, trap.result))
        | .error e => (BitVec.ofInt 64 (-e), s)
      else ((platform.answer call s.1).1, ((platform.answer call s.1).2, s.2))
    | _ => ((platform.answer call s.1).1, ((platform.answer call s.1).2, s.2))
  trapResult := Prod.snd
  int := platform.int
  int_nonneg := platform.int_nonneg

/-- What the module answers a trap with. -/
theorem answer_withDevice {u : Ioctl.UserSpace} {a : Address} (h : u.Accessible a 64)
    (trapNr : BitVec 32) (args : List Word) (s : σ × Word) :
    (withDevice platform fd pid u a).answer (.machTrap fd trapNr args) s =
      (0, (s.1, dispatchMachTrap pid trapNr.toNat)) := by
  obtain ⟨hanswer, -⟩ := machTrap_answered pid h
    ⟨trapNr, Vector.ofFn fun i => args[i.val]?.getD 0, 0⟩
  simp only [withDevice, if_true, hanswer]

/-- The handler's own traps. -/
def own (trapNr : BitVec 32) : Bool :=
  trapNr = 26 || trapNr = 27 || trapNr = 28 || trapNr = 14

theorem toNat_ne {trapNr : BitVec 32} {n : Nat} (hn : n < 2 ^ 32)
    (h : trapNr ≠ BitVec.ofNat 32 n) : trapNr.toNat ≠ n := by
  intro heq
  refine h (BitVec.eq_of_toNat_eq ?_)
  rw [heq, BitVec.toNat_ofNat, Nat.mod_eq_of_lt hn]

/-- A trap that is not the handler's own. -/
theorem toNat_of_own {trapNr : BitVec 32} (h : own trapNr = false) :
    trapNr.toNat ≠ 26 ∧ trapNr.toNat ≠ 27 ∧ trapNr.toNat ≠ 28 ∧ trapNr.toNat ≠ 14 := by
  simp only [own, Bool.or_eq_false_iff, decide_eq_false_iff_not] at h
  obtain ⟨⟨⟨h26, h27⟩, h28⟩, h14⟩ := h
  exact ⟨toNat_ne (by decide) h26, toNat_ne (by decide) h27, toNat_ne (by decide) h28,
    toNat_ne (by decide) h14⟩

theorem dispatchMachTrap_other {trapNr : BitVec 32} (h : own trapNr = false) :
    dispatchMachTrap pid trapNr.toNat = -1 := by
  obtain ⟨h26, h27, h28, -⟩ := toNat_of_own h
  unfold dispatchMachTrap
  split
  · contradiction
  · contradiction
  · contradiction
  · rfl

/-- The call of the module in the last arm. -/
def askModule (trapNr : BitVec 32) (args : Args) : Linux σ (Option Word) := do
  let res ← libc platform (.machTrap fd trapNr args.toList)
  let result ← read fun thread => platform.trapResult thread.kernel
  pure (some (if res = -1 then -38 else result))

theorem askModule_trace (trapNr : BitVec 32) (args : Args) (thread : ThreadState σ) :
    (askModule platform fd trapNr args thread).trace = [.machTrap fd trapNr args.toList] := by
  simp only [askModule, bind_apply, libc_trace]
  rfl

/-- The thread gets the module's result. -/
theorem askModule_value {u : Ioctl.UserSpace} {a : Address} (h : u.Accessible a 64)
    (trapNr : BitVec 32) (args : Args) (thread : ThreadState (σ × Word)) :
    (askModule (withDevice platform fd pid u a) fd trapNr args thread).value =
      some (dispatchMachTrap pid trapNr.toNat) := by
  have hanswer := answer_withDevice platform fd pid h trapNr args.toList thread.kernel
  have hsyscall :
      syscall (withDevice platform fd pid u a) (.machTrap fd trapNr args.toList) thread =
      ⟨0, {thread with kernel := (thread.kernel.1, dispatchMachTrap pid trapNr.toNat)},
        [.machTrap fd trapNr args.toList]⟩ := by
    have hany (platform : Platform (σ × Word)) (call : SystemCall) : syscall platform call thread =
        ⟨(platform.answer call thread.kernel).1,
          {thread with kernel := (platform.answer call thread.kernel).2}, [call]⟩ := rfl
    rw [hany, hanswer]
  have hlibc : libc (withDevice platform fd pid u a) (.machTrap fd trapNr args.toList) thread =
      ⟨0, {thread with kernel := (thread.kernel.1, dispatchMachTrap pid trapNr.toNat)},
        [.machTrap fd trapNr args.toList]⟩ := by
    have herr : isErr 0 = false := by decide
    simp only [libc, bind_apply, hsyscall, herr, Bool.false_eq_true, if_false, pure_apply,
      List.append_nil]
  simp only [askModule, bind_apply, hlibc]
  rfl

theorem processMachTrap_other {trapNr : BitVec 32} (h : own trapNr = false) (args : Args) :
    processMachTrap platform trapNr args fd =
      if fd.toInt < 0 then pure (some (-38)) else askModule platform fd trapNr args := by
  obtain ⟨h26, h27, h28, h14⟩ := toNat_of_own h
  unfold processMachTrap
  split
  · contradiction
  · contradiction
  · contradiction
  · contradiction
  · rfl

theorem processUnix_asks (darwinNr : BitVec 32) (linuxNr : Int) (args : Args)
    (thread : ThreadState σ) {call : SystemCall}
    (h : call ∈ (processUnix platform darwinNr linuxNr args thread).trace) :
    ∃ nr as, call = .linux nr as := by
  unfold processUnix at h
  split_ifs at h
  · exact ⟨_, _, List.mem_singleton.mp h⟩
  · cases hargs : linuxArgs darwinNr args with
    | inl answer =>
      rw [hargs] at h
      exact nomatch h
    | inr a =>
      rw [hargs] at h
      exact ⟨_, _, List.mem_singleton.mp h⟩

theorem processUnknown_asks (raw : Word) (args : Args) (thread : ThreadState σ)
    {call : SystemCall} (h : call ∈ (processUnknown platform raw args thread).trace) :
    (∃ nr as, call = .linux nr as) ∨ ∃ text, call = .message text := by
  unfold processUnknown at h
  split_ifs at h
  · exact .inl ⟨_, _, List.mem_singleton.mp h⟩
  · simp only [bind_apply, message_trace, pure_apply, List.append_nil] at h
    exact .inr ⟨_, List.mem_singleton.mp h⟩

theorem processVmProtect_asks (args : Args) (thread : ThreadState σ) {call : SystemCall}
    (h : call ∈ (processVmProtect platform args thread).trace) : ∃ nr as, call = .linux nr as := by
  unfold processVmProtect at h
  dsimp only at h
  split_ifs at h
  · exact nomatch h
  · simp only [bind_apply, mprotect_trace, pure_apply, List.append_nil] at h
    exact ⟨_, _, List.mem_singleton.mp h⟩

/-- The handler asks the module for traps it does not know, and for one at most. -/
theorem processMachTrap_asks {u : Ioctl.UserSpace} {a : Address} (h : u.Accessible a 64)
    (trapNr : BitVec 32) (args : Args) (thread : ThreadState (σ × Word)) {trapNr' fd' : BitVec 32}
    {as : List Word} (hcall : SystemCall.machTrap fd' trapNr' as ∈
      (processMachTrap (withDevice platform fd pid u a) trapNr args fd thread).trace) :
    own trapNr' = false ∧
      (processMachTrap (withDevice platform fd pid u a) trapNr args fd thread).value =
        some (-1) := by
  cases hown : own trapNr with
  | true =>
    simp only [own, Bool.or_eq_true, decide_eq_true_iff] at hown
    obtain ((rfl | rfl) | rfl) | rfl := hown
    · exact nomatch hcall
    · exact nomatch hcall
    · exact nomatch hcall
    · obtain ⟨nr, as', heq⟩ := processVmProtect_asks _ args thread hcall
      exact nomatch heq
  | false =>
    rw [processMachTrap_other _ fd hown] at hcall ⊢
    split_ifs at hcall ⊢ with hfd
    · exact nomatch hcall
    · rw [askModule_trace] at hcall
      obtain ⟨-, rfl, -⟩ := SystemCall.machTrap.inj (List.mem_singleton.mp hcall)
      refine ⟨hown, ?_⟩
      rw [askModule_value platform fd pid h, dispatchMachTrap_other pid hown]

/-- Whatever a thread traps with, what the module is asked for is a trap it has no answer to,
and the thread gets its failure. -/
theorem module_fails {u : Ioctl.UserSpace} {a : Address} (h : u.Accessible a 64) (raw : Word)
    (args : Args) (thread : ThreadState (σ × Word)) {trapNr fd' : BitVec 32} {as : List Word}
    (hcall : SystemCall.machTrap fd' trapNr as ∈
      (processSyscall (withDevice platform fd pid u a) raw args fd thread).trace) :
    dispatchMachTrap pid trapNr.toNat = -1 ∧
      (processSyscall (withDevice platform fd pid u a) raw args fd thread).value = some (-1) := by
  unfold processSyscall at hcall ⊢
  cases hraw : Kernel.translate raw with
  | unix darwinNr linuxNr =>
    rw [hraw] at hcall
    dsimp only at hcall
    split_ifs at hcall
    · obtain ⟨nr, as', heq⟩ := processUnix_asks _ darwinNr linuxNr args thread hcall
      exact nomatch heq
    · exact nomatch hcall
  | machTrap trapNr' =>
    rw [hraw] at hcall
    obtain ⟨hown, hvalue⟩ := processMachTrap_asks platform fd pid h trapNr' args thread hcall
    exact ⟨dispatchMachTrap_other pid hown, hvalue⟩
  | unknown raw' =>
    rw [hraw] at hcall
    obtain ⟨nr, as', heq⟩ | ⟨text, heq⟩ := processUnknown_asks _ raw' args thread hcall
    · exact nomatch heq
    · exact nomatch heq

end Handler

/-- Nothing but the device. -/
def silent : Platform Unit :=
  ⟨fun _ s => (0, s), fun _ => 0, fun x => x.setWidth 64, fun _ _ => rfl⟩

/-- Trap 31 of process 5. -/
theorem module_fails_silent :
    dispatchMachTrap 5 (BitVec.toNat (31 : BitVec 32)) = -1 ∧
      (processSyscall (withDevice silent 3 5 wholeMemory 0x7000) 0x100001f ⟨1, 2, 3, 4, 5, 6⟩ 3
        ⟨((), 0), 0⟩).value = some (-1) := by
  have hown : own 31 = false := by decide
  have htranslate : Kernel.translate 0x100001f = .machTrap 31 := rfl
  have hcall : SystemCall.machTrap 3 31 [1, 2, 3, 4, 5, 6] ∈
      (processSyscall (withDevice silent 3 5 wholeMemory 0x7000) 0x100001f ⟨1, 2, 3, 4, 5, 6⟩ 3
        ⟨((), 0), 0⟩).trace := by
    unfold processSyscall
    rw [htranslate]
    dsimp only
    rw [processMachTrap_other _ 3 hown, if_neg (by decide), askModule_trace]
    exact List.mem_singleton.mpr rfl
  exact module_fails silent 3 5 (fun _ _ => ⟨rfl, rfl⟩) 0x100001f ⟨1, 2, 3, 4, 5, 6⟩ ⟨((), 0), 0⟩
    hcall

end Grafted.Loader.MachTraps

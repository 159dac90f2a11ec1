import Grafted.Dyld.Shims
import Grafted.Loader.Executor

/-! One request by two paths.

A Darwin program asks for something with a trapped system call or with a call of the
library function. The two paths translate numbers and flags apart from each other,
so they do the same under a condition of its own for each request (`Alike`): always
for `getuid`, never for the three after it, and for the others on the bits that only
one path looks at. An argument is a register; a function takes the lower half of it
for an `int`. -/
namespace Grafted.Dyld.Shims
open ByteMemory Traced Kernel Loader

/-! ### Requests -/

/-- What both paths implement. -/
inductive Request where
  | open
  | mmap
  | mprotect
  | machVmProtect
  | getuid
  | geteuid
  | getgid
  | getegid
  deriving DecidableEq

/-- The Darwin number, with its class. -/
def Request.number : Request → BitVec 32
  | .open => 0x2000005
  | .mmap => 0x20000C5
  | .mprotect => 0x200004A
  | .machVmProtect => 0x100000E
  | .getuid => 0x2000018
  | .geteuid => 0x2000019
  | .getgid => 0x200002F
  | .getegid => 0x200002B

section Paths
variable {σ : Type} (platform : Platform σ)

/-- The library function, its arguments in the registers of a call. -/
def Request.shim (request : Request) (args : Args) : Linux σ Word :=
  match request with
  | .open => shimOpen platform args.a0 (asI32 args.a1) (asI32 args.a2)
  | .mmap =>
    shimMmap platform args.a0 args.a1 (asI32 args.a2) (asI32 args.a3) (asI32 args.a4) args.a5
  | .mprotect => do
    let ret ← shimMprotect platform args.a0 args.a1 (asI32 args.a2)
    pure (asU64 ret)
  | .machVmProtect => do
    let ret ← shimMachVmProtect platform (asI32 args.a0) args.a1 args.a2 (asI32 args.a3)
      (asI32 args.a4)
    pure (asU64 ret)
  | .getuid => do
    let ret ← shimGetuid platform
    pure (asU64 ret)
  | .geteuid => do
    let ret ← shimGeteuid platform
    pure (asU64 ret)
  | .getgid => do
    let ret ← shimGetgid platform
    pure (asU64 ret)
  | .getegid => do
    let ret ← shimGetegid platform
    pure (asU64 ret)

/-! ### Agreement -/

/-- How many registers Linux reads for a call, of those the paths make. -/
def arity (nr : Word) : Nat :=
  match nr.toNat with
  | 2 => 3
  | 10 => 3
  | 102 => 0
  | 104 => 0
  | 107 => 0
  | 108 => 0
  | _ => 6

/-- One Linux call each, the same one. -/
def SameCall (calls calls' : List SystemCall) : Prop :=
  ∃ nr args args', calls = [.linux nr args] ∧ calls' = [.linux nr args'] ∧
    args.take (arity nr) = args'.take (arity nr)

/-- No call but of messages. -/
def Faked (calls : List SystemCall) : Prop := ∀ call ∈ calls, ∃ text, call = .message text

def Agree (raw : Outcome (ThreadState σ) SystemCall (Option Word))
    (shim : Outcome (ThreadState σ) SystemCall Word) : Prop :=
  SameCall raw.trace shim.trace ∨ Faked raw.trace ∧ Faked shim.trace ∧ raw.value = some shim.value

/-- When the two paths do the same. -/
def Alike (args : Args) : Request → Prop
  -- bits 4, 16 and 20 are translated by the function only, and it widens the mode
  | .open => asI32 args.a1 &&& 0x110010 = 0 ∧ asU64 (asI32 args.a2) = args.a2
  -- a guard page is answered at an address of its own; else nothing is aligned, and the
  -- C library lets the offset through
  | .mmap => platform.int (asI32 args.a2) = args.a2 ∧
    if asI32 args.a2 = 0 then
      translateMmapFlags (asI32 args.a3) &&& 0x30 = 0x30 ∧ args.a0 ≠ 0
    else platform.int (asI32 args.a4) = args.a4 ∧
      ¬ Straddles (translateMmapFlags (asI32 args.a3)) args.a0 ∧ args.a5 &&& 0xFFF = 0
  | .mprotect => platform.int (asI32 args.a2) = args.a2
  -- a guard page is faked by the trap only
  | .machVmProtect => asI32 args.a4 ≠ 0
  | .getuid => True
  -- the three numbers are those of other calls
  | .geteuid => False
  | .getgid => False
  | .getegid => False

section Agreement
variable {raw : Outcome (ThreadState σ) SystemCall (Option Word)}
  {shim : Outcome (ThreadState σ) SystemCall Word}

theorem not_faked_linux {nr : Word} {args : List Word} {calls : List SystemCall}
    (h : .linux nr args ∈ calls) : ¬ Faked calls := by
  intro hfaked
  obtain ⟨text, htext⟩ := hfaked _ h
  exact nomatch htext

theorem agree_calls {nr nr' : Word} {args args' : List Word} (hraw : raw.trace = [.linux nr args])
    (hshim : shim.trace = [.linux nr' args']) :
    Agree raw shim ↔ nr = nr' ∧ args.take (arity nr) = args'.take (arity nr) := by
  rw [Agree, hraw, hshim]
  constructor
  · intro h
    obtain ⟨_, _, _, hcall, hcall', htake⟩ | ⟨hfaked, -⟩ := h
    · cases hcall
      cases hcall'
      exact ⟨rfl, htake⟩
    · exact absurd hfaked (not_faked_linux List.mem_cons_self)
  · intro h
    obtain ⟨rfl, htake⟩ := h
    exact .inl ⟨nr, args, args', rfl, rfl, htake⟩

theorem agree_faked (hraw : Faked raw.trace) (hshim : Faked shim.trace) :
    Agree raw shim ↔ raw.value = some shim.value := by
  constructor
  · intro h
    obtain ⟨_, _, _, hcall, -⟩ | ⟨-, -, hvalue⟩ := h
    · rw [hcall] at hraw
      exact absurd hraw (not_faked_linux List.mem_cons_self)
    · exact hvalue
  · exact fun hvalue => .inr ⟨hraw, hshim, hvalue⟩

/-- A Linux call on one path only. -/
theorem not_agree_of_raw {nr : Word} {args : List Word} (hraw : raw.trace = [.linux nr args])
    (hshim : ∀ nr' args', shim.trace ≠ [.linux nr' args']) : ¬ Agree raw shim := by
  intro h
  obtain ⟨_, _, _, -, hcall, -⟩ | ⟨hfaked, -⟩ := h
  · exact hshim _ _ hcall
  · rw [hraw] at hfaked
    exact not_faked_linux List.mem_cons_self hfaked

theorem not_agree_of_shim {nr : Word} {args : List Word} (hraw : raw.trace = [])
    (hshim : shim.trace = [.linux nr args]) : ¬ Agree raw shim := by
  intro h
  obtain ⟨_, _, _, hcall, -⟩ | ⟨-, hfaked, -⟩ := h
  · exact nomatch hraw.symm.trans hcall
  · rw [hshim] at hfaked
    exact not_faked_linux List.mem_cons_self hfaked

end Agreement

/-! ### Each request -/

section Requests
variable {platform} {raw : Word} (args : Args) (fd : BitVec 32) (thread : ThreadState σ)

theorem processSyscall_number {request : Request} (hraw : raw.setWidth 32 = request.number) :
    processSyscall platform raw args fd =
      match request with
      | .open => processUnix platform 5 2 args
      | .mmap => processUnix platform 197 9 args
      | .mprotect => processUnix platform 74 10 args
      | .machVmProtect => processVmProtect platform args
      | .getuid => processUnix platform 24 102 args
      | .geteuid => processUnix platform 25 104 args
      | .getgid => processUnix platform 47 107 args
      | .getegid => processUnix platform 43 103 args := by
  have hlower : raw.setWidth 32 = (request.number.setWidth 64).setWidth 32 := by
    rw [hraw, BitVec.setWidth_setWidth_of_le _ (by decide), BitVec.setWidth_eq]
  rcases translate_lower hlower with h | ⟨-, h⟩
  · unfold processSyscall
    rw [h]
    cases request <;> rfl
  · cases request <;> exact nomatch h

/-- A request passed on to Linux. -/
theorem processUnix_passes {darwinNr : BitVec 32} {linuxNr : Int} {a : Args}
    (hlast : ¬ (linuxNr = 60 ∨ linuxNr = 231)) (hargs : linuxArgs darwinNr args = .inr a) :
    (processUnix platform darwinNr linuxNr args thread).trace =
      [.linux (BitVec.ofInt 64 linuxNr) a.toList] := by
  unfold processUnix
  rw [if_neg hlast, hargs]
  rfl

theorem processUnix_answers {darwinNr : BitVec 32} {linuxNr : Int} {answer : Word}
    (hlast : ¬ (linuxNr = 60 ∨ linuxNr = 231)) (hargs : linuxArgs darwinNr args = .inl answer) :
    processUnix platform darwinNr linuxNr args thread = ⟨some answer, thread, []⟩ := by
  unfold processUnix
  rw [if_neg hlast, hargs]
  rfl

theorem faked_nil : Faked [] := fun _ h => nomatch h

theorem faked_message (text : String) : Faked [.message text] := by
  intro call hcall
  exact ⟨text, List.mem_singleton.mp hcall⟩

theorem openFlags_getLsbD (flags : BitVec 32) {i : Nat} (hi : i = 8 ∨ i = 16 ∨ i = 21) :
    (openFlags flags).getLsbD i = false := by
  unfold openFlags
  rcases hi with rfl | rfl | rfl
  all_goals
    rw [moveFlag_getLsbD rfl, moveFlag_getLsbD rfl, moveFlag_getLsbD rfl, moveFlag_getLsbD rfl,
      moveFlag_getLsbD rfl, BitVec.getLsbD_and]
    exact Bool.and_false _

/-- The two translations differ in three flags. -/
theorem openFlags_eq_iff (flags : BitVec 32) :
    openFlags flags = translateOpenFlags flags ↔ flags &&& 0x110010 = 0 := by
  have hbits : flags &&& 0x110010 =
      flags &&& 0x10 ||| flags &&& 0x10000 ||| flags &&& 0x100000 := by
    rw [← BitVec.and_or_distrib_left, ← BitVec.and_or_distrib_left]
    rfl
  have hsplit : flags &&& 0x110010 = 0 ↔
      (flags &&& 0x10 = 0 ∧ flags &&& 0x10000 = 0) ∧ flags &&& 0x100000 = 0 := by
    rw [hbits]
    exact BitVec.or_eq_zero_iff.trans (and_congr_left' BitVec.or_eq_zero_iff)
  rw [hsplit]
  constructor
  · intro h
    have hbit : ∀ i, i = 8 ∨ i = 16 ∨ i = 21 → (translateOpenFlags flags).getLsbD i = false := by
      intro i hi
      rw [← h]
      exact openFlags_getLsbD flags hi
    have hctty := hbit 8 (.inl rfl)
    have hdirectory := hbit 16 (.inr (.inl rfl))
    have hcloexec := hbit 21 (.inr (.inr rfl))
    rw [translateOpenFlags, moveFlag_getLsbD rfl] at hctty hdirectory
    rw [moveFlag_getLsbD rfl] at hctty
    exact ⟨⟨unset_of_getLsbD rfl hctty, unset_of_getLsbD rfl hdirectory⟩,
      unset_of_getLsbD rfl hcloexec⟩
  · intro hclear
    obtain ⟨⟨hctty, hdirectory⟩, hcloexec⟩ := hclear
    rw [translateOpenFlags, moveFlag_unset hcloexec, moveFlag_unset hdirectory,
      moveFlag_unset hctty]
    rfl

theorem open_agree : Agree (processUnix platform 5 2 args thread)
    (Request.shim platform .open args thread) ↔ Alike platform args .open := by
  have hraw : (processUnix platform 5 2 args thread).trace =
      [.linux 2 {args with a1 := asU64 (openFlags (asI32 args.a1))}.toList] :=
    processUnix_passes args thread (by decide) rfl
  have hshim : (Request.shim platform .open args thread).trace = [.linux 2 [args.a0,
      asU64 (translateOpenFlags (asI32 args.a1)), asU64 (asI32 args.a2)]] :=
    linuxSyscall_trace platform _ _ thread
  rw [agree_calls hraw hshim, Alike, ← openFlags_eq_iff]
  constructor
  · intro h
    obtain ⟨-, htake⟩ := h
    obtain ⟨hflags, hmode⟩ : asU64 (openFlags (asI32 args.a1)) =
        asU64 (translateOpenFlags (asI32 args.a1)) ∧ args.a2 = asU64 (asI32 args.a2) := by
      simpa [arity, Args.toList] using htake
    exact ⟨asU64_injective hflags, hmode.symm⟩
  · intro h
    obtain ⟨hflags, hmode⟩ := h
    refine ⟨rfl, ?_⟩
    rw [hmode, ← hflags]
    rfl

theorem mprotect_agree : Agree (processUnix platform 74 10 args thread)
    (Request.shim platform .mprotect args thread) ↔ Alike platform args .mprotect := by
  have hzero : platform.int 0 = 0 := platform.int_nonneg 0 rfl
  rw [Alike]
  by_cases hprot : args.a2 = 0
  · have hraw : processUnix platform 74 10 args thread = ⟨some 0, thread, []⟩ :=
      processUnix_answers args thread (by decide) (if_pos hprot)
    have hshim : Request.shim platform .mprotect args thread = ⟨0, thread, []⟩ := by
      simp only [Request.shim, shimMprotect, hprot]
      rfl
    rw [agree_faked (by rw [hraw]; exact faked_nil) (by rw [hshim]; exact faked_nil), hraw, hshim,
      hprot]
    exact iff_of_true rfl hzero
  · have hraw : (processUnix platform 74 10 args thread).trace = [.linux 10 args.toList] :=
      processUnix_passes args thread (by decide) (if_neg hprot)
    by_cases hlow : asI32 args.a2 = 0
    · have hshim : Request.shim platform .mprotect args thread = ⟨0, thread, []⟩ := by
        simp only [Request.shim, shimMprotect, hlow]
        rfl
      refine iff_of_false (not_agree_of_raw hraw ?_) ?_
      · rw [hshim]
        exact fun _ _ h => nomatch h
      · rw [hlow, hzero]
        exact fun h => hprot h.symm
    · have hshim : (Request.shim platform .mprotect args thread).trace =
          [.linux 10 [args.a0, args.a1, platform.int (asI32 args.a2)]] := by
        simp only [Request.shim, shimMprotect, if_neg hlow, bind_apply, mprotect_trace, pure_apply,
          List.append_nil]
      rw [agree_calls hraw hshim]
      simp [arity, Args.toList, eq_comm]

theorem linuxArgs_mmap : linuxArgs 197 args =
    if args.a2 = 0 ∧ translateMmapFlags (asI32 args.a3) &&& 0x30 = 0x30 then
      .inl (if args.a0 ≠ 0 then args.a0 else 0x7fff0000)
    else .inr {args with a3 := asU64 (translateMmapFlags (asI32 args.a3))} := rfl

theorem mmap_agree : Agree (processUnix platform 197 9 args thread)
    (Request.shim platform .mmap args thread) ↔ Alike platform args .mmap := by
  have hzero : platform.int 0 = 0 := platform.int_nonneg 0 rfl
  rw [Alike]
  by_cases hguard : args.a2 = 0 ∧ translateMmapFlags (asI32 args.a3) &&& 0x30 = 0x30
  · obtain ⟨hprot, hflags⟩ := hguard
    have hlow : asI32 args.a2 = 0 := by
      rw [hprot]
      rfl
    have hraw : processUnix platform 197 9 args thread =
        ⟨some (if args.a0 ≠ 0 then args.a0 else 0x7fff0000), thread, []⟩ :=
      processUnix_answers args thread (by decide) ((linuxArgs_mmap args).trans (if_pos ⟨hprot, hflags⟩))
    have hshim : (Request.shim platform .mmap args thread).trace = [.message "GUARD_FAKE\n"] ∧
        (Request.shim platform .mmap args thread).value =
          if args.a0 ≠ 0 then args.a0 else 0x7fffdead0000 := by
      rw [Request.shim, shimMmap, if_pos ⟨hlow, hflags⟩]
      exact ⟨by simp only [bind_apply, message_trace, pure_apply, List.append_nil], rfl⟩
    rw [agree_faked (by rw [hraw]; exact faked_nil) (by rw [hshim.1]; exact faked_message _),
      hraw, hshim.2, if_pos hlow, hlow, hzero, hprot]
    by_cases haddr : args.a0 = 0
    · rw [if_neg (not_not.mpr haddr), if_neg (not_not.mpr haddr)]
      refine iff_of_false (fun h => ?_) fun h => h.2.2 haddr
      exact absurd (Option.some.inj h) (by decide)
    · rw [if_pos haddr, if_pos haddr]
      exact iff_of_true rfl ⟨rfl, hflags, haddr⟩
  · have hraw : (processUnix platform 197 9 args thread).trace =
        [.linux 9 {args with a3 := asU64 (translateMmapFlags (asI32 args.a3))}.toList] :=
      processUnix_passes args thread (by decide) ((linuxArgs_mmap args).trans (if_neg hguard))
    by_cases hlow : asI32 args.a2 = 0
    · refine iff_of_false (not_agree_of_raw hraw fun nr' args' h => ?_) ?_
      · rw [Request.shim, shimMmap] at h
        by_cases hflags : translateMmapFlags (asI32 args.a3) &&& 0x30 = 0x30
        · rw [if_pos ⟨hlow, hflags⟩] at h
          exact nomatch h
        · rw [if_neg fun hboth => hflags hboth.2, if_pos hlow] at h
          simp only [bind_apply, message_trace] at h
          exact nomatch h
      · rw [hlow, hzero, if_pos rfl]
        exact fun h => hguard ⟨h.1.symm, h.2.1⟩
    · have hshim : Request.shim platform .mmap args thread = mmapAligned platform args.a0 args.a1
          (asI32 args.a2) (translateMmapFlags (asI32 args.a3)) (asI32 args.a4) args.a5 thread := by
        rw [Request.shim, shimMmap, if_neg fun h => hlow h.1, if_neg hlow]
      have htrace := mmapAligned_trace platform args.a0 args.a1 (asI32 args.a2)
        (translateMmapFlags (asI32 args.a3)) (asI32 args.a4) args.a5 thread
      rw [← hshim] at htrace
      rw [if_neg hlow]
      by_cases hoffset : args.a5 &&& 0xFFF = 0
      · rw [if_pos hoffset] at htrace
        have hmsb := translateMmapFlags_msb (asI32 args.a3)
        rw [agree_calls hraw htrace, platform.int_nonneg _ hmsb, asU64_nonneg hmsb]
        constructor
        · intro hcalls
          obtain ⟨-, htake⟩ := hcalls
          obtain ⟨haddr, -, hprot, hfd⟩ : args.a0 = actualAddr _ args.a0 ∧
              args.a1 = actualLen _ _ _ ∧ args.a2 = platform.int (asI32 args.a2) ∧
              args.a4 = platform.int (asI32 args.a4) := by
            simpa [arity, Args.toList] using htake
          exact ⟨hprot.symm, hfd.symm, actualAddr_eq_iff.mp haddr.symm, hoffset⟩
        · intro halike
          obtain ⟨hprot, hfd, hstraddles, -⟩ := halike
          refine ⟨rfl, ?_⟩
          rw [hprot, hfd, actualAddr_eq_iff.mpr hstraddles, actualLen_of_not hstraddles]
          rfl
      · -- the call is made on the trapped path only
        rw [if_neg hoffset] at htrace
        refine iff_of_false (not_agree_of_raw hraw fun nr' args' h => ?_) fun h => hoffset h.2.2.2
        exact nomatch htrace.symm.trans h

theorem machVmProtect_agree : Agree (processVmProtect platform args thread)
    (Request.shim platform .machVmProtect args thread) ↔ Alike platform args .machVmProtect := by
  have hshim : (Request.shim platform .machVmProtect args thread).trace =
      [.linux 10 [args.a1 &&& PAGE_MASK,
        ((args.a1 + args.a2 + 0xFFF) &&& PAGE_MASK) - (args.a1 &&& PAGE_MASK),
        platform.int (asI32 args.a4)]] := by
    simp only [Request.shim, shimMachVmProtect, bind_apply, mprotect_trace, pure_apply,
      List.append_nil]
  by_cases hprot : asI32 args.a4 = 0
  · have hraw : (processVmProtect platform args thread).trace = [] := by
      simp only [processVmProtect, if_pos hprot, pure_apply]
    exact iff_of_false (not_agree_of_shim hraw hshim) (not_not.mpr hprot)
  · have hraw : (processVmProtect platform args thread).trace =
        [.linux 10 [args.a1 &&& PAGE_MASK,
          ((args.a1 + args.a2 + 0xFFF) &&& PAGE_MASK) - (args.a1 &&& PAGE_MASK),
          platform.int (asI32 args.a4)]] := by
      simp only [processVmProtect, if_neg hprot, bind_apply, mprotect_trace, pure_apply,
        List.append_nil]
    rw [agree_calls hraw hshim]
    exact iff_of_true ⟨rfl, rfl⟩ hprot

/-- A request without arguments is one Linux call on both paths. -/
theorem identity_agree {request : Request} {darwinNr : BitVec 32} {linuxNr : Int} {nr : Word}
    (hlast : ¬ (linuxNr = 60 ∨ linuxNr = 231)) (hargs : linuxArgs darwinNr args = .inr args)
    (hshim : (request.shim platform args thread).trace = [.linux nr [0]])
    (harity : BitVec.ofInt 64 linuxNr = nr → arity nr = 0) :
    Agree (processUnix platform darwinNr linuxNr args thread) (request.shim platform args thread) ↔
      BitVec.ofInt 64 linuxNr = nr := by
  rw [agree_calls (processUnix_passes args thread hlast hargs) hshim]
  refine and_iff_left_of_imp fun h => ?_
  rw [h, harity h, List.take_zero, List.take_zero]

/-- **When the two paths do the same.** A trapped request and the library function
with the same registers make one Linux call each, the same one, or give the same
answer without one, under a condition on the registers, and for some requests
always or never. -/
theorem paths_agree_iff {request : Request} (hraw : raw.setWidth 32 = request.number) :
    Agree (processSyscall platform raw args fd thread) (request.shim platform args thread) ↔
      Alike platform args request := by
  rw [processSyscall_number args fd hraw]
  cases request with
  | «open» => exact open_agree args thread
  | mmap => exact mmap_agree args thread
  | mprotect => exact mprotect_agree args thread
  | machVmProtect => exact machVmProtect_agree args thread
  | getuid =>
    exact (identity_agree args thread (by decide) rfl rfl fun _ => rfl).trans (iff_of_true rfl trivial)
  | geteuid =>
    exact (identity_agree args thread (by decide) rfl rfl fun h => (by exact absurd h (by decide))).trans
      (iff_of_false (by decide) id)
  | getgid =>
    exact (identity_agree args thread (by decide) rfl rfl fun h => (by exact absurd h (by decide))).trans
      (iff_of_false (by decide) id)
  | getegid =>
    exact (identity_agree args thread (by decide) rfl rfl fun h => (by exact absurd h (by decide))).trans
      (iff_of_false (by decide) id)

end Requests

end Paths

/-- `open(path, O_RDWR | O_CREAT, 0644)`. -/
theorem paths_agree_open : Agree
    (processSyscall zeroPlatform 0x2000005 ⟨0x1000, 0x202, 0o644, 0, 0, 0⟩ (-1) ⟨(), 0⟩)
    (Request.shim zeroPlatform .open ⟨0x1000, 0x202, 0o644, 0, 0, 0⟩ ⟨(), 0⟩) :=
  (@paths_agree_iff Unit zeroPlatform 0x2000005 _ (-1) ⟨(), 0⟩ .open rfl).mpr ⟨by decide, by decide⟩

/-- `geteuid` is `getgid` when it is trapped. -/
theorem trapped_geteuid_is_getgid : ¬ ∀ {σ : Type} (platform : Platform σ) (thread : ThreadState σ)
    (request : Request) (raw : Word), raw.setWidth 32 = request.number → ∀ (args : Args)
    (fd : BitVec 32),
    Agree (processSyscall platform raw args fd thread) (request.shim platform args thread) := by
  intro h
  have hagree := h zeroPlatform ⟨(), 0⟩ .geteuid 0x2000019 rfl ⟨0, 0, 0, 0, 0, 0⟩ (-1)
  have hraw : (processSyscall zeroPlatform 0x2000019 ⟨0, 0, 0, 0, 0, 0⟩ (-1) ⟨(), 0⟩).trace =
      [.linux 104 [0, 0, 0, 0, 0, 0]] := rfl
  have hshim : (Request.shim zeroPlatform .geteuid ⟨0, 0, 0, 0, 0, 0⟩ ⟨(), 0⟩).trace =
      [.linux 107 [0]] := rfl
  exact absurd ((agree_calls hraw hshim).mp hagree).1 (by decide)

end Grafted.Dyld.Shims

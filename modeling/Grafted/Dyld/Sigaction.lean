import Grafted.Kernel.Syscall

/-! `sigaction` on the action of a Darwin program.

The shim translates the action that is installed, flag by flag and signal by signal, and
gives the old one back as the host has it: the Linux flags, and no mask. So an action comes
back as it was, and can be saved and put back, exactly if it has neither flags nor mask
(`roundTrips_iff`). -/
namespace Grafted.Dyld.Sigaction
open ByteMemory

structure DarwinSigaction where
  saHandler : Word
  saMask : BitVec 32
  saFlags : BitVec 32
  deriving DecidableEq

/-- A set of signals is 128 bytes. -/
abbrev SigSet := BitVec 1024

structure LinuxSigaction where
  saSigaction : Word
  saFlags : BitVec 32
  saMask : SigSet

def DARWIN_SA_SIGINFO : BitVec 32 := 0x0040
def LINUX_SA_SIGINFO : BitVec 32 := 4
def DARWIN_SA_RESTART : BitVec 32 := 0x0002
def LINUX_SA_RESTART : BitVec 32 := 0x10000000
def DARWIN_SA_NOCLDSTOP : BitVec 32 := 0x0008
def LINUX_SA_NOCLDSTOP : BitVec 32 := 1
def DARWIN_SA_NODEFER : BitVec 32 := 0x0010
def LINUX_SA_NODEFER : BitVec 32 := 0x40000000
def DARWIN_SA_ONSTACK : BitVec 32 := 0x0001
def LINUX_SA_ONSTACK : BitVec 32 := 0x08000000
def DARWIN_SA_RESETHAND : BitVec 32 := 0x0004
def LINUX_SA_RESETHAND : BitVec 32 := 0x80000000

/-- The Linux flag is negative when its high bit is set. -/
def addFlag (darwin bit flag : BitVec 32) (linux : Word) : Word :=
  if darwin &&& bit ≠ 0 then linux ||| flag.signExtend 64 else linux

def translateSaFlags (darwin : BitVec 32) : Word :=
  addFlag darwin DARWIN_SA_RESETHAND LINUX_SA_RESETHAND <|
    addFlag darwin DARWIN_SA_ONSTACK LINUX_SA_ONSTACK <|
    addFlag darwin DARWIN_SA_NODEFER LINUX_SA_NODEFER <|
    addFlag darwin DARWIN_SA_NOCLDSTOP LINUX_SA_NOCLDSTOP <|
    addFlag darwin DARWIN_SA_RESTART LINUX_SA_RESTART <|
    addFlag darwin DARWIN_SA_SIGINFO LINUX_SA_SIGINFO 0

/-- The host's functions. A signal it accepts has the action that was last installed. -/
structure Host (σ : Type) where
  sigaddset : SigSet → Nat → SigSet
  accepts : BitVec 32 → Bool
  current : σ → BitVec 32 → LinuxSigaction
  /-- What is returned, the old action, and the state. -/
  sigaction : BitVec 32 → Option LinuxSigaction → σ → BitVec 32 × LinuxSigaction × σ
  accepted : ∀ {sig} act s, accepts sig = true → (sigaction sig act s).1 = 0
  old : ∀ {sig} act s, accepts sig = true → (sigaction sig act s).2.1 = current s sig
  installed : ∀ {sig} act s, accepts sig = true →
    current (sigaction sig act s).2.2 sig = act.getD (current s sig)

section Shim
variable {σ : Type} (host : Host σ)

/-- From `sigemptyset`, the signals of a 32-bit mask. -/
def toSigSet (mask : BitVec 32) : SigSet :=
  (List.range 32).foldl (fun set bit => if mask &&& 1 <<< bit ≠ 0 then host.sigaddset set (bit + 1) else set) 0

def toLinux (act : DarwinSigaction) : LinuxSigaction :=
  ⟨act.saHandler, (translateSaFlags act.saFlags).setWidth 32, toSigSet host act.saMask⟩

/-- The old action as it is stored. -/
def oldAction (old : LinuxSigaction) : DarwinSigaction := ⟨old.saSigaction, 0, old.saFlags⟩

/-- What is returned, what is stored at `oldact` if it is no null, and the state. -/
def shimSigaction (sig : BitVec 32) (act : Option DarwinSigaction) (oldact : Bool) (s : σ) :
    BitVec 32 × Option DarwinSigaction × σ :=
  let answer := host.sigaction sig (act.map (toLinux host)) s
  (answer.1, if answer.1 = 0 ∧ oldact then some (oldAction answer.2.1) else none, answer.2.2)

/-! ### Round trips -/

/-- Once it is installed, the action comes back as it is; and whatever is installed in its place, the
action that was saved puts it back. -/
structure RoundTrips (sig : BitVec 32) (act : DarwinSigaction) (s : σ) : Prop where
  query : let after := (shimSigaction host sig (some act) false s).2.2
    (shimSigaction host sig none true after).1 = 0 ∧
      (shimSigaction host sig none true after).2.1 = some act
  restore : let after := (shimSigaction host sig (some act) false s).2.2
    ∀ other saved, (shimSigaction host sig (some other) true after).2.1 = some saved →
      host.current (shimSigaction host sig (some saved) false
        (shimSigaction host sig (some other) true after).2.2).2.2 sig = host.current after sig

/-- The six flags that are translated. -/
def SUPPORTED : BitVec 32 := DARWIN_SA_SIGINFO ||| DARWIN_SA_RESTART ||| DARWIN_SA_NOCLDSTOP |||
  DARWIN_SA_NODEFER ||| DARWIN_SA_ONSTACK ||| DARWIN_SA_RESETHAND

variable {host}

section Accepted
variable {sig : BitVec 32} (hsig : host.accepts sig = true) (act : Option DarwinSigaction) (oldact : Bool)
  (s : σ)
include hsig

theorem shimSigaction_ret : (shimSigaction host sig act oldact s).1 = 0 := host.accepted _ s hsig

theorem shimSigaction_current : host.current (shimSigaction host sig act oldact s).2.2 sig =
    (act.map (toLinux host)).getD (host.current s sig) := host.installed _ s hsig

theorem shimSigaction_old : (shimSigaction host sig act true s).2.1 =
    some (oldAction (host.current s sig)) := by
  have hret := host.accepted (act.map (toLinux host)) s hsig
  have hold := host.old (act.map (toLinux host)) s hsig
  rw [shimSigaction]
  dsimp only
  rw [if_pos ⟨hret, rfl⟩, hold]

end Accepted

/-- Linux flags that mean themselves are none. -/
theorem flags_eq_zero {flags : BitVec 32} (hsupported : flags &&& SUPPORTED = flags)
    (h : (translateSaFlags flags).setWidth 32 = flags) : flags = 0 := by
  have hlow : flags = (flags.setWidth 7).setWidth 32 := by
    rw [← hsupported]
    apply BitVec.eq_of_getLsbD_eq
    intro i hi
    simp only [BitVec.getLsbD_setWidth, BitVec.getLsbD_and]
    by_cases hlow : i < 7
    · simp [hlow, hi]
    · have hhigh : SUPPORTED.getLsbD i = false := by
        revert hlow
        revert i
        decide
      simp [hhigh]
  rw [hlow] at h ⊢
  generalize flags.setWidth 7 = low at h ⊢
  revert low
  decide

end Shim

/-- **An action comes back as it was installed**, and can be saved and put back, exactly if it has no
flags and no mask. -/
theorem roundTrips_iff {σ : Type} (host : Host σ) (s : σ) {sig : BitVec 32} (hsig : host.accepts sig = true)
    {act : DarwinSigaction} (hflags : act.saFlags &&& SUPPORTED = act.saFlags) :
    RoundTrips host sig act s ↔ act.saFlags = 0 ∧ act.saMask = 0 := by
  have hinstalled := shimSigaction_current hsig (some act) false s
  constructor
  · intro h
    have hback := h.query.2
    rw [shimSigaction_old hsig, hinstalled] at hback
    obtain ⟨-, hmask, hsame⟩ := DarwinSigaction.mk.inj (Option.some.inj hback)
    exact ⟨flags_eq_zero hflags hsame, hmask.symm⟩
  · rintro ⟨hnoFlags, hnoMask⟩
    have hnone : (translateSaFlags 0).setWidth 32 = (0 : BitVec 32) := by decide
    have hback : oldAction (toLinux host act) = act := by
      obtain ⟨handler, mask, flags⟩ := act
      dsimp only at hnoFlags hnoMask
      rw [hnoFlags, hnoMask, oldAction, toLinux]
      exact congrArg _ hnone
    refine ⟨⟨shimSigaction_ret hsig .., ?_⟩, ?_⟩
    · rw [shimSigaction_old hsig, hinstalled]
      exact congrArg some hback
    · intro after other saved hsaved
      rw [shimSigaction_old hsig, hinstalled] at hsaved
      obtain rfl : act = saved := hback.symm.trans (Option.some.inj hsaved)
      rw [shimSigaction_current hsig, hinstalled]
      rfl

/-- A host with a table of actions, which `SIGKILL` and `SIGSTOP` are not in. -/
def tableHost : Host (BitVec 32 → LinuxSigaction) where
  sigaddset set signal := set ||| 1 <<< (signal - 1)
  accepts sig := sig != 9 && sig != 19
  current table sig := table sig
  sigaction sig act table :=
    if sig != 9 && sig != 19 then (0, table sig, fun n => if n = sig then act.getD (table sig) else table n)
    else (-1, table sig, table)
  accepted act table h := by rw [if_pos h]
  old act table h := by rw [if_pos h]
  installed act table h := by
    rw [if_pos h]
    exact if_pos rfl

def defaultActions : BitVec 32 → LinuxSigaction := fun _ => ⟨0, 0, 0⟩

theorem handler_roundTrips : RoundTrips tableHost 15 ⟨0x100001000, 0, 0⟩ defaultActions :=
  (roundTrips_iff tableHost defaultActions rfl rfl).mpr ⟨rfl, rfl⟩

/-- `SA_SIGINFO` comes back as the Linux flag 4, which is `SA_RESETHAND`. -/
theorem siginfo_lost : ¬ RoundTrips tableHost 11 ⟨0x100001000, 0, DARWIN_SA_SIGINFO⟩ defaultActions := by
  intro h
  exact absurd h.query.2 (by decide)

end Grafted.Dyld.Sigaction

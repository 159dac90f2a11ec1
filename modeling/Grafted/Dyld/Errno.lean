import Mathlib.Logic.Function.Basic
import Grafted.Base.Transition
import Grafted.Dyld.Shims

/-! Where an error is stored and where it is read.

A shim that fails stores the error in the `errno` of the C library, of which every
thread has one (`errno_kept`). Darwin code looks where `___error` says, which is one
cell for all threads, and no library function writes it: what is read there is what
Darwin code has stored there itself (`errno_read_iff`). A shim takes two steps, the
system call and the report, and other threads may come between them. -/
namespace Grafted.Dyld.Shims
open ByteMemory Traced Kernel Transition

/-! ### The shims that report -/

/-- A shim that reports with `syscall_ret`, and its arguments. -/
inductive Reporter where
  | write (fd : BitVec 32) (buf count : Word)
  | read (fd : BitVec 32) (buf count : Word)
  | open (path : Word) (flags mode : BitVec 32)
  | close (fd : BitVec 32)
  | lseek (fd : BitVec 32) (offset : Word) (whence : BitVec 32)
  | dup (fd : BitVec 32)
  | dup2 (fd fd2 : BitVec 32)
  | fcntl (fd cmd : BitVec 32) (arg : Word)

def Reporter.shim {σ : Type} (platform : Platform σ) : Reporter → Linux σ Word
  | .write fd buf count => shimWrite platform fd buf count
  | .read fd buf count => shimRead platform fd buf count
  | .open path flags mode => shimOpen platform path flags mode
  | .close fd => shimClose platform fd
  | .lseek fd offset whence => shimLseek platform fd offset whence
  | .dup fd => shimDup platform fd
  | .dup2 fd fd2 => shimDup2 platform fd fd2
  | .fcntl fd cmd arg => shimFcntl platform fd cmd arg

/-- Its system call. -/
def Reporter.call : Reporter → SystemCall
  | .write fd buf count => .linux 1 [asU64 fd, buf, count]
  | .read fd buf count => .linux 0 [asU64 fd, buf, count]
  | .open path flags mode => .linux 2 [path, asU64 (translateOpenFlags flags), asU64 mode]
  | .close fd => .linux 3 [asU64 fd]
  | .lseek fd offset whence => .linux 8 [asU64 fd, offset, asU64 whence]
  | .dup fd => .linux 32 [asU64 fd]
  | .dup2 fd fd2 => .linux 33 [asU64 fd, asU64 fd2]
  | .fcntl fd cmd arg => .linux 72 [asU64 fd, asU64 cmd, arg]

/-- Each is its system call and the report. -/
theorem Reporter.shim_eq {σ : Type} (platform : Platform σ) (reporter : Reporter) :
    reporter.shim platform = syscall platform reporter.call >>= syscallRet := by
  cases reporter <;> rfl

/-! ### Threads -/

abbrev Thread := Nat

/-- `inside` is the answer a thread has and has not reported. -/
structure Process (σ : Type) where
  kernel : σ
  errno : Thread → BitVec 32
  errnoValue : BitVec 32
  inside : Thread → Option Word

def Process.initial {σ : Type} (kernel : σ) (errno : Thread → BitVec 32) : Process σ :=
  ⟨kernel, errno, 0, fun _ => none⟩

def Process.thread {σ : Type} (p : Process σ) (t : Thread) : ThreadState σ := ⟨p.kernel, p.errno t⟩

/-- Where an error may be. -/
inductive Location where
  /-- `ERRNO_VALUE`. -/
  | errnoValue
  | libc (t : Thread)

/-- `___error`, called by a thread. -/
def shimErrnoLocation (_t : Thread) : Location := .errnoValue

def Process.load {σ : Type} (p : Process σ) : Location → BitVec 32
  | .errnoValue => p.errnoValue
  | .libc t => p.errno t

def Process.store {σ : Type} (p : Process σ) (value : BitVec 32) : Location → Process σ
  | .errnoValue => {p with errnoValue := value}
  | .libc t => {p with errno := Function.update p.errno t value}

inductive Action (σ : Type) where
  /-- A shim makes its system call. -/
  | enter (t : Thread) (reporter : Reporter)
  /-- It reports the answer and returns. -/
  | report (t : Thread)
  /-- Any other library function, and what it leaves. -/
  | other (t : Thread) (after : ThreadState σ)
  /-- Darwin code stores where `___error` says. -/
  | store (t : Thread) (value : BitVec 32)

/-- A library function called by the thread. -/
def Action.Calls {σ : Type} (t : Thread) : Action σ → Prop
  | .enter t' _ => t' = t
  | .report _ => False
  | .other t' _ => t' = t
  | .store _ _ => False

section Steps
variable {σ : Type} (platform : Platform σ)

/-- A thread is inside one call at a time. The answer is what a shim returns. -/
def step (p : Process σ) : Action σ → Process σ × Option Word
  | .enter t reporter =>
    match p.inside t with
    | some _ => (p, none)
    | none =>
      let made := syscall platform reporter.call (p.thread t)
      ({p with
        kernel := made.state.kernel
        inside := Function.update p.inside t (some made.value) }, none)
  | .report t =>
    match p.inside t with
    | none => (p, none)
    | some raw =>
      let reported := syscallRet raw (p.thread t)
      ({p with
        errno := Function.update p.errno t reported.state.errno
        inside := Function.update p.inside t none }, some reported.value)
  | .other t after =>
    match p.inside t with
    | some _ => (p, none)
    | none => ({p with kernel := after.kernel, errno := Function.update p.errno t after.errno}, none)
  | .store t value => (p.store value (shimErrnoLocation t), none)

def process : System (Process σ) (Action σ) (Option Word) := ⟨step platform⟩

/-! ### What is read -/

/-- What Darwin code stored last. -/
def lastStored (value : BitVec 32) : List (Action σ) → BitVec 32
  | [] => value
  | .store _ stored :: rest => lastStored stored rest
  | _ :: rest => lastStored value rest

variable {platform}

/-- No library function writes the cell. -/
theorem step_errnoValue (p : Process σ) (a : Action σ) :
    ((process platform).step p a).1.errnoValue = lastStored p.errnoValue [a] := by
  cases a with
  | enter t reporter =>
    simp only [process, step]
    split <;> rfl
  | report t =>
    simp only [process, step]
    split <;> rfl
  | other t after =>
    simp only [process, step]
    split <;> rfl
  | store t value => rfl

theorem lastStored_cons (value : BitVec 32) (a : Action σ) (rest : List (Action σ)) :
    lastStored value (a :: rest) = lastStored (lastStored value [a]) rest := by
  cases a <;> rfl

theorem run_errnoValue (p : Process σ) (actions : List (Action σ)) :
    ((process platform).run p actions).errnoValue = lastStored p.errnoValue actions := by
  induction actions generalizing p with
  | nil => rfl
  | cons a rest ih =>
    rw [System.run, ih, step_errnoValue]
    exact (lastStored_cons p.errnoValue a rest).symm

/-- A failed call, reported: -1, and the error in the `errno` of the thread. -/
theorem step_report {p : Process σ} {t : Thread} {raw : Word} (hinside : p.inside t = some raw)
    (hneg : raw.toInt < 0) : (process platform).step p (.report t) =
      ({p with
        errno := Function.update p.errno t ((-raw).setWidth 32)
        inside := Function.update p.inside t none }, some (-1)) := by
  have hret : syscallRet raw (p.thread t) = ⟨-1, {p.thread t with errno := (-raw).setWidth 32}, []⟩ := by
    rw [syscallRet, if_pos hneg]
    rfl
  simp only [process, step, hinside, hret]

/-- The thread is in no call, and its `errno` is `e`. -/
def Reported (t : Thread) (e : BitVec 32) (p : Process σ) : Prop := p.inside t = none ∧ p.errno t = e

theorem Reported.step {t : Thread} {e : BitVec 32} {p : Process σ} (h : Reported t e p)
    {a : Action σ} (ha : ¬ a.Calls t) : Reported t e ((process platform).step p a).1 := by
  obtain ⟨hinside, herrno⟩ := h
  cases a with
  | enter t' reporter =>
    have hne : t ≠ t' := fun heq => ha heq.symm
    simp only [process, Shims.step]
    split
    · exact ⟨hinside, herrno⟩
    · exact ⟨(Function.update_of_ne hne _ _).trans hinside, herrno⟩
  | report t' =>
    simp only [process, Shims.step]
    split
    · exact ⟨hinside, herrno⟩
    · rename_i raw hraw
      have hne : t ≠ t' := by
        intro hsame
        subst hsame
        exact nomatch hinside.symm.trans hraw
      exact ⟨(Function.update_of_ne hne _ _).trans hinside,
        (Function.update_of_ne hne _ _).trans herrno⟩
  | other t' after =>
    have hne : t ≠ t' := fun heq => ha heq.symm
    simp only [process, Shims.step]
    split
    · exact ⟨hinside, herrno⟩
    · exact ⟨hinside, (Function.update_of_ne hne _ _).trans herrno⟩
  | store t' value => exact ⟨hinside, herrno⟩

/-- Until the thread calls again its `errno` holds the error. -/
theorem errno_kept {p : Process σ} {t : Thread} {raw : Word} (hinside : p.inside t = some raw)
    (hneg : raw.toInt < 0) {during : List (Action σ)} (hduring : ∀ a ∈ during, ¬ a.Calls t) :
    Reported t ((-raw).setWidth 32) ((process platform).run p (.report t :: during)) := by
  have hstart : Reported t ((-raw).setWidth 32) ((process platform).step p (.report t)).1 := by
    rw [step_report hinside hneg]
    exact ⟨Function.update_self _ _ _, Function.update_self _ _ _⟩
  rw [System.run]
  generalize ((process platform).step p (.report t)).1 = q at hstart
  induction during generalizing q with
  | nil => exact hstart
  | cons a rest ih =>
    exact ih (fun b hb => hduring b (List.mem_cons_of_mem a hb)) _
      (hstart.step (hduring a List.mem_cons_self))

/-- A Linux error, as the kernel answers it. -/
theorem error_answer {e : BitVec 32} (hpos : 0 < e.toNat) (hle : e.toNat ≤ 4095) :
    (-(e.setWidth 64)).toInt < 0 ∧ (-(-(e.setWidth 64))).setWidth 32 = e := by
  constructor
  · rw [BitVec.toInt_eq_toNat_cond, BitVec.toNat_neg, BitVec.toNat_setWidth]
    omega
  · rw [BitVec.neg_neg, BitVec.setWidth_setWidth_of_le _ (by decide), BitVec.setWidth_eq]

theorem lastStored_append (value : BitVec 32) (a b : List (Action σ)) :
    lastStored value (a ++ b) = lastStored (lastStored value a) b := by
  induction a generalizing value with
  | nil => rfl
  | cons x rest ih =>
    rw [List.cons_append, lastStored_cons, ih, ← lastStored_cons]

/-- **What is read after a failed call.** In every run, a shim whose system call fails
with `e` returns -1, and from then until the thread calls again, its `errno` in the C
library is `e`, and the cell `___error` names holds `e` exactly while the last value
Darwin code has stored there is `e`. -/
theorem errno_read_iff {kernel : σ} {errno : Thread → BitVec 32} {before : List (Action σ)}
    {t : Thread} {e : BitVec 32} (hpos : 0 < e.toNat) (hle : e.toNat ≤ 4095)
    (hfailed : ((process platform).run (.initial kernel errno) before).inside t =
      some (-(e.setWidth 64))) :
    ((process platform).step ((process platform).run (.initial kernel errno) before)
        (.report t)).2 = some (-1) ∧
      ∀ during, (∀ a ∈ during, ¬ a.Calls t) →
        let after := (process platform).run (.initial kernel errno) (before ++ .report t :: during)
        after.errno t = e ∧
          (after.load (shimErrnoLocation t) = e ↔ lastStored 0 (before ++ during) = e) := by
  obtain ⟨hneg, he⟩ := error_answer hpos hle
  refine ⟨by rw [step_report hfailed hneg], fun during hduring => ⟨?_, ?_⟩⟩
  · have hkept : Reported t ((-(-(e.setWidth 64))).setWidth 32) ((process platform).run
        ((process platform).run (.initial kernel errno) before) (.report t :: during)) :=
      errno_kept hfailed hneg hduring
    rw [he] at hkept
    rw [System.run_append]
    exact hkept.2
  · have hcell : ((process platform).run (.initial kernel errno) (before ++ .report t :: during)).load
        (shimErrnoLocation t) = lastStored 0 (before ++ .report t :: during) := run_errnoValue _ _
    rw [hcell, lastStored_append, lastStored_append]
    rfl

end Steps

/-- A platform where every call fails with EBADF. -/
def badPlatform : Platform Unit := {zeroPlatform with answer := fun _ kernel => (-9, kernel)}

/-- A thread closes -1, and another thread stores 9. -/
theorem errno_read_stored :
    ((process badPlatform).run (.initial () fun _ => 0)
      [.enter 0 (.close (-1)), .report 0, .store 1 9]).load (shimErrnoLocation 0) = 9 :=
  (((@errno_read_iff Unit badPlatform () (fun _ => 0) [.enter 0 (.close (-1))] 0 9 (by decide)
    (by decide) rfl).2 [.store 1 9] fun a ha hcalls => by
      rw [List.mem_singleton.mp ha] at hcalls
      exact hcalls).2).mpr rfl

/-- After a failed call the cell holds what it held. -/
theorem errno_not_read : ¬ ∀ {σ : Type} {platform : Platform σ} {kernel : σ}
    {errno : Thread → BitVec 32} {before : List (Action σ)} {t : Thread} {e : BitVec 32},
    0 < e.toNat → e.toNat ≤ 4095 →
    ((process platform).run (.initial kernel errno) before).inside t = some (-(e.setWidth 64)) →
    ∀ during, (∀ a ∈ during, ¬ a.Calls t) →
      ((process platform).run (.initial kernel errno) (before ++ .report t :: during)).load
        (shimErrnoLocation t) = e := by
  intro h
  have hread := @h Unit badPlatform () (fun _ => 0) [.enter 0 (.close (-1))] 0 9 (by decide)
    (by decide) rfl [] fun _ ha => nomatch ha
  have hcell : ((process badPlatform).run (.initial () fun _ => 0)
      ([.enter 0 (.close (-1))] ++ [.report 0])).load (shimErrnoLocation 0) = 0 := rfl
  rw [hcell] at hread
  exact absurd hread (by decide)

end Grafted.Dyld.Shims

import Grafted.Dyld.Selector

/-! When the selector is BLOCK whenever Darwin code has control.

A shim ends with the selector BLOCK and calls no Darwin code with it ALLOW, but
for `pthread_once`; the code of `gen_trampoline` leaves it ALLOW. So a thread
keeps it exactly when these two never give control to Darwin code
(`selector_held_iff`). The proof follows the script: Darwin code and library
functions that leave the selector alone carry one statement (`Darwin.exec_held`,
`Body.exec_held`), a shim is settled by its path. -/
namespace Grafted.Dyld.Selector
open ByteMemory Traced

/-- The selector is BLOCK when Darwin code has control, and its system calls are
dispatched. -/
def Held : Event → Prop
  | .darwin selector => selector = .block
  | .dispatched _ => True
  | .kernel _ => False

/-! ### What a thread does, the selector aside -/

/-- A system call, from where, or a call: whether it called Darwin code back, and
whether it gave control back to its caller. -/
inductive Occurrence where
  | syscall (ip : Word)
  | call (callee : Callee) (calledBack returned : Bool)

mutual
/-- The code gives control back. -/
def Darwin.returns : Darwin → Bool
  | .ret => true
  | .syscall _ _ rest => rest.returns
  | .lastSyscall _ _ => false
  | .call _ body rest => body.returns && rest.returns
def Body.returns : Body → Bool
  | .ret => true
  | .exit => false
  | .write _ rest => rest.returns
  | .back routine rest => routine.returns && rest.returns
end

mutual
/-- What happens, as far as it gets. -/
def Darwin.occurrences : Darwin → List Occurrence
  | .ret => []
  | .syscall ip _ rest => .syscall ip :: rest.occurrences
  | .lastSyscall ip _ => [.syscall ip]
  | .call callee body rest =>
    .call callee (body.path.contains .back) body.returns ::
      (body.occurrences ++ if body.returns then rest.occurrences else [])
def Body.occurrences : Body → List Occurrence
  | .ret => []
  | .exit => []
  | .write _ rest => rest.occurrences
  | .back routine rest =>
    routine.occurrences ++ if routine.returns then rest.occurrences else []
end

/-- A system call from outside the exempt range; a generated call that ends the
process without calling back; a `pthread_once` that does not call its routine; any
other call. -/
def Harmless (textBase : Word) : Occurrence → Prop
  | .syscall ip => exempt textBase ip = false
  | .call .generated calledBack returned => calledBack = false ∧ returned = false
  | .call (.shim .pthread_once) calledBack _ => calledBack = false
  | .call _ _ _ => True

section Runs
variable (textBase : Word)

/-! ### Runs -/

mutual
theorem Darwin.exec_value (d : Darwin) (f : Filter) : (execDarwin textBase d f).value = d.returns := by
  cases d with
  | ret => rfl
  | syscall ip nr rest => exact Darwin.exec_value rest _
  | lastSyscall ip nr => rfl
  | call callee body rest =>
    have hbody := Body.exec_value body f
    simp only [execDarwin, bind_apply, emit_apply, Darwin.returns, hbody]
    cases body.returns with
    | true => exact Darwin.exec_value rest _
    | false => rfl
theorem Body.exec_value (b : Body) (f : Filter) : (execBody textBase b f).value = b.returns := by
  cases b with
  | ret => rfl
  | exit => rfl
  | write filter rest => exact Body.exec_value rest filter
  | back routine rest =>
    have hroutine := Darwin.exec_value routine f
    simp only [execBody, bind_apply, Body.returns, hroutine]
    cases routine.returns with
    | true => exact Body.exec_value rest _
    | false => rfl
end

/-- Darwin code has control first. -/
theorem Darwin.exec_starts (d : Darwin) (f : Filter) :
    ∃ t, (execDarwin textBase d f).trace = .darwin f :: t := by
  cases d with
  | ret => exact ⟨_, rfl⟩
  | syscall ip nr rest => exact ⟨_, rfl⟩
  | lastSyscall ip nr => exact ⟨_, rfl⟩
  | call callee body rest => exact ⟨_, rfl⟩

theorem Darwin.exec_call (callee : Callee) (body : Body) (rest : Darwin) (f : Filter) :
    (execDarwin textBase (.call callee body rest) f).trace =
        .darwin f :: ((execBody textBase body f).trace ++ if body.returns then
          (execDarwin textBase rest (execBody textBase body f).state).trace else []) ∧
      (execDarwin textBase (.call callee body rest) f).state = if body.returns then
        (execDarwin textBase rest (execBody textBase body f).state).state
        else (execBody textBase body f).state := by
  simp only [execDarwin, bind_apply, emit_apply, Body.exec_value]
  cases body.returns with
  | true => exact ⟨rfl, rfl⟩
  | false => exact ⟨rfl, rfl⟩

theorem Body.exec_back (routine : Darwin) (rest : Body) (f : Filter) :
    (execBody textBase (.back routine rest) f).trace =
        (execDarwin textBase routine f).trace ++ (if routine.returns then
          (execBody textBase rest (execDarwin textBase routine f).state).trace else []) ∧
      (execBody textBase (.back routine rest) f).state = if routine.returns then
        (execBody textBase rest (execDarwin textBase routine f).state).state
        else (execDarwin textBase routine f).state := by
  simp only [execBody, bind_apply, Darwin.exec_value]
  cases routine.returns with
  | true => exact ⟨rfl, rfl⟩
  | false => exact ⟨rfl, rfl⟩

/-- Darwin code that runs with ALLOW is seen. -/
theorem Darwin.exec_allow (d : Darwin) : ∃ e ∈ (execDarwin textBase d .allow).trace, ¬ Held e := by
  obtain ⟨t, ht⟩ := Darwin.exec_starts textBase d .allow
  exact ⟨.darwin .allow, by rw [ht]; exact List.mem_cons_self, fun h => (nomatch h)⟩

/-- A routine called back after the selector is set to ALLOW. -/
theorem Body.exec_leaked {b : Body} {path : List Op} (h : b.path = .write .allow :: .back :: path)
    (f : Filter) : ∃ e ∈ (execBody textBase b f).trace, ¬ Held e := by
  cases b with
  | write filter b =>
    cases b with
    | back routine rest =>
      cases h
      obtain ⟨e, he, hbad⟩ := Darwin.exec_allow textBase routine
      have htrace : (execBody textBase (.write .allow (.back routine rest)) f).trace = _ :=
        (Body.exec_back textBase routine rest .allow).1
      rw [htrace]
      exact ⟨e, List.mem_append_left _ he, hbad⟩
    | _ => exact nomatch h
  | _ => exact nomatch h

/-- What generated code can do. -/
theorem Body.generated_cases {b : Body} {target : List Op} (h : b.path = .write .allow :: target)
    (hwrites : NoWrites target) : b = .write .allow .ret ∨ b = .write .allow .exit ∨
      ∃ routine rest, b = .write .allow (.back routine rest) := by
  cases b with
  | write filter b =>
    cases b with
    | ret =>
      cases h
      exact .inl rfl
    | exit =>
      cases h
      exact .inr (.inl rfl)
    | write filter' rest =>
      cases h
      exact absurd List.mem_cons_self (hwrites filter')
    | back routine rest =>
      cases h
      exact .inr (.inr ⟨routine, rest, rfl⟩)
  | _ => exact nomatch h

/-- The selector at the end of a path. -/
def settle : List Op → Filter → Filter
  | [], f => f
  | .write filter :: rest, _ => settle rest filter
  | _ :: rest, f => settle rest f

/-- A body that calls nothing back makes no event. -/
theorem Body.exec_settled (b : Body) (h : .back ∉ b.path) (f : Filter) :
    execBody textBase b f = ⟨b.returns, settle b.path f, []⟩ ∧ b.occurrences = [] ∧
      (b.returns = true → .ret ∈ b.path) := by
  cases b with
  | ret => exact ⟨rfl, rfl, fun _ => List.mem_singleton_self _⟩
  | exit => exact ⟨rfl, rfl, fun h => (nomatch h)⟩
  | write filter rest =>
    obtain ⟨hexec, hocc, hret⟩ := Body.exec_settled rest (fun hr => h (List.mem_cons_of_mem _ hr)) filter
    refine ⟨?_, hocc, fun hr => List.mem_cons_of_mem _ (hret hr)⟩
    simp only [execBody, bind_apply, modify_apply, hexec, List.append_nil, Body.returns,
      Body.path, settle]
  | back routine rest => exact absurd List.mem_cons_self h

/-- What is shown of a run from BLOCK: its events are held exactly when what happened
is harmless, and then the selector is BLOCK if control comes back. -/
def Keeping (returns : Bool) (occurrences : List Occurrence) (trace : List Event)
    (state : Filter) : Prop :=
  ((∀ e ∈ trace, Held e) ↔ ∀ o ∈ occurrences, Harmless textBase o) ∧
    ((∀ e ∈ trace, Held e) → returns = true → state = .block)

variable {textBase}

/-- Nothing happens and the selector is BLOCK if control comes back. -/
theorem Keeping.quiet {returns : Bool} {state : Filter} (h : returns = true → state = .block) :
    Keeping textBase returns [] [] state :=
  ⟨⟨fun _ _ ho => (nomatch ho), fun _ _ he => (nomatch he)⟩, fun _ => h⟩

/-- The rest runs if control comes back. -/
theorem Keeping.seq {returns returns' : Bool} {occurrences occurrences' : List Occurrence}
    {trace trace' : List Event} {state state' : Filter}
    (h : Keeping textBase returns occurrences trace state)
    (h' : returns = true → state = .block → Keeping textBase returns' occurrences' trace' state') :
    Keeping textBase (returns && returns')
      (occurrences ++ if returns then occurrences' else [])
      (trace ++ if returns then trace' else []) (if returns then state' else state) := by
  obtain ⟨hiff, hstate⟩ := h
  cases returns with
  | false =>
    simp only [Bool.false_and, Bool.false_eq_true, if_false, List.append_nil]
    exact ⟨hiff, fun _ h => (nomatch h)⟩
  | true =>
    simp only [Bool.true_and, if_true, Keeping, List.forall_mem_append]
    constructor
    · constructor
      · rintro ⟨htrace, htrace'⟩
        exact ⟨hiff.mp htrace, ((h' rfl (hstate htrace rfl)).1).mp htrace'⟩
      · rintro ⟨hocc, hocc'⟩
        have htrace := hiff.mpr hocc
        exact ⟨htrace, ((h' rfl (hstate htrace rfl)).1).mpr hocc'⟩
    · rintro ⟨htrace, htrace'⟩
      exact (h' rfl (hstate htrace rfl)).2 htrace'

theorem Keeping.event {returns : Bool} {occurrences : List Occurrence} {trace : List Event}
    {state : Filter} {e : Event} (he : Held e) (h : Keeping textBase returns occurrences trace state) :
    Keeping textBase returns occurrences (e :: trace) state := by
  simpa only [Keeping, List.forall_mem_cons, he, true_and] using h

theorem Keeping.occurrence {returns : Bool} {occurrences : List Occurrence} {trace : List Event}
    {state : Filter} {o : Occurrence} (ho : Harmless textBase o)
    (h : Keeping textBase returns occurrences trace state) :
    Keeping textBase returns (o :: occurrences) trace state := by
  simpa only [Keeping, List.forall_mem_cons, ho, true_and] using h

/-- Once something is not held and something is not harmless, the rest is of no matter. -/
theorem Keeping.broken {returns : Bool} {occurrences : List Occurrence} {trace : List Event}
    {state : Filter} {e : Event} {o : Occurrence} (hmem : e ∈ trace) (he : ¬ Held e)
    (homem : o ∈ occurrences) (ho : ¬ Harmless textBase o) :
    Keeping textBase returns occurrences trace state :=
  ⟨⟨fun h => absurd (h e hmem) he, fun h => absurd (h o homem) ho⟩, fun h => absurd (h e hmem) he⟩

/-! ### Shims -/

/-- Every way through a shim ends with BLOCK and calls nothing back, but for one. -/
theorem Shim.paths_settle (s : Shim) : ∀ path ∈ s.paths,
    (.back ∉ path ∧ (.ret ∈ path → settle path .block = .block)) ∨
      (s = .pthread_once ∧ path = [.write .allow, .back, .write .block, .ret]) := by
  cases s <;> decide

/-! ### The run -/

/-- A system call from BLOCK, and what follows. -/
theorem Keeping.syscall {returns : Bool} {occurrences : List Occurrence} {ip nr : Word}
    {rest : Traced Filter Event Bool}
    (h : Keeping textBase returns occurrences (rest .block).trace (rest .block).state) :
    Keeping textBase returns (.syscall ip :: occurrences)
      ((Selector.syscall textBase ip nr >>= fun _ => rest) .block).trace
      ((Selector.syscall textBase ip nr >>= fun _ => rest) .block).state := by
  cases hexempt : exempt textBase ip with
  | true =>
    have hrun : Selector.syscall textBase ip nr .block = ⟨(), .block, [.kernel nr]⟩ := by
      simp [Selector.syscall, hexempt]
    rw [bind_apply, hrun]
    refine Keeping.broken List.mem_cons_self id List.mem_cons_self ?_
    rw [Harmless, hexempt]
    exact Bool.noConfusion
  | false =>
    have hrun : Selector.syscall textBase ip nr .block = ⟨(), .block, [.dispatched nr]⟩ := by
      simp [Selector.syscall, sigsysHandler, hexempt]
    rw [bind_apply, hrun]
    exact (h.event (e := .dispatched nr) trivial).occurrence hexempt

/-- A shim that calls nothing back. -/
theorem Harmless.shim (s : Shim) (returned : Bool) :
    Harmless textBase (.call (.shim s) false returned) := by
  cases s <;> trivial

mutual
theorem Darwin.exec_held (d : Darwin) (hfits : d.Fits) :
    Keeping textBase d.returns d.occurrences (execDarwin textBase d .block).trace
      (execDarwin textBase d .block).state := by
  cases d with
  | ret => exact (Keeping.quiet fun _ => rfl).event rfl
  | syscall ip nr rest => exact (Keeping.syscall (Darwin.exec_held rest hfits)).event rfl
  | lastSyscall ip nr =>
    have hlast : Keeping textBase false [] ((pure false : Traced Filter Event Bool) .block).trace
        ((pure false : Traced Filter Event Bool) .block).state := Keeping.quiet fun h => (nomatch h)
    exact hlast.syscall.event rfl
  | call callee body rest =>
    obtain ⟨htakes, hbody, hrest⟩ := hfits
    have hrest := Darwin.exec_held rest hrest
    obtain ⟨htrace, hstate⟩ := Darwin.exec_call textBase callee body rest .block
    rw [htrace, hstate]
    refine Keeping.event rfl ?_
    cases callee with
    | plain =>
      refine Keeping.occurrence trivial ?_
      refine Keeping.seq (Body.exec_held body hbody htakes) fun _ hblock => ?_
      rw [hblock]
      exact hrest
    | shim s =>
      rcases s.paths_settle body.path htakes with ⟨hback, hsettle⟩ | ⟨rfl, hpath⟩
      · obtain ⟨hexec, hocc, hret⟩ := Body.exec_settled textBase body hback .block
        have hcontains : body.path.contains .back = false := by simpa using hback
        have hquiet : Keeping textBase body.returns body.occurrences
            (execBody textBase body .block).trace (execBody textBase body .block).state := by
          rw [hexec, hocc]
          exact Keeping.quiet fun h => hsettle (hret h)
        refine Keeping.occurrence ?_ (Keeping.seq hquiet fun _ hblock => ?_)
        · rw [hcontains]
          exact Harmless.shim s body.returns
        · rw [hblock]
          exact hrest
      · obtain ⟨e, he, hbad⟩ := Body.exec_leaked textBase hpath .block
        exact Keeping.broken (List.mem_append_left _ he) hbad List.mem_cons_self
          (by rw [hpath]; exact Bool.noConfusion)
    | generated =>
      obtain ⟨target, hpath, hwrites⟩ := htakes
      rcases Body.generated_cases hpath hwrites with rfl | rfl | ⟨routine, after, rfl⟩
      · obtain ⟨e, he, hbad⟩ := Darwin.exec_allow textBase rest
        exact Keeping.broken he hbad List.mem_cons_self fun h => (nomatch h.2)
      · have hquiet : Keeping textBase (Body.write .allow .exit).returns
            (Body.write .allow .exit).occurrences
            (execBody textBase (.write .allow .exit) .block).trace
            (execBody textBase (.write .allow .exit) .block).state :=
          Keeping.quiet fun h => (nomatch h)
        exact Keeping.occurrence ⟨rfl, rfl⟩ (hquiet.seq fun h => (nomatch h))
      · obtain ⟨e, he, hbad⟩ := Body.exec_leaked textBase (b := .write .allow (.back routine after)) rfl .block
        exact Keeping.broken (List.mem_append_left _ he) hbad List.mem_cons_self fun h => (nomatch h.1)
theorem Body.exec_held (b : Body) (hfits : b.Fits) (hwrites : NoWrites b.path) :
    Keeping textBase b.returns b.occurrences (execBody textBase b .block).trace
      (execBody textBase b .block).state := by
  cases b with
  | ret => exact Keeping.quiet fun _ => rfl
  | exit => exact Keeping.quiet fun h => (nomatch h)
  | write filter rest => exact absurd List.mem_cons_self (hwrites filter)
  | back routine rest =>
    have hrest := Body.exec_held rest hfits.2 fun f hf => hwrites f (List.mem_cons_of_mem _ hf)
    obtain ⟨htrace, hstate⟩ := Body.exec_back textBase routine rest .block
    rw [htrace, hstate]
    refine Keeping.seq (Darwin.exec_held routine hfits.1) fun _ hblock => ?_
    rw [hblock]
    exact hrest
end

end Runs

/-- **The selector is BLOCK whenever Darwin code has control**, and all its system
calls are dispatched, exactly when everything that happens is harmless. -/
theorem selector_held_iff (textBase : Word) {script : Darwin} (hfits : script.Fits) (f : Filter) :
    (∀ e ∈ (runThread textBase script f).trace, Held e) ↔
      ∀ o ∈ script.occurrences, Harmless textBase o :=
  (Darwin.exec_held script hfits).1

/-- `_write`, then the system call behind it. -/
def writeTwice : Darwin :=
  .call (.shim .write) (.write .allow (.write .block .ret)) (.syscall 0x100003f02 0x2000004 .ret)

theorem writeTwice_fits : writeTwice.Fits := ⟨List.mem_cons_self, trivial, trivial⟩

theorem selector_held_writeTwice :
    (∀ e ∈ (runThread 0x100000000 writeTwice .allow).trace, Held e) ↔
      ∀ o ∈ writeTwice.occurrences, Harmless 0x100000000 o :=
  selector_held_iff 0x100000000 writeTwice_fits .allow

/-- `_strlen`, then a system call: the kernel gets the Darwin number. -/
def strlenThenWrite : Darwin :=
  .call .generated (.write .allow .ret) (.syscall 0x100003f02 0x2000004 .ret)

theorem selector_lost : ¬ ∀ (textBase : Word) {script : Darwin}, script.Fits → ∀ f : Filter,
    ∀ e ∈ (runThread textBase script f).trace, Held e := by
  intro h
  have hfits : strlenThenWrite.Fits :=
    ⟨⟨[.ret], rfl, fun f hf => nomatch List.mem_singleton.mp hf⟩, trivial, trivial⟩
  have hkernel : .kernel 0x2000004 ∈ (runThread 0x100000000 strlenThenWrite .allow).trace :=
    List.mem_of_getElem? (i := 2) rfl
  exact h 0x100000000 hfits .allow _ hkernel

end Grafted.Dyld.Selector

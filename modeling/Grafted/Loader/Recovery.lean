import Mathlib.Logic.Function.Basic
import Grafted.Base.Traced

/-! Recovering from crashes: `grafted_try_call` and the handlers that jump back to it.

One jump buffer and one flag serve all nesting levels. A call sets both and, however it ends, clears
the flag; it does not set them back to what they were. So a crash is never answered by a call that
has ended, and is answered by the innermost one unless that has made another such call: then
nothing is active, and the process exits. `recovers_iff` says exactly when all crashes are
recovered. -/
namespace Grafted.Loader.Recovery
open Traced

/-! ### The source -/

/-- How a protected function crashes. -/
inductive Fault where
  /-- SIGSEGV, SIGBUS or SIGABRT. Skip mode may step over it; reading the instruction there may be
  a fault in the handler. -/
  | signal (skips handlerFaults : Bool)
  | abort
  deriving DecidableEq

/-- What code does as far as recovery goes. -/
inductive Code where
  | ret
  /-- What comes after is run if the fault is stepped over. -/
  | fault (f : Fault) (next : Code)
  | tryCall (func : Code) (next : Bool → Code)
  /-- `swift_once` during lifecycle. The predicate may be null. -/
  | swiftOnce (predicate : Option Nat) (callback next : Code)

/-- What stays when a call has ended. -/
structure World where
  predicates : Nat → Int
  /-- `IN_HANDLER` -/
  inHandler : Bool

structure Process where
  world : World
  /-- `RECOVERY_ACTIVE` -/
  active : Bool
  /-- `RECOVERY_BUF`: the call that was the last to save its place. -/
  buf : Nat
  /-- How many calls were made. -/
  calls : Nat

def Process.start (predicates : Nat → Int) : Process := ⟨⟨predicates, false⟩, false, 0, 0⟩

inductive Response where
  | resumed
  | jumped (target : Nat)
  | exited (status : Nat)
  deriving DecidableEq

/-- A fault, the calls that were active, the innermost first, and what was done. -/
structure Event where
  frames : List Nat
  response : Response
  deriving DecidableEq

/-- How code ends. -/
inductive End where
  | returned
  | jumped (target : Nat)
  | exited (status : Nat)

/-- `sigsegv_handler`, and `abort`. -/
def handle (f : Fault) : Traced Process Event Response := fun p =>
  match f with
  | .abort => if p.active then ⟨.jumped p.buf, p, []⟩ else ⟨.exited 134, p, []⟩
  | .signal skips handlerFaults =>
    if p.active then
      if p.world.inHandler then ⟨.jumped p.buf, p, []⟩
      else if handlerFaults then ⟨.jumped p.buf, {p with world := {p.world with inHandler := true}}, []⟩
      else if skips then ⟨.resumed, p, []⟩
      else ⟨.jumped p.buf, p, []⟩
    else ⟨.exited 139, p, []⟩

def deactivate : Traced Process Event Unit := modify fun p => {p with active := false}

/-- After `func`, or after `__sigsetjmp` has come back once more. A jump to another call goes on. -/
def endCall (id : Nat) (next : Bool → Traced Process Event End) : End → Traced Process Event End
  | .returned => do
    deactivate
    next true
  | .jumped target =>
    if target = id then do
      deactivate
      next false
    else pure (.jumped target)
  | .exited status => pure (.exited status)

/-- `func` is run with the call active. -/
def graftedTryCall (frames : List Nat) (func : List Nat → Traced Process Event End)
    (next : Bool → Traced Process Event End) : Traced Process Event End := do
  let id ← read fun p => p.calls + 1
  modify fun p => {p with active := true, buf := id, calls := id}
  let result ← func (id :: frames)
  endCall id next result

/-- The callback has not been run. -/
def due (w : World) : Option Nat → Bool
  | none => false
  | some i => w.predicates i = 0

def World.mark (w : World) : Option Nat → World
  | none => w
  | some i => {w with predicates := Function.update w.predicates i (-1)}

def swiftOnceLifecycle (frames : List Nat) (predicate : Option Nat)
    (callback : List Nat → Traced Process Event End) (next : Traced Process Event End) :
    Traced Process Event End := do
  if ← read fun p => due p.world predicate then
    modify fun p => {p with world := p.world.mark predicate}
    graftedTryCall frames callback fun _ => next
  else next

def exec : Code → List Nat → Traced Process Event End
  | .ret, _ => pure .returned
  | .fault f next, frames => do
    let response ← handle f
    emit fun _ => ⟨frames, response⟩
    match response with
    | .resumed => exec next frames
    | .jumped target => pure (.jumped target)
    | .exited status => pure (.exited status)
  | .tryCall func next, frames => graftedTryCall frames (exec func) fun ok => exec (next ok) frames
  | .swiftOnce predicate callback next, frames =>
    swiftOnceLifecycle frames predicate (exec callback) (exec next frames)

/-! ### What is asked of it -/

/-- A crash under a call is answered by the innermost one, or stepped over. Without one the process
exits. -/
def Recovers (e : Event) : Prop :=
  match e.frames with
  | [] => e.response = .exited 134 ∨ e.response = .exited 139
  | id :: _ => e.response = .resumed ∨ e.response = .jumped id

instance (e : Event) : Decidable (Recovers e) :=
  match e with
  | ⟨[], _⟩ => inferInstanceAs (Decidable (_ ∨ _))
  | ⟨_ :: _, _⟩ => inferInstanceAs (Decidable (_ ∨ _))

/-! ### If every call recovers -/

/-- The fault is stepped over, where a call is active. -/
def Fault.resumes (w : World) : Fault → Bool
  | .abort => false
  | .signal skips handlerFaults => !w.inHandler && (!handlerFaults && skips)

/-- What a fault leaves, where a call is active. -/
def World.faulted (w : World) : Fault → World
  | .abort => w
  | .signal _ handlerFaults => {w with inHandler := w.inHandler || handlerFaults}

/-- Whether a protected function returns, and what it leaves, when a call that crashes is answered
by itself. -/
def outcome : Code → World → Bool × World
  | .ret, w => (true, w)
  | .fault f next, w => if f.resumes w then outcome next w else (false, w.faulted f)
  | .tryCall func next, w => outcome (next (outcome func w).1) (outcome func w).2
  | .swiftOnce predicate callback next, w =>
    if due w predicate then outcome next (outcome callback (w.mark predicate)).2 else outcome next w

/-- Where code is. -/
inductive Place where
  | unprotected
  /-- In a protected function. -/
  | armed
  /-- In one that has made a call itself, and the call has ended. -/
  | spent
  deriving DecidableEq

def Place.afterCall : Place → Place
  | .unprotected => .unprotected
  | _ => .spent

/-- No protected function faults after a call that it made has ended. -/
def Clean : Code → Place → World → Prop
  | .ret, _, _ => True
  | .fault f next, place, w =>
    match place with
    | .unprotected => True
    | .armed => f.resumes w = true → Clean next .armed w
    | .spent => False
  | .tryCall func next, place, w =>
    Clean func .armed w ∧ Clean (next (outcome func w).1) place.afterCall (outcome func w).2
  | .swiftOnce predicate callback next, place, w =>
    if due w predicate then
      Clean callback .armed (w.mark predicate) ∧
        Clean next place.afterCall (outcome callback (w.mark predicate)).2
    else Clean next place w

/-! ### A call -/

/-- The process when the protected function is entered. -/
def Process.enter (p : Process) : Process := {p with active := true, buf := p.calls + 1, calls := p.calls + 1}

def Process.leave (p : Process) : Process := {p with active := false}

section Call
variable {frames : List Nat} {func : List Nat → Traced Process Event End}
  {next : Bool → Traced Process Event End} {p : Process}

theorem endCall_ended (id : Nat) (next : Bool → Traced Process Event End) (ok : Bool) :
    endCall id next (if ok then .returned else .jumped id) = deactivate >>= fun _ => next ok := by
  cases ok with
  | true => rfl
  | false => exact if_pos rfl

/-- The call is over, and what comes after it is run. -/
theorem graftedTryCall_ended {ok : Bool} (hend : (func ((p.calls + 1) :: frames) p.enter).value =
    if ok then .returned else .jumped (p.calls + 1)) :
    graftedTryCall frames func next p =
      ⟨(next ok (func ((p.calls + 1) :: frames) p.enter).state.leave).value,
        (next ok (func ((p.calls + 1) :: frames) p.enter).state.leave).state,
        (func ((p.calls + 1) :: frames) p.enter).trace ++
          (next ok (func ((p.calls + 1) :: frames) p.enter).state.leave).trace⟩ := by
  have hrun : graftedTryCall frames func next p =
      (func ((p.calls + 1) :: frames) >>= endCall (p.calls + 1) next) p.enter := rfl
  rw [hrun, bind_apply, hend, endCall_ended]
  rfl

/-- What happens in it happens. -/
theorem graftedTryCall_trace {e : Event} (he : e ∈ (func ((p.calls + 1) :: frames) p.enter).trace) :
    e ∈ (graftedTryCall frames func next p).trace := by
  unfold graftedTryCall
  simp only [bind_apply, read_apply, modify_apply, List.nil_append]
  exact List.mem_append_left _ he

end Call

/-- What the flag and the buffer are in a place. -/
def At (p : Process) : Place → List Nat → Prop
  | .unprotected, [] => p.active = false
  | .armed, id :: _ => p.active = true ∧ p.buf = id
  | .spent, _ :: _ => p.active = false
  | _, _ => False

theorem at_enter (p : Process) (frames : List Nat) : At p.enter .armed ((p.calls + 1) :: frames) :=
  ⟨rfl, rfl⟩

theorem At.afterCall {p p' : Process} {place : Place} {frames : List Nat} (h : At p place frames)
    (hinactive : p'.active = false) : At p' place.afterCall frames := by
  cases place with
  | unprotected =>
    cases frames with
    | nil => exact hinactive
    | cons id rest => exact h.elim
  | armed =>
    cases frames with
    | nil => exact h.elim
    | cons id rest => exact hinactive
  | spent =>
    cases frames with
    | nil => exact h.elim
    | cons id rest => exact hinactive

/-! ### Runs -/

/-- A protected function ends as it should. -/
def EndsWell (r : Outcome Process Event End) (id : Nat) (good : Bool × World) : Prop :=
  r.value = (if good.1 then .returned else .jumped id) ∧ r.state.world = good.2

/-- What is shown of code, by induction. -/
structure Sound (code : Code) : Prop where
  recovers : ∀ place frames p, At p place frames →
    ((∀ e ∈ (exec code frames p).trace, Recovers e) ↔ Clean code place p.world)
  ends : ∀ place id rest p, At p place (id :: rest) → Clean code place p.world →
    EndsWell (exec code (id :: rest) p) id (outcome code p.world)

section Sound
variable {code func next : Code} {p : Process} {frames : List Nat} {place : Place}

variable (frames) in
/-- A call of a function that is sound, and what comes after it. -/
theorem Sound.tryCall (hfunc : Sound func) (after : Bool → Traced Process Event End)
    (hclean : Clean func .armed p.world) :
    ∃ p', p'.active = false ∧ p'.world = (outcome func p.world).2 ∧
      ∃ inner, (∀ e ∈ inner, Recovers e) ∧ graftedTryCall frames (exec func) after p =
        ⟨(after (outcome func p.world).1 p').value, (after (outcome func p.world).1 p').state,
          inner ++ (after (outcome func p.world).1 p').trace⟩ := by
  have hat := at_enter p frames
  obtain ⟨hvalue, hworld⟩ := hfunc.ends .armed _ _ p.enter hat hclean
  have hinner := (hfunc.recovers .armed _ p.enter hat).mpr hclean
  exact ⟨(exec func ((p.calls + 1) :: frames) p.enter).state.leave, rfl, hworld, _, hinner,
    graftedTryCall_ended hvalue⟩

/-- Calls recover exactly if those of the function do, and those after it. -/
theorem Sound.tryCall_recovers (hfunc : Sound func) (after : Bool → Code)
    (hafter : ∀ ok, Sound (after ok)) (hat : At p place frames) :
    (∀ e ∈ (graftedTryCall frames (exec func) (fun ok => exec (after ok) frames) p).trace, Recovers e) ↔
      Clean func .armed p.world ∧
        Clean (after (outcome func p.world).1) place.afterCall (outcome func p.world).2 := by
  by_cases hclean : Clean func .armed p.world
  · obtain ⟨p', hinactive, hworld, inner, hinner, hrun⟩ := hfunc.tryCall frames (fun ok => exec (after ok) frames) hclean
    have hnext := (hafter (outcome func p.world).1).recovers _ _ p' (hat.afterCall hinactive)
    rw [hworld] at hnext
    rw [hrun, and_iff_right hclean, ← hnext]
    constructor
    · intro h e he
      exact h e (List.mem_append_right _ he)
    · intro h e he
      obtain he | he := List.mem_append.mp he
      · exact hinner e he
      · exact h e he
  · refine iff_of_false ?_ fun h => hclean h.1
    intro h
    have hinner := (hfunc.recovers .armed _ p.enter (at_enter p frames)).mp
    exact hclean (hinner fun e he => h e (graftedTryCall_trace he))

theorem Sound.tryCall_ends (hfunc : Sound func) (after : Bool → Code) (hafter : ∀ ok, Sound (after ok))
    {id : Nat} {rest : List Nat} (hat : At p place (id :: rest)) (hclean : Clean func .armed p.world)
    (hnext : Clean (after (outcome func p.world).1) place.afterCall (outcome func p.world).2) :
    EndsWell (graftedTryCall (id :: rest) (exec func) (fun ok => exec (after ok) (id :: rest)) p) id
      (outcome (after (outcome func p.world).1) (outcome func p.world).2) := by
  obtain ⟨p', hinactive, hworld, inner, -, hrun⟩ :=
    hfunc.tryCall (id :: rest) (fun ok => exec (after ok) (id :: rest)) hclean
  rw [← hworld] at hnext ⊢
  have hends := (hafter (outcome func p.world).1).ends _ _ _ p' (hat.afterCall hinactive) hnext
  rw [hrun]
  exact hends

end Sound

/-! ### All code -/

/-- What a fault does where a call is active. -/
theorem handle_active {p : Process} (f : Fault) (hactive : p.active = true) :
    handle f p = ⟨if f.resumes p.world then .resumed else .jumped p.buf,
      {p with world := if f.resumes p.world then p.world else p.world.faulted f}, []⟩ := by
  obtain ⟨⟨predicates, inHandler⟩, active, buf, calls⟩ := p
  replace hactive : active = true := hactive
  subst hactive
  cases f with
  | abort => rfl
  | signal skips handlerFaults => cases inHandler <;> cases handlerFaults <;> cases skips <;> rfl

theorem handle_inactive {p : Process} (f : Fault) (hactive : p.active = false) :
    ∃ status, (status = 134 ∨ status = 139) ∧ handle f p = ⟨.exited status, p, []⟩ := by
  cases f with
  | abort =>
    refine ⟨134, .inl rfl, ?_⟩
    rw [handle]
    simp only [hactive, Bool.false_eq_true, if_false]
  | signal skips handlerFaults =>
    refine ⟨139, .inr rfl, ?_⟩
    rw [handle]
    simp only [hactive, Bool.false_eq_true, if_false]

theorem sound_ret : Sound .ret := by
  refine ⟨fun place frames p _ => ?_, fun place id rest p _ _ => ⟨rfl, rfl⟩⟩
  exact iff_of_true (List.forall_mem_nil _) trivial

section Fault
variable {f : Fault} {next : Code} {p : Process} {frames : List Nat}

theorem exec_resumed (hactive : p.active = true) (hresumes : f.resumes p.world = true) :
    exec (.fault f next) frames p = ⟨(exec next frames p).value, (exec next frames p).state,
      ⟨frames, .resumed⟩ :: (exec next frames p).trace⟩ := by
  rw [exec, bind_apply, handle_active f hactive]
  simp only [if_pos hresumes]
  rfl

theorem exec_jumped (hactive : p.active = true) (hresumes : ¬ f.resumes p.world = true) :
    exec (.fault f next) frames p =
      ⟨.jumped p.buf, {p with world := p.world.faulted f}, [⟨frames, .jumped p.buf⟩]⟩ := by
  rw [exec, bind_apply, handle_active f hactive]
  simp only [if_neg hresumes]
  rfl

variable (f next frames) in
theorem exec_exited (hactive : p.active = false) :
    ∃ status, (status = 134 ∨ status = 139) ∧
      exec (.fault f next) frames p = ⟨.exited status, p, [⟨frames, .exited status⟩]⟩ := by
  obtain ⟨status, hstatus, hhandle⟩ := handle_inactive f hactive
  refine ⟨status, hstatus, ?_⟩
  rw [exec, bind_apply, hhandle]
  rfl

end Fault

theorem sound_fault (f : Fault) {next : Code} (hnext : Sound next) : Sound (.fault f next) := by
  refine ⟨?_, ?_⟩
  · intro place frames p hat
    cases place with
    | unprotected =>
      cases frames with
      | cons id rest => exact hat.elim
      | nil =>
        obtain ⟨status, hstatus, hrun⟩ := exec_exited f next [] hat
        rw [hrun]
        refine iff_of_true (List.forall_mem_singleton.mpr ?_) trivial
        obtain rfl | rfl := hstatus
        · exact .inl rfl
        · exact .inr rfl
    | armed =>
      cases frames with
      | nil => exact hat.elim
      | cons id rest =>
        obtain ⟨hactive, rfl⟩ := hat
        by_cases hresumes : f.resumes p.world = true
        · have hlater := hnext.recovers .armed (p.buf :: rest) p ⟨hactive, rfl⟩
          rw [exec_resumed hactive hresumes, List.forall_mem_cons, hlater]
          exact ⟨fun h _ => h.2, fun h => ⟨.inl rfl, h hresumes⟩⟩
        · rw [exec_jumped hactive hresumes]
          exact iff_of_true (List.forall_mem_singleton.mpr (.inr rfl)) fun h => absurd h hresumes
    | spent =>
      cases frames with
      | nil => exact hat.elim
      | cons id rest =>
        obtain ⟨status, -, hrun⟩ := exec_exited f next (id :: rest) hat
        rw [hrun]
        refine iff_of_false ?_ fun h => h
        intro h
        obtain hresumed | hjumped := List.forall_mem_singleton.mp h
        · cases hresumed
        · cases hjumped
  · intro place id rest p hat hclean
    cases place with
    | unprotected => exact hat.elim
    | spent => exact hclean.elim
    | armed =>
      obtain ⟨hactive, rfl⟩ := hat
      by_cases hresumes : f.resumes p.world = true
      · rw [exec_resumed hactive hresumes, outcome, if_pos hresumes]
        exact hnext.ends .armed p.buf rest p ⟨hactive, rfl⟩ (hclean hresumes)
      · rw [exec_jumped hactive hresumes, outcome, if_neg hresumes]
        exact ⟨rfl, rfl⟩

theorem sound_tryCall {func : Code} {next : Bool → Code} (hfunc : Sound func)
    (hnext : ∀ ok, Sound (next ok)) : Sound (.tryCall func next) := by
  refine ⟨fun place frames p hat => ?_, fun place id rest p hat hclean => ?_⟩
  · exact hfunc.tryCall_recovers next hnext hat
  · exact hfunc.tryCall_ends next hnext hat hclean.1 hclean.2

section Once
variable {predicate : Option Nat} {callback next : Code} {p : Process} {frames : List Nat}

theorem exec_due (hdue : due p.world predicate = true) :
    exec (.swiftOnce predicate callback next) frames p =
      graftedTryCall frames (exec callback) (fun _ => exec next frames)
        {p with world := p.world.mark predicate} := by
  rw [exec, swiftOnceLifecycle, bind_apply, read_apply]
  simp only [hdue, if_true]
  rfl

theorem exec_done (hdue : ¬ due p.world predicate = true) :
    exec (.swiftOnce predicate callback next) frames p = exec next frames p := by
  rw [exec, swiftOnceLifecycle, bind_apply, read_apply]
  simp only [hdue]
  rfl

end Once

theorem sound_swiftOnce (predicate : Option Nat) {callback next : Code} (hcallback : Sound callback)
    (hnext : Sound next) : Sound (.swiftOnce predicate callback next) := by
  refine ⟨fun place frames p hat => ?_, fun place id rest p hat hclean => ?_⟩
  · by_cases hdue : due p.world predicate = true
    · have hmarked : At {p with world := p.world.mark predicate} place frames := hat
      rw [exec_due hdue, Clean, if_pos hdue]
      exact hcallback.tryCall_recovers (fun _ => next) (fun _ => hnext) hmarked
    · rw [exec_done hdue, Clean, if_neg hdue]
      exact hnext.recovers place frames p hat
  · by_cases hdue : due p.world predicate = true
    · have hmarked : At {p with world := p.world.mark predicate} place (id :: rest) := hat
      rw [Clean, if_pos hdue] at hclean
      rw [exec_due hdue, outcome, if_pos hdue]
      exact hcallback.tryCall_ends (fun _ => next) (fun _ => hnext) hmarked hclean.1 hclean.2
    · rw [Clean, if_neg hdue] at hclean
      rw [exec_done hdue, outcome, if_neg hdue]
      exact hnext.ends place id rest p hat hclean

theorem sound (code : Code) : Sound code := by
  induction code with
  | ret => exact sound_ret
  | fault f next ih => exact sound_fault f ih
  | tryCall func next ihfunc ihnext => exact sound_tryCall ihfunc ihnext
  | swiftOnce predicate callback next ihcallback ihnext => exact sound_swiftOnce predicate ihcallback ihnext

/-- **Every crash is recovered** by the innermost call that is active, and by no other, exactly if no
protected function crashes after a call it made has ended. -/
theorem recovers_iff (code : Code) (predicates : Nat → Int) :
    (∀ e ∈ (exec code [] (Process.start predicates)).trace, Recovers e) ↔
      Clean code .unprotected ⟨predicates, false⟩ :=
  (sound code).recovers .unprotected [] (Process.start predicates) rfl

/-- A protected function calls another, which returns, and then crashes. -/
def crashAfterCall : Code :=
  .tryCall (.tryCall .ret fun _ => .fault (.signal false false) .ret) fun _ => .ret

/-- The process exits under the outer call. -/
theorem crash_after_call :
    ⟨[1], .exited 139⟩ ∈ (exec crashAfterCall [] (Process.start fun _ => 0)).trace ∧
      ¬ ∀ e ∈ (exec crashAfterCall [] (Process.start fun _ => 0)).trace, Recovers e := by
  decide +kernel

end Grafted.Loader.Recovery

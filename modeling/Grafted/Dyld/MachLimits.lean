import Mathlib.Algebra.Group.Nat.Defs
import Mathlib.Data.List.Induction
import Grafted.Dyld.MachRights

/-! The ends of the counters.

A sum of send rights is formed in 32 signed bits, and one that leaves them counts
as negative: `modRefs_send_exact` says when a change of references is exact. The
name counter moves before it is compared, so its end is passed by the next
allocation: `names_reserved_iff` says which runs keep the two reserved names out
of the table and the exhausted space exhausted. -/
namespace Grafted.Dyld.MachIpc
open Transition PortSpace

/-! ### Send counts -/

/-- The send rights under a name; none without an entry. -/
def sendRights (s : PortSpace) (name : PortName) : Nat :=
  match s.ports name with
  | some port => port.sendCount.toNat
  | none => 0

/-- A change of the send references of a live name leaves the exact sum, or is
refused and changes nothing; one that takes nothing away lowers no count and
drops no entry. -/
def SendSumExact (e : PortEvent) : Prop :=
  ∀ name delta, e.action.op = .portModRefs name MACH_PORT_RIGHT_SEND delta → e.before.Live name →
    ((sendRights e.after name : Int) = max 0 (sendRights e.before name + delta.toInt) ∨
      (e.answer ≠ .code KERN_SUCCESS ∧ e.after = e.before)) ∧
    (0 ≤ delta.toInt → sendRights e.before name ≤ sendRights e.after name ∧ e.after.Live name)

/-- The sum stays below `2 ^ 31`, and an entry without rights is not changed by
nothing. -/
def SendSumFits (e : PortEvent) : Prop :=
  ∀ name delta port, e.action.op = .portModRefs name MACH_PORT_RIGHT_SEND delta →
    e.before.ports name = some port →
    port.sendCount.toNat + delta.toInt < 0x80000000 ∧
      ¬ (port.sendCount = 0 ∧ delta = 0 ∧ port.hasReceive = false)

/-- The count `mod_refs` leaves for a count and a delta. -/
def clampedSum (count delta : BitVec 32) : BitVec 32 :=
  if (count + delta).slt 0 then 0 else count + delta

theorem clampedSum_exact (count delta : BitVec 32) :
    ((clampedSum count delta).toNat : Int) = max 0 (count.toNat + delta.toInt) ↔
      count.toNat + delta.toInt < 0x80000000 := by
  have hsum : (count + delta).toNat = (count.toNat + delta.toNat) % 2 ^ 32 := BitVec.toNat_add ..
  have hcount := count.isLt
  have hdelta := delta.isLt
  have hneg : (count + delta).slt 0 = true ↔ 2 ^ 31 ≤ (count + delta).toNat := by
    have hzero : (0 : BitVec 32).toInt = 0 := rfl
    rw [BitVec.slt_iff_toInt_lt, BitVec.toInt_eq_toNat_cond, hzero]
    omega
  rw [BitVec.toInt_eq_toNat_cond delta]
  unfold clampedSum
  by_cases hclamp : (count + delta).slt 0 = true
  · have := hneg.mp hclamp
    have hzero : (0 : BitVec 32).toNat = 0 := rfl
    rw [if_pos hclamp, hzero]
    omega
  · have := mt hneg.mpr hclamp
    rw [if_neg hclamp]
    omega

/-- What a change of send references leaves of a live name. -/
theorem modRefs_send {s : PortSpace} {name : PortName} {port : Port} (delta : BitVec 32)
    (h : s.ports name = some port) :
    (s.modRefs name MACH_PORT_RIGHT_SEND delta).2 = KERN_SUCCESS ∧
    sendRights (s.modRefs name MACH_PORT_RIGHT_SEND delta).1 name =
      (clampedSum port.sendCount delta).toNat ∧
    ((s.modRefs name MACH_PORT_RIGHT_SEND delta).1.Live name ↔
      clampedSum port.sendCount delta ≠ 0 ∨ port.hasReceive = true) := by
  have hmod : modified port MACH_PORT_RIGHT_SEND delta =
      {port with sendCount := clampedSum port.sendCount delta} := by
    simp only [modified, clampedSum]
    split_ifs <;> rfl
  simp only [modRefs, h, hmod]
  refine ⟨trivial, ?_⟩
  by_cases hunused : Port.unused {port with sendCount := clampedSum port.sendCount delta} = true
  · have hnone : clampedSum port.sendCount delta = 0 ∧ port.hasReceive = false := by
      simpa [Port.unused] using hunused
    simp only [if_pos hunused, sendRights, Live, set_same]
    simp [hnone]
  · have hsome : ¬ (clampedSum port.sendCount delta = 0 ∧ port.hasReceive = false) := by
      simpa [Port.unused] using hunused
    simp only [if_neg hunused, sendRights, Live, set_same]
    simp only [ne_eq, reduceCtorEq, not_false_eq_true, true_iff, true_and]
    by_cases hzero : clampedSum port.sendCount delta = 0
    · exact .inr (by simpa [hzero] using hsome)
    · exact .inl hzero

theorem sendRights_some {s : PortSpace} {name : PortName} {port : Port}
    (h : s.ports name = some port) : sendRights s name = port.sendCount.toNat := by
  simp only [sendRights, h]

theorem modRefs_send_exact_iff {s : PortSpace} {name : PortName} {port : Port} (delta : BitVec 32)
    (h : s.ports name = some port) :
    let s' := (s.modRefs name MACH_PORT_RIGHT_SEND delta).1
    ((sendRights s' name : Int) = max 0 (sendRights s name + delta.toInt) ∧
      (0 ≤ delta.toInt → sendRights s name ≤ sendRights s' name ∧ s'.Live name)) ↔
    port.sendCount.toNat + delta.toInt < 0x80000000 ∧
      ¬ (port.sendCount = 0 ∧ delta = 0 ∧ port.hasReceive = false) := by
  intro s'
  obtain ⟨-, hcount, hlive⟩ := modRefs_send delta h
  have hexact := clampedSum_exact port.sendCount delta
  rw [hcount, sendRights_some h, hexact, hlive]
  have hz : (0 : BitVec 32).toNat = 0 := rfl
  have hz' : (0 : BitVec 32).toInt = 0 := rfl
  constructor
  · rintro ⟨hfits, hkept⟩
    refine ⟨hfits, ?_⟩
    rintro ⟨hc, hd, hr⟩
    rw [hc, hd, hr] at hkept
    exact absurd (hkept (by decide)).2 (by decide)
  · rintro ⟨hfits, hnothing⟩
    have hsum := hexact.mpr hfits
    refine ⟨hfits, fun hadds => ⟨by omega, ?_⟩⟩
    by_contra hno
    obtain ⟨hzero, hr⟩ := not_or.mp hno
    rw [not_not.mp hzero, hz] at hsum
    have hc : port.sendCount = 0 := BitVec.eq_of_toNat_eq (by rw [hz]; omega)
    have hd : delta = 0 := BitVec.eq_of_toInt_eq (by rw [hz']; omega)
    exact hnothing ⟨hc, hd, Bool.eq_false_iff.mpr hr⟩

theorem send_exact_iff (s : PortSpace) (call : Call) :
    SendSumExact (portSystem.event s call) ↔ SendSumFits (portSystem.event s call) := by
  obtain ⟨caller, op⟩ := call
  constructor
  · rintro h name delta port hop hport
    cases hop
    apply (modRefs_send_exact_iff delta hport).mp
    obtain ⟨hsum, hkept⟩ := h name delta rfl fun hnone => Option.some_ne_none _ (hport.symm.trans hnone)
    have hcode := (modRefs_send delta hport).1
    exact ⟨hsum.resolve_right fun hno => hno.1 (congrArg Answer.code hcode), hkept⟩
  · rintro h name delta hop hbefore
    cases hop
    obtain ⟨port, hport⟩ := Option.ne_none_iff_exists'.mp hbefore
    obtain ⟨hsum, hkept⟩ := (modRefs_send_exact_iff delta hport).mpr (h name delta port rfl hport)
    exact ⟨.inl hsum, hkept⟩

/-- **A change of send references is exact just when the sum fits.** -/
theorem modRefs_send_exact (calls : List Call) :
    ∀ e ∈ portSystem.events .new calls, SendSumExact e ↔ SendSumFits e :=
  System.along_of_forall (P := fun e => SendSumExact e ↔ SendSumFits e) send_exact_iff
    PortSpace.new calls

theorem modRefs_send_exact_fresh :
    let e := portSystem.event (portSystem.run .new [⟨0, .portAllocate MACH_PORT_RIGHT_SEND⟩])
      ⟨0, .portModRefs 0x1000 MACH_PORT_RIGHT_SEND 1⟩
    SendSumExact e ↔ SendSumFits e :=
  modRefs_send_exact [⟨0, .portAllocate MACH_PORT_RIGHT_SEND⟩,
    ⟨0, .portModRefs 0x1000 MACH_PORT_RIGHT_SEND 1⟩] _ (.tail _ (.head _))

/-- Adding the last send right that fits makes a port whose next one destroys it. -/
theorem modRefs_send_overflows :
    ¬ ∀ calls, ∀ e ∈ portSystem.events .new calls, SendSumExact e := by
  intro h
  have hrun := h [⟨0, .portAllocate MACH_PORT_RIGHT_SEND⟩,
    ⟨0, .portModRefs 0x1000 MACH_PORT_RIGHT_SEND 0x7FFFFFFE⟩,
    ⟨0, .portModRefs 0x1000 MACH_PORT_RIGHT_SEND 1⟩]
  obtain ⟨-, hrun⟩ := System.along_cons.mp hrun
  obtain ⟨-, hrun⟩ := System.along_cons.mp hrun
  obtain ⟨hlast, -⟩ := System.along_cons.mp hrun
  exact absurd ((hlast 0x1000 1 rfl (by decide)).2 (by decide)).2 (by decide)

/-! ### Names -/

def specialPorts : List PortName :=
  [SPECIAL_PORT_TASK_SELF, SPECIAL_PORT_THREAD_SELF, SPECIAL_PORT_HOST_SELF, SPECIAL_PORT_REPLY,
    SPECIAL_PORT_BOOTSTRAP]

/-- The call found no name left. -/
def AnswersNoSpace (e : PortEvent) : Prop :=
  (∃ right, e.action.op = .portAllocate right) ∧ e.answer = .name (.error KERN_NO_SPACE)

/-- The names of a run: the two reserved ones are in no table it reaches, no
allocation answers a special one, and after an allocation without a name left no
right gets one. -/
structure NamesReserved (calls : List Call) : Prop where
  reserved : ∀ before after, calls = before ++ after →
    ¬ (portSystem.run .new before).Live MACH_PORT_NULL ∧
      ¬ (portSystem.run .new before).Live MACH_PORT_DEAD
  special : portSystem.Along (fun e => ∀ name, Allocates name e → name ∉ specialPorts) .new calls
  exhausted : ∀ before call between call' after,
    calls = before ++ call :: (between ++ call' :: after) →
    AnswersNoSpace (portSystem.event (portSystem.run .new before) call) →
    ∀ right, call'.op = .portAllocate right → portFor right ≠ none →
      AnswersNoSpace (portSystem.event (portSystem.run .new (before ++ call :: between)) call')

def isAllocate : Op → Bool
  | .portAllocate _ => true
  | _ => false

def allocations (calls : List Call) : Nat := calls.countP fun call => isAllocate call.op

theorem allocations_cons (call : Call) (rest : List Call) :
    allocations (call :: rest) = allocations rest + if isAllocate call.op then 1 else 0 :=
  List.countP_cons ..

theorem allocations_append (a b : List Call) :
    allocations (a ++ b) = allocations a + allocations b := List.countP_append

/-- A right is allocated while the counter has names, or at its last value; and a
right under a reserved name makes no entry. -/
def NamesLeft (calls : List Call) : Prop :=
  ∀ before call after, calls = before ++ call :: after →
    match call.op with
    | .portAllocate right => portFor right = none ∨ allocations before ≤ 0xFFFFEFFE ∨
        (0x1000 + allocations before) % 0x100000000 = 0xFFFFFFFE
    | .portInsertRight name _ polyType =>
      name = MACH_PORT_NULL ∨ name = MACH_PORT_DEAD → createdBy polyType = none
    | _ => True

theorem step_nextName (s : PortSpace) (call : Call) :
    (portSystem.step s call).1.nextName =
      if isAllocate call.op then s.nextName + 1 else s.nextName := by
  obtain ⟨caller, op⟩ := call
  cases op with
  | portAllocate right => exact (allocate_cases s right).1
  | portDeallocate name => exact (deallocate_reworks s name).1.nextName
  | portInsertRight name poly polyType => exact (insertRight_cases s name poly polyType).1.nextName
  | portModRefs name right delta => exact (modRefs_reworks s name right delta).1.nextName
  | portType name => rfl
  | machMsg msg option sendSize rcvSize rcvName =>
    exact (machMsg_live s msg option sendSize rcvSize rcvName).1

/-- The counter has moved once for each allocation, whatever it answered. -/
theorem run_nextName (s : PortSpace) (calls : List Call) :
    (portSystem.run s calls).nextName = s.nextName + BitVec.ofNat 32 (allocations calls) := by
  induction calls generalizing s with
  | nil => exact (BitVec.add_zero _).symm
  | cons call rest ih =>
    have hcount := allocations_cons call rest
    show (portSystem.run (portSystem.step s call).1 rest).nextName = _
    rw [ih, step_nextName, hcount]
    split_ifs
    · rw [BitVec.ofNat_add, BitVec.add_assoc, BitVec.add_comm 1]
      rfl
    · rfl

theorem new_nextName (calls : List Call) :
    (portSystem.run .new calls).nextName.toNat = (0x1000 + allocations calls) % 0x100000000 := by
  rw [run_nextName, BitVec.toNat_add, BitVec.toNat_ofNat]
  show (0x1000 + _) % _ = _
  omega

theorem allocate_noSpace (s : PortSpace) (right : BitVec 32) :
    (s.allocate right).2 = .error KERN_NO_SPACE ↔ s.nextName = 0xFFFFFFFE := by
  have hlast : 0xFFFFFFFE < s.nextName + 1 ↔ s.nextName = 0xFFFFFFFE := by
    constructor <;> intro h <;> bv_omega
  unfold allocate
  by_cases hspace : 0xFFFFFFFE < s.nextName + 1
  · simp only [if_pos hspace, true_iff]
    exact hlast.mp hspace
  · simp only [if_neg hspace]
    refine iff_of_false ?_ (mt hlast.mpr hspace)
    cases portFor right with
    | none => exact fun h => absurd (Except.error.inj h) (by decide)
    | some port => exact fun h => nomatch h

/-- A name that was not live is live after the call that allocates it or inserts
a right that makes an entry. -/
theorem step_live {s : PortSpace} {call : Call} {name : PortName}
    (h : (portSystem.step s call).1.Live name) :
    s.Live name ∨
    (∃ right, call.op = .portAllocate right ∧ portFor right ≠ none ∧ name = s.nextName ∧
      s.nextName ≠ 0xFFFFFFFE) ∨
    ∃ poly polyType, call.op = .portInsertRight name poly polyType ∧ createdBy polyType ≠ none := by
  obtain ⟨caller, op⟩ := call
  obtain ⟨port, hport⟩ := Option.ne_none_iff_exists'.mp h
  have hlive : ∀ {port}, s.ports name = some port → s.Live name :=
    fun hsome hnone => Option.some_ne_none _ (hsome.symm.trans hnone)
  cases perform_became hport with
  | same hsome => exact .inl (hlive hsome)
  | allocated hspace hright =>
    refine .inr (.inl ⟨_, rfl, fun hnone => Option.some_ne_none _ (hright.symm.trans hnone), rfl, ?_⟩)
    bv_omega
  | inserted _ hcreated =>
    exact .inr (.inr ⟨_, _, rfl, fun hnone => Option.some_ne_none _ (hcreated.symm.trans hnone)⟩)
  | lowered hsome _ _ => exact .inl (hlive hsome)
  | raised hsome => exact .inl (hlive hsome)
  | receiving hsome => exact .inl (hlive hsome)
  | modified hsome _ => exact .inl (hlive hsome)
  | messages hsome _ => exact .inl (hlive hsome)

theorem insertRight_live {s : PortSpace} {name poly polyType : BitVec 32}
    (h : createdBy polyType ≠ none) : (s.insertRight name poly polyType).1.Live name := by
  obtain ⟨hr, hcreate⟩ := insertRight_cases s name poly polyType
  unfold insertRight Live
  obtain ⟨port, hport⟩ := Option.ne_none_iff_exists'.mp h
  cases hname : s.ports name with
  | none => simp [hport]
  | some old =>
    simp only
    split_ifs <;> simp [hname]

/-- Of more than `m` allocations one was made after exactly `m`. -/
theorem allocations_split {calls : List Call} {m : Nat} (h : m < allocations calls) :
    ∃ before call after right, calls = before ++ call :: after ∧ call.op = .portAllocate right ∧
      allocations before = m := by
  induction calls generalizing m with
  | nil => exact absurd h (Nat.not_lt_zero m)
  | cons call rest ih =>
    have hcount := allocations_cons call rest
    by_cases halloc : isAllocate call.op = true
    · cases m with
      | zero =>
        obtain ⟨caller, op⟩ := call
        cases op with
        | portAllocate right => exact ⟨[], _, rest, right, rfl, rfl, rfl⟩
        | _ => exact nomatch halloc
      | succ m =>
        obtain ⟨before, call', after, right, heq, hop, hm⟩ := ih (m := m) (by
          rw [if_pos halloc] at hcount
          omega)
        exact ⟨call :: before, call', after, right, congrArg (call :: ·) heq, hop, by
          rw [allocations_cons, if_pos halloc, hm]⟩
    · obtain ⟨before, call', after, right, heq, hop, hm⟩ := ih (m := m) (by
        rw [if_neg halloc] at hcount
        omega)
      exact ⟨call :: before, call', after, right, congrArg (call :: ·) heq, hop, by
        rw [allocations_cons, if_neg halloc, hm, Nat.add_zero]⟩

theorem allocate_answers_noSpace {s : PortSpace} {call : Call} {right : BitVec 32}
    (hop : call.op = .portAllocate right) :
    AnswersNoSpace (portSystem.event s call) ↔ s.nextName = 0xFFFFFFFE := by
  obtain ⟨caller, op⟩ := call
  cases hop
  rw [← allocate_noSpace s right]
  exact ⟨fun h => Answer.name.inj h.2, fun h => ⟨⟨right, rfl⟩, congrArg Answer.name h⟩⟩

section Reserved
variable {calls : List Call}

/-- Under the condition on the run, no reserved name is live in a state it reaches. -/
theorem NamesLeft.reserved (h : NamesLeft calls) {before after : List Call}
    (heq : calls = before ++ after) :
    ¬ (portSystem.run .new before).Live MACH_PORT_NULL ∧
      ¬ (portSystem.run .new before).Live MACH_PORT_DEAD := by
  induction before using List.reverseRecOn generalizing after with
  | nil => exact ⟨by decide, by decide⟩
  | append_singleton before call ih =>
    have hsplit : calls = before ++ call :: after := by rw [heq]; simp
    obtain ⟨hnull, hdead⟩ := ih hsplit
    have hcall := h before call after hsplit
    have hnext := new_nextName before
    have hstep : portSystem.run .new (before ++ [call]) =
        (portSystem.step (portSystem.run .new before) call).1 := System.run_append portSystem ..
    have hnone : ∀ name, name = MACH_PORT_NULL ∨ name = MACH_PORT_DEAD →
        ¬ (portSystem.run .new before).Live name →
        ¬ (portSystem.run .new (before ++ [call])).Live name := by
      intro name hname hno hlive
      rw [hstep] at hlive
      rcases step_live hlive with hlive | ⟨right, hop, hright, hat, -⟩ | ⟨poly, polyType, hop, hmakes⟩
      · exact hno hlive
      · rw [hop] at hcall
        have hroom := (or_iff_right hright).mp hcall
        rw [← hat] at hnext
        rcases hname with rfl | rfl
        · have hzero : MACH_PORT_NULL.toNat = 0 := rfl
          omega
        · have hmax : MACH_PORT_DEAD.toNat = 0xFFFFFFFF := rfl
          omega
      · rw [hop] at hcall
        exact hmakes (hcall hname)
    exact ⟨hnone _ (.inl rfl) hnull, hnone _ (.inr rfl) hdead⟩

theorem NamesLeft.special (h : NamesLeft calls) :
    portSystem.Along (fun e => ∀ name, Allocates name e → name ∉ specialPorts) .new calls := by
  rw [System.along_iff_split]
  rintro before ⟨caller, op⟩ after heq name ⟨⟨right, hop⟩, hanswer⟩ hspecial
  cases hop
  have hroom := h before _ after heq
  have hnext := new_nextName before
  have hok := Answer.name.inj hanswer
  obtain ⟨-, ⟨port, -, hname, -⟩ | ⟨k, herr, -⟩⟩ := allocate_cases (portSystem.run .new before) right
  · rw [hok] at hname
    cases hname
    have hright : portFor right ≠ none := by
      intro hnone
      simp only [PortSpace.allocate, hnone] at hok
      split_ifs at hok
    have hbound : (specialPorts.all fun n => n.toNat < 0x1000) = true := by decide
    have := of_decide_eq_true (List.all_eq_true.mp hbound _ hspecial)
    have := (or_iff_right hright).mp hroom
    omega
  · exact nomatch hok.symm.trans herr

theorem NamesLeft.exhausted (h : NamesLeft calls) {before between after : List Call}
    {call call' : Call} (heq : calls = before ++ call :: (between ++ call' :: after))
    (hfull : AnswersNoSpace (portSystem.event (portSystem.run .new before) call))
    {right : BitVec 32} (hop : call'.op = .portAllocate right) (hright : portFor right ≠ none) :
    AnswersNoSpace (portSystem.event (portSystem.run .new (before ++ call :: between)) call') := by
  obtain ⟨first, hfirst⟩ : ∃ first, call.op = .portAllocate first := hfull.1
  have hend := (allocate_answers_noSpace hfirst).mp hfull
  have hlater := h (before ++ call :: between) call' after (by rw [heq]; simp)
  rw [hop] at hlater
  have hroom := (or_iff_right hright).mp hlater
  have hnext := new_nextName before
  have hnext' := new_nextName (before ++ call :: between)
  have hcount : allocations (before ++ call :: between) =
      allocations before + (allocations between + 1) := by
    rw [allocations_append, allocations_cons, hfirst]
    rfl
  have hmax : (0xFFFFFFFE : PortName).toNat = 0xFFFFFFFE := rfl
  rw [hend, hmax] at hnext
  apply (allocate_answers_noSpace hop).mpr
  apply BitVec.eq_of_toNat_eq
  rw [hnext', hmax]
  omega

/-- And a run that keeps its names meets the condition. -/
theorem NamesReserved.namesLeft (h : NamesReserved calls) : NamesLeft calls := by
  rintro before ⟨caller, op⟩ after heq
  cases op with
  | portAllocate right =>
    refine or_iff_not_imp_left.mpr fun hright => or_iff_not_imp_left.mpr fun hmany => ?_
    have hbefore : 0xFFFFEFFE < allocations before := by omega
    obtain ⟨first, call, between, right', hfirst, hop', hcount⟩ := allocations_split hbefore
    have hmax : (0xFFFFFFFE : PortName).toNat = 0xFFFFFFFE := rfl
    have hfull : AnswersNoSpace (portSystem.event (portSystem.run .new first) call) := by
      apply (allocate_answers_noSpace hop').mpr
      apply BitVec.eq_of_toNat_eq
      rw [new_nextName, hcount, hmax]
    have hagain := h.exhausted first call between ⟨caller, .portAllocate right⟩ after (by
      rw [heq, hfirst]
      simp) hfull right rfl hright
    rw [← hfirst] at hagain
    rw [← new_nextName, (allocate_answers_noSpace rfl).mp hagain]
    rfl
  | portInsertRight name poly polyType =>
    intro hname
    by_contra hmakes
    have hlive : ((portSystem.run .new before).insertRight name poly polyType).1.Live name :=
      insertRight_live hmakes
    have hafter := h.reserved (before ++ [⟨caller, .portInsertRight name poly polyType⟩]) after (by
      rw [heq]
      simp)
    rw [System.run_append] at hafter
    rcases hname with rfl | rfl
    · exact hafter.1 hlive
    · exact hafter.2 hlive
  | portDeallocate name => trivial
  | portModRefs name right delta => trivial
  | portType name => trivial
  | machMsg msg option sendSize rcvSize rcvName => trivial

end Reserved

/-- **A run keeps the reserved names free and a full space full just when** it
inserts no right under a reserved name and allocates none past the counter's end. -/
theorem names_reserved_iff (calls : List Call) : NamesReserved calls ↔ NamesLeft calls := by
  constructor
  · exact NamesReserved.namesLeft
  · intro h
    exact
      { reserved := fun before after heq => h.reserved heq
        special := h.special
        exhausted := fun before call between call' after heq hfull right hop hright =>
          h.exhausted heq hfull hop hright }

/-- A send right may be inserted under the null name. -/
theorem null_name_inserted : ¬ ∀ calls, NamesReserved calls := by
  intro h
  have hrun := (h [⟨0, .portInsertRight MACH_PORT_NULL 0 MACH_MSG_TYPE_MAKE_SEND⟩]).reserved
    [⟨0, .portInsertRight MACH_PORT_NULL 0 MACH_MSG_TYPE_MAKE_SEND⟩] [] rfl
  exact absurd (by decide) hrun.1

end Grafted.Dyld.MachIpc

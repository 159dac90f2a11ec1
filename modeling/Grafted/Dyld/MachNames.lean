import Grafted.Base.Transition
import Grafted.Dyld.MachPorts

/-! Fresh names.

The counter of `allocate` stays above every live name as long as nobody inserts a
right under a name the counter has not reached and nobody allocates past its end,
and then an allocation is fresh (`allocate_fresh`). An entry made at or past the
counter is replaced by some run of allocations (`insert_ahead_replaced`). -/
namespace Grafted.Dyld.MachIpc
open Transition PortSpace

/-- An allocation that succeeds answers a name that was not live, and no entry is
replaced. -/
def AllocatesFresh (e : PortEvent) : Prop :=
  ∀ name, Allocates name e → ¬ e.before.Live name ∧
    ∀ n port, e.before.ports n = some port → e.after.ports n = some port

/-- No call takes the counter past its end, and a right creates an entry only
under a name the counter has passed or will never answer. -/
def Disciplined (e : PortEvent) : Prop :=
  match e.action.op with
  | .portAllocate _ => e.before.nextName ≠ 0xFFFFFFFF
  | .portInsertRight name _ polyType =>
    e.before.Live name ∨ createdBy polyType = none ∨ name < e.before.nextName ∨ 0xFFFFFFFE ≤ name
  | _ => True

/-- The names in the table are those the counter has passed, and perhaps the two
it never answers. -/
def NamesBelow (s : PortSpace) : Prop :=
  ∀ n, s.Live n → n < s.nextName ∨ 0xFFFFFFFE ≤ n

theorem namesBelow_new : NamesBelow .new := by
  intro n hn
  have hname : n = SPECIAL_PORT_BOOTSTRAP ∨ n = SPECIAL_PORT_REPLY ∨ n = SPECIAL_PORT_HOST_SELF ∨
      n = SPECIAL_PORT_THREAD_SELF ∨ n = SPECIAL_PORT_TASK_SELF := by
    rcases live_set hn with h | h
    · exact .inl h
    rcases live_set h with h | h
    · exact .inr (.inl h)
    rcases live_set h with h | h
    · exact .inr (.inr (.inl h))
    rcases live_set h with h | h
    · exact .inr (.inr (.inr (.inl h)))
    rcases live_set h with h | h
    · exact .inr (.inr (.inr (.inr h)))
    · exact absurd rfl h
  left
  rcases hname with h | h | h | h | h <;> subst h <;> decide

theorem NamesBelow.live {s s' : PortSpace} (h : NamesBelow s) (hnext : s'.nextName = s.nextName)
    (hlive : ∀ n, s'.Live n → s.Live n) : NamesBelow s' := by
  intro n hn
  rw [hnext]
  exact h n (hlive n hn)

theorem NamesBelow.reworks {s s' : PortSpace} {name : PortName} (h : NamesBelow s)
    (hr : Reworks s s' name) (hdead : s.ports name = none → s' = s) : NamesBelow s' :=
  h.live hr.nextName fun _ => hr.live hdead

theorem NamesBelow.allocate {s : PortSpace} (h : NamesBelow s) (right : BitVec 32)
    (hend : s.nextName ≠ 0xFFFFFFFF) : NamesBelow (s.allocate right).1 := by
  intro n hn
  obtain ⟨hnext, hports⟩ := allocate_cases s right
  have hold : n = s.nextName ∨ s.Live n := by
    rcases hports with ⟨port, -, -, hset⟩ | ⟨_, -, hsame⟩
    · have hinserted : (s.set s.nextName (some port)).Live n := by
        unfold Live at hn ⊢
        rwa [hset] at hn
      exact live_set hinserted
    · exact .inr (by unfold Live at hn ⊢; rwa [hsame] at hn)
  rw [hnext]
  rcases hold with rfl | hlive
  · bv_omega
  · rcases h n hlive with hlt | hend'
    · bv_omega
    · exact .inr hend'

theorem NamesBelow.insertRight {s : PortSpace} (h : NamesBelow s) (name poly polyType : BitVec 32)
    (hname : s.Live name ∨ createdBy polyType = none ∨ name < s.nextName ∨ 0xFFFFFFFE ≤ name) :
    NamesBelow (s.insertRight name poly polyType).1 := by
  obtain ⟨hr, hcreate⟩ := insertRight_cases s name poly polyType
  by_cases hnone : s.ports name = none
  · rcases hcreate hnone with ⟨port, hport, -, hset⟩ | hsame
    · intro n hn
      rw [hset] at hn ⊢
      rcases live_set hn with rfl | hlive
      · rcases hname with hlive | hc | hbelow
        · exact absurd hnone hlive
        · exact nomatch hc.symm.trans hport
        · exact hbelow
      · exact h n hlive
    · rw [hsame]
      exact h
  · exact h.reworks hr fun hdead => absurd hdead hnone

theorem namesBelow_step (s : PortSpace) (call : Call) (h : NamesBelow s)
    (hd : Disciplined (portSystem.event s call)) : NamesBelow (portSystem.step s call).1 := by
  obtain ⟨caller, op⟩ := call
  cases op with
  | portAllocate right => exact h.allocate right hd
  | portDeallocate name =>
    exact h.reworks (deallocate_reworks s name).1 (deallocate_reworks s name).2
  | portInsertRight name poly polyType => exact h.insertRight name poly polyType hd
  | portModRefs name right delta =>
    exact h.reworks (modRefs_reworks s name right delta).1 (modRefs_reworks s name right delta).2
  | portType name => exact h
  | machMsg msg option sendSize rcvSize rcvName =>
    obtain ⟨hnext, hlive⟩ := machMsg_live s msg option sendSize rcvSize rcvName
    exact h.live hnext hlive

/-- Under the invariant an allocation that succeeds answers a name without an
entry, and leaves every entry there was. -/
theorem allocate_keeps {s : PortSpace} (h : NamesBelow s) {right : BitVec 32} {name : PortName}
    (hend : s.nextName ≠ 0xFFFFFFFF) (hok : (s.allocate right).2 = .ok name) :
    ¬ s.Live name ∧
      ∀ n port, s.ports n = some port → (s.allocate right).1.ports n = some port := by
  have hspace : s.nextName < 0xFFFFFFFE := by
    by_contra hge
    have hfull : 0xFFFFFFFE < s.nextName + 1 := by bv_omega
    simp only [allocate, if_pos hfull] at hok
    exact nomatch hok
  have hfresh : ¬ s.Live s.nextName := fun hlive => by
    rcases h _ hlive with hlt | hge <;> bv_omega
  obtain ⟨-, ⟨port, -, hname, hset⟩ | ⟨k, herr, -⟩⟩ := allocate_cases s right
  · rw [hok] at hname
    cases hname
    refine ⟨hfresh, fun n old hold => ?_⟩
    have hne : n ≠ s.nextName := by
      rintro rfl
      exact hfresh fun hnone => nomatch hnone.symm.trans hold
    rw [hset, set_other s _ hne, hold]
  · exact nomatch hok.symm.trans herr

/-- **In a disciplined run every allocation is fresh.** It answers a name that
was not live, and replaces no entry. -/
theorem allocate_fresh (calls : List Call) (h : portSystem.Along Disciplined .new calls) :
    portSystem.Along AllocatesFresh .new calls := by
  refine System.Along.of_invariant namesBelow_step ?_ namesBelow_new h
  rintro s ⟨caller, op⟩ hinv hd name ⟨⟨right, hop⟩, hanswer⟩
  cases hop
  exact allocate_keeps hinv hd (Answer.name.inj hanswer)

/-- The discipline, met by a run that allocates, inserts a right under the name
it was given, and allocates again. -/
theorem allocate_fresh_after_insert :
    ∃ calls, portSystem.Along Disciplined .new calls ∧ calls.length = 3 ∧
      portSystem.Along AllocatesFresh .new calls := by
  have h : portSystem.Along Disciplined .new
      [⟨0, .portAllocate MACH_PORT_RIGHT_RECEIVE⟩,
        ⟨1, .portInsertRight 0x1000 0x1000 MACH_MSG_TYPE_MAKE_SEND⟩,
        ⟨0, .portAllocate MACH_PORT_RIGHT_SEND⟩] := by
    refine System.along_cons.mpr ⟨?_, System.along_cons.mpr ⟨?_, System.along_cons.mpr
      ⟨?_, System.along_nil _ _⟩⟩⟩
    · show (0x1000 : PortName) ≠ 0xFFFFFFFF
      decide
    · exact .inr (.inr (.inl (by decide)))
    · show (0x1001 : PortName) ≠ 0xFFFFFFFF
      decide
  exact ⟨_, h, rfl, allocate_fresh _ h⟩

/-- The name the counter stands at, once a right is inserted under it, is
allocated all the same. -/
theorem allocate_replaces_inserted :
    ¬ ∀ calls, portSystem.Along AllocatesFresh .new calls := by
  intro h
  have hrun := h [⟨0, .portInsertRight 0x1000 0x1000 MACH_MSG_TYPE_MAKE_SEND⟩,
    ⟨1, .portAllocate MACH_PORT_RIGHT_RECEIVE⟩]
  obtain ⟨-, hrun⟩ := System.along_cons.mp hrun
  obtain ⟨hstep, -⟩ := System.along_cons.mp hrun
  exact (hstep 0x1000 ⟨⟨_, rfl⟩, rfl⟩).1 (by decide)

/-- The counter runs into a live name ahead of it. -/
theorem allocates_reach_live {name : PortName} (hend : name < 0xFFFFFFFE) {k : Nat} {s : PortSpace}
    (hlive : s.Live name) (hk : s.nextName.toNat + k = name.toNat) (caller : Nat) :
    ¬ portSystem.Along AllocatesFresh s
      (List.replicate (k + 1) ⟨caller, .portAllocate MACH_PORT_RIGHT_RECEIVE⟩) := by
  have hspace : ¬ 0xFFFFFFFE < s.nextName + 1 := by bv_omega
  induction k generalizing s with
  | zero =>
    have hname : s.nextName = name := by bv_omega
    intro h
    obtain ⟨hstep, -⟩ := System.along_cons.mp h
    refine (hstep name ⟨⟨_, rfl⟩, ?_⟩).1 hlive
    show Answer.name (s.allocate MACH_PORT_RIGHT_RECEIVE).2 = _
    simp only [PortSpace.allocate, if_neg hspace]
    rw [hname]
    rfl
  | succ k ih =>
    obtain ⟨hnext, hports⟩ := allocate_cases s MACH_PORT_RIGHT_RECEIVE
    intro h
    obtain ⟨-, hrest⟩ := System.along_cons.mp h
    refine ih ?_ ?_ ?_ hrest
    · show (s.allocate MACH_PORT_RIGHT_RECEIVE).1.ports name ≠ none
      rcases hports with ⟨port, -, -, hset⟩ | ⟨_, -, hsame⟩
      · rw [hset, set_other s _ (by bv_omega)]
        exact hlive
      · rw [hsame]
        exact hlive
    · show (s.allocate MACH_PORT_RIGHT_RECEIVE).1.nextName.toNat + k = name.toNat
      rw [hnext]
      bv_omega
    · show ¬ 0xFFFFFFFE < (s.allocate MACH_PORT_RIGHT_RECEIVE).1.nextName + 1
      rw [hnext]
      bv_omega

/-- The discipline on inserted names cannot be weakened: after any right that
makes an entry at or past the counter, some run of allocations replaces it. -/
theorem insert_ahead_replaced {s : PortSpace} {name : PortName} (poly polyType : BitVec 32)
    (hahead : s.nextName ≤ name) (hend : name < 0xFFFFFFFE) (hdead : ¬ s.Live name)
    {port : Port} (hport : createdBy polyType = some port) :
    ∃ calls, ¬ portSystem.Along AllocatesFresh s calls := by
  have hnone : s.ports name = none := not_not.mp hdead
  have hset : (s.insertRight name poly polyType).1 = s.set name (some port) := by
    simp only [PortSpace.insertRight, hnone, hport]
  refine ⟨⟨0, .portInsertRight name poly polyType⟩ :: List.replicate
    (name.toNat - s.nextName.toNat + 1) ⟨0, .portAllocate MACH_PORT_RIGHT_RECEIVE⟩, fun h => ?_⟩
  obtain ⟨-, hrest⟩ := System.along_cons.mp h
  refine allocates_reach_live hend ?_ ?_ 0 hrest
  · show (s.insertRight name poly polyType).1.ports name ≠ none
    rw [hset, set_same]
    exact Option.some_ne_none port
  · show (s.insertRight name poly polyType).1.nextName.toNat + _ = _
    rw [hset, set_nextName]
    bv_omega

end Grafted.Dyld.MachIpc

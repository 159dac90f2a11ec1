import Grafted.Loader.CrashDecode

/-! Skipping the instruction of the binary that faulted.

The handler of SIGSEGV moves `rip` behind the instruction it decoded and clears the register
that it believes is loaded; between retries the instruction is overwritten with NOPs. The skip is
right where the length is (`skipsExactly_iff`), and the register is one that the instruction writes
but for two kinds (`clearsWritten_iff`). -/
namespace Grafted.Loader.CrashSkip
open ByteMemory X86 SigsysHandler

/-! ### The skip -/

/-- Where the handler skips instructions. -/
def InBinary (rip : Address) : Prop := 0x100000000 ≤ rip ∧ rip < 0x100200000

/-- A handler that returns has skipped: it edits nothing but `rip` and the register, and
saves the site. -/
structure Skipped (m : Memory) (ctx : Ucontext) (s : Recovery) (ctx' : Ucontext) (s' : Recovery) :
    Prop where
  decoded : 0 < (decodeBinaryInsn m ctx.rip).1
  rip : ctx'.rip = ctx.rip + BitVec.ofNat 64 (decodeBinaryInsn m ctx.rip).1
  gregs : ctx'.gregs = match gregOf (decodeBinaryInsn m ctx.rip).2 with
    | some r => Function.update ctx.gregs r 0
    | none => ctx.gregs
  site : ∀ i : Fin 256, i.val = s.crashSiteCount.toNat →
    s'.crashSites i = ⟨ctx.rip, BitVec.ofNat 8 (decodeBinaryInsn m ctx.rip).1⟩

theorem skipped_of_resumed {m : Memory} {sig : BitVec 32} {ctx ctx' : Ucontext} {s s' : Recovery}
    (h : sigsegvHandler m sig ctx s = .resumed ctx' s') (hrip : InBinary ctx.rip) :
    Skipped m ctx s ctx' s' := by
  have hnull : ctx.rip ≠ 0 := by
    intro heq
    rw [heq] at hrip
    exact absurd hrip.1 (by decide)
  unfold sigsegvHandler at h
  simp only [hnull, false_and, and_false, if_false] at h
  split_ifs at h with _ _ _ _ hskip
  cases h
  refine ⟨hskip.2.2.2, rfl, rfl, fun i hi => ?_⟩
  exact if_pos hi

/-- Bytes written one after the other. -/
theorem foldl_writeByte (m : Memory) (a x : Address) (b : Byte) {n : Nat} (hn : n < 2 ^ 64) :
    (List.range n).foldl (fun m k => m.writeByte (a + BitVec.ofNat 64 k) b) m x =
      if Within a n x then b else m x := by
  induction n with
  | zero => exact (if_neg (Nat.not_lt_zero _)).symm
  | succ n ih =>
    rw [List.range_succ, List.foldl_append, List.foldl_cons, List.foldl_nil, Memory.writeByte,
      ih (by omega)]
    by_cases hx : x = a + BitVec.ofNat 64 n
    · have hin : Within a (n + 1) x := by
        rw [hx, Within]
        bv_omega
      rw [if_pos hx, if_pos hin]
    · have hsame : Within a (n + 1) x ↔ Within a n x := by
        simp only [Within]
        constructor
        · intro hin
          bv_omega
        · intro hin
          omega
      rw [if_neg hx]
      exact (if_congr hsame rfl rfl).symm

theorem nopSite_apply {m : Memory} {site : CrashSite} (haddr : site.addr ≠ 0) (x : Address) :
    nopSite true m site x = if Within site.addr site.len.toNat x then 0x90 else m x := by
  have hlt : site.len.toNat < 2 ^ 64 := Nat.lt_trans site.len.isLt (by decide)
  unfold nopSite
  by_cases hlen : site.len = 0
  · have hout : ¬ Within site.addr site.len.toNat x := by
      rw [hlen]
      exact Nat.not_lt_zero _
    rw [if_pos (.inr (.inl hlen)), if_neg hout]
  · have hwritten : ¬ (site.addr = 0 ∨ site.len = 0 ∨ ¬ true = true) := by
      rintro (h | h | h)
      · exact haddr h
      · exact hlen h
      · exact h rfl
    rw [if_neg hwritten, foldl_writeByte m site.addr x 0x90 hlt]

/-- The bytes that a site has NOPs for. -/
def CrashSite.Covers (site : CrashSite) (x : Address) : Prop :=
  site.addr ≠ 0 ∧ Within site.addr site.len.toNat x

theorem nopSite_covers (writable : Bool) (m : Memory) (site : CrashSite) (x : Address) :
    (writable ∧ site.Covers x → nopSite writable m site x = 0x90) ∧
      (¬ (writable ∧ site.Covers x) → nopSite writable m site x = m x) := by
  by_cases haddr : site.addr = 0
  · have hskip : nopSite writable m site = m := if_pos (.inl haddr)
    exact ⟨fun h => absurd haddr h.2.1, fun _ => congrFun hskip x⟩
  · cases writable with
    | false =>
      have hskip : nopSite false m site = m := if_pos (.inr (.inr (by decide)))
      exact ⟨fun h => absurd h.1 (by decide), fun _ => congrFun hskip x⟩
    | true =>
      refine ⟨fun h => ?_, fun h => ?_⟩
      · rw [nopSite_apply haddr, if_pos h.2.2]
      · rw [nopSite_apply haddr, if_neg fun hin => h ⟨rfl, haddr, hin⟩]

/-- Between retries the bytes of the saved sites become NOPs, and no others. -/
theorem nopSavedCrashSites_apply (writable : Fin 256 → Bool) (m : Memory) (s : Recovery)
    (x : Address) :
    ((∃ i ∈ (List.finRange 256).take (min s.crashSiteCount.toNat 256),
        writable i ∧ (s.crashSites i).Covers x) → (nopSavedCrashSites writable m s).1 x = 0x90) ∧
      ((∀ i ∈ (List.finRange 256).take (min s.crashSiteCount.toNat 256),
        ¬ (writable i ∧ (s.crashSites i).Covers x)) → (nopSavedCrashSites writable m s).1 x = m x) := by
  simp only [nopSavedCrashSites]
  generalize (List.finRange 256).take _ = sites
  induction sites generalizing m with
  | nil => simp
  | cons i rest ih =>
    obtain ⟨hcovered, hkept⟩ := ih (nopSite (writable i) m (s.crashSites i))
    obtain ⟨hfirst, hnot⟩ := nopSite_covers (writable i) m (s.crashSites i) x
    simp only [List.foldl_cons, List.mem_cons, forall_eq_or_imp, exists_eq_or_imp]
    constructor
    · intro h
      by_cases hrest : ∃ j ∈ rest, writable j ∧ (s.crashSites j).Covers x
      · exact hcovered hrest
      · rw [hkept fun j hj hin => hrest ⟨j, hj, hin⟩]
        exact hfirst (h.resolve_right hrest)
    · intro h
      rw [hkept h.2]
      exact hnot h.1

/-- What a skip of the instruction at `rip` owes, whatever else the handler has seen: its
length, the next instruction, and NOPs for its bytes and no others. -/
structure SkipsExactly (m : Memory) (rip : Address) (i : MemoryInsn) : Prop where
  length : (decodeBinaryInsn m rip).1 = i.bytes.length
  resumes : ∀ sig ctx s ctx' s', ctx.rip = rip → InBinary rip →
    sigsegvHandler m sig ctx s = .resumed ctx' s' → ctx'.rip = after rip i.bytes
  patches : ∀ sig ctx s ctx' s', ctx.rip = rip → InBinary rip →
    sigsegvHandler m sig ctx s = .resumed ctx' s' →
      ∀ idx : Fin 256, idx.val = s.crashSiteCount.toNat → ∀ m' x,
        nopSite true m' (s'.crashSites idx) x = if Within rip i.bytes.length x then 0x90 else m' x

/-- The skip is exact for an instruction that is decoded, unless a SIB without mode has a
base, or the instruction is a move of a constant of four bytes, or one operand is taken by
an opcode that may take two. -/
theorem skipsExactly_iff {m : Memory} {rip : Address} {i : MemoryInsn}
    (hi : MemoryInsn.read m rip = some i) (hlen : 0 < (decodeBinaryInsn m rip).1) :
    SkipsExactly m rip i ↔ LengthKnown i := by
  have heq := decode_eq (MemoryInsn.read_eq_some.mp hi)
  have hiff : (decodeBinaryInsn m rip).1 = i.bytes.length ↔ LengthKnown i := by
    rw [heq] at hlen ⊢
    exact decoded_length_iff hlen
  constructor
  · intro h
    exact hiff.mp h.length
  · intro hknown
    have hlength := hiff.mpr hknown
    refine ⟨hlength, ?_, ?_⟩
    · intro sig ctx s ctx' s' hrip hin h
      subst hrip
      rw [(skipped_of_resumed h hin).rip, hlength]
      rfl
    · intro sig ctx s ctx' s' hrip hin h idx hidx m' x
      subst hrip
      have haddr : ctx.rip ≠ 0 := by
        intro hzero
        rw [hzero] at hin
        exact absurd hin.1 (by decide)
      have hshort := i.length_bytes_le
      have hlen : (BitVec.ofNat 8 i.bytes.length).toNat = i.bytes.length := by
        rw [BitVec.toNat_ofNat]
        omega
      rw [(skipped_of_resumed h hin).site idx hidx, nopSite_apply haddr, hlength, hlen]

/-- Memory with some code in it. -/
def codeMemory (base : Address) (bytes : List Byte) : Memory :=
  fun a => bytes.getD (a - base).toNat 0

/-- A load relative to a register. -/
theorem skipsExactly_load : ∃ i,
    MemoryInsn.read (codeMemory 0x100001000 [0x48, 0x8b, 0x47, 0x10]) 0x100001000 = some i ∧
      SkipsExactly (codeMemory 0x100001000 [0x48, 0x8b, 0x47, 0x10]) 0x100001000 i := by
  have hread : (MemoryInsn.read (codeMemory 0x100001000 [0x48, 0x8b, 0x47, 0x10]) 0x100001000).map
      (fun i => decide (LengthKnown i)) = some true := by decide
  obtain ⟨i, hi, hknown⟩ := Option.map_eq_some_iff.mp hread
  exact ⟨i, hi, (skipsExactly_iff hi (by decide)).mpr (of_decide_eq_true hknown)⟩

/-- The load from an address that is its displacement is seven bytes, not three. -/
theorem skip_inside_instruction : ∃ m rip i, MemoryInsn.read m rip = some i ∧
    0 < (decodeBinaryInsn m rip).1 ∧ ¬ SkipsExactly m rip i := by
  have hlen : (MemoryInsn.read (codeMemory 0x100001000 [0x8b, 0x04, 0x25, 0x00, 0x10, 0x00, 0x00])
      0x100001000).map (fun i => i.bytes.length) = some 7 := by decide
  obtain ⟨i, hi, hseven⟩ := Option.map_eq_some_iff.mp hlen
  refine ⟨_, _, i, hi, by decide, fun h => ?_⟩
  have hthree : (decodeBinaryInsn (codeMemory 0x100001000 [0x8b, 0x04, 0x25, 0x00, 0x10, 0x00, 0x00])
      0x100001000).1 = 3 := by decide
  have hlength := h.length
  rw [hthree, hseven] at hlength
  cases hlength

/-! ### The register -/

/-- An instruction whose register is decoded: no comparison, and not a byte moved to the second
byte of a register. -/
def DestKnown (i : MemoryInsn) : Prop :=
  i.opcode ∉ [.one 0x3a, .one 0x3b] ∧
    ¬ (i.opcode = .one 0x8a ∧ i.rex.isNone ∧ 4 ≤ ext i.modrm)

instance : DecidablePred DestKnown := fun _ => inferInstanceAs (Decidable (_ ∧ _))

theorem ext_lt (modrm : Byte) : (ext modrm).toNat < 8 := by
  revert modrm
  decide

theorem gregOf_register (i : MemoryInsn) :
    gregOf (((ext i.modrm).toNat + i.rexR : Nat) : Int) = some i.register := by
  have hext := ext_lt i.modrm
  have hbit : i.rexR ≤ 8 := by
    unfold MemoryInsn.rexR
    split_ifs <;> decide
  rw [gregOf, if_pos (by omega), Int.toNat_natCast]
  rfl

/-- What the opcodes do that are believed to load a register. -/
theorem loads_dest : loads.all fun b => b ∈ [0x3a, 0x3b] ∨ b = 0x8a ∨ b ∈ [0x63, 0x8b] ∨
    isArith b ∧ ¬ isCompare b ∧ b &&& 3 = 3 := by
  decide

/-- The second bytes are of other registers. -/
theorem ofNumber_sub_ne {n : Nat} (hlow : 4 ≤ n) (hhigh : n < 8) :
    Reg.ofNumber n ≠ Reg.ofNumber (n - 4) := by
  obtain rfl | rfl | rfl | rfl : n = 4 ∨ n = 5 ∨ n = 6 ∨ n = 7 := by omega
  all_goals decide

theorem byteRegister_eq_iff (i : MemoryInsn) :
    i.register = i.byteRegister ↔ ¬ (i.rex.isNone ∧ 4 ≤ ext i.modrm) := by
  unfold MemoryInsn.byteRegister
  split_ifs with hsecond
  · have hR : i.rexR = 0 := by
      rw [MemoryInsn.rexR, Option.isNone_iff_eq_none.mp hsecond.1]
      rfl
    have hne := ofNumber_sub_ne hsecond.2 (ext_lt i.modrm)
    simp only [MemoryInsn.register, hR, Nat.add_zero, hne, hsecond, and_self, not_true_eq_false]
  · simp only [hsecond, not_false_eq_true]

theorem register_written_iff {i : MemoryInsn} {immSize : Nat}
    (h : formOf i.opcode = some (immSize, true)) : i.register ∈ i.written ↔ DestKnown i := by
  unfold DestKnown
  cases ho : i.opcode with
  | two b => simp [MemoryInsn.written, ho]
  | one b =>
    rw [ho] at h
    obtain ⟨hb, -⟩ | ⟨-, hfalse⟩ := formOf_one h
    · obtain hcompare | rfl | hmove | ⟨harith, hcompare, hlow⟩ :=
        of_decide_eq_true (List.all_eq_true.mp loads_dest b hb)
      · -- nothing is written
        have hwritten : i.written = [] := by
          obtain rfl | rfl : b = 0x3a ∨ b = 0x3b := by simpa using hcompare
          all_goals
            rw [MemoryInsn.written, ho]
            rfl
        have hmem : Opcode.one b ∈ [.one 0x3a, .one 0x3b] := by simpa using hcompare
        simp only [hwritten, List.not_mem_nil, hmem, not_true_eq_false, false_and]
      · -- a byte, which is the register's or that of another
        have hwritten : i.written = [i.byteRegister] := by
          rw [MemoryInsn.written, ho]
          rfl
        have hmem : Opcode.one 0x8a ∉ [.one 0x3a, .one 0x3b] := by decide
        simp only [hwritten, List.mem_singleton, byteRegister_eq_iff, hmem, not_false_eq_true, true_and]
      · have hwritten : i.written = [i.register] := by
          obtain rfl | rfl : b = 0x63 ∨ b = 0x8b := by simpa using hmove
          all_goals
            rw [MemoryInsn.written, ho]
            rfl
        obtain rfl | rfl : b = 0x63 ∨ b = 0x8b := by simpa using hmove
        all_goals simp [hwritten]
      · have hwritten : i.written = [i.register] := by
          rw [MemoryInsn.written, ho]
          simp only [harith, hcompare, hlow, if_true]
          rfl
        have hmem : Opcode.one b ∉ [.one 0x3a, .one 0x3b] := by
          intro hin
          obtain rfl | rfl : b = 0x3a ∨ b = 0x3b := by simpa using hin
          all_goals exact hcompare rfl
        have hbyte : b ≠ 0x8a := by
          rintro rfl
          cases harith
        simp only [hwritten, List.mem_singleton, hmem, hbyte, Opcode.one.injEq,
          not_false_eq_true, false_and, and_self]
    · cases hfalse

theorem destKnown_of_false {i : MemoryInsn} {immSize : Nat}
    (h : formOf i.opcode = some (immSize, false)) : DestKnown i := by
  have hothers : others.all fun other => other.1 ∉ [0x3a, 0x3b, 0x8a] := by decide
  unfold DestKnown
  cases ho : i.opcode with
  | two b => simp
  | one b =>
    rw [ho] at h
    obtain ⟨-, hform⟩ | ⟨hb, -⟩ := formOf_one h
    · cases hform
    · have hne := of_decide_eq_true (List.all_eq_true.mp hothers (b, immSize) hb)
      simp only [List.mem_cons, List.not_mem_nil, or_false, not_or] at hne
      simp only [List.mem_cons, List.not_mem_nil, Opcode.one.injEq, hne, or_false, not_false_eq_true,
        false_and, and_self]

/-- What clearing a register owes: the register that is reported is one that the instruction
writes, and a handler that skips clears no other. -/
structure ClearsWritten (m : Memory) (rip : Address) (i : MemoryInsn) : Prop where
  reported : ∀ r, gregOf (decodeBinaryInsn m rip).2 = some r → r ∈ i.written
  kept : ∀ sig ctx s ctx' s', ctx.rip = rip → InBinary rip →
    sigsegvHandler m sig ctx s = .resumed ctx' s' →
      ∀ r, r ∉ i.written → ctx'.gregs r = ctx.gregs r

theorem kept_of_reported {m : Memory} {rip : Address} {i : MemoryInsn}
    (h : ∀ r, gregOf (decodeBinaryInsn m rip).2 = some r → r ∈ i.written) :
    ClearsWritten m rip i := by
  refine ⟨h, ?_⟩
  intro sig ctx s ctx' s' hrip hin hresumed r hr
  subst hrip
  rw [(skipped_of_resumed hresumed hin).gregs]
  cases hdest : gregOf (decodeBinaryInsn m ctx.rip).2 with
  | none => rfl
  | some dest =>
    have hne : r ≠ dest := fun heq => hr (heq ▸ h dest hdest)
    exact Function.update_of_ne hne ..

/-- What is cleared is written by an instruction that is decoded, unless it compares, or
loads the second byte of a register. -/
theorem clearsWritten_iff {m : Memory} {rip : Address} {i : MemoryInsn}
    (hi : MemoryInsn.read m rip = some i) (hlen : 0 < (decodeBinaryInsn m rip).1) :
    ClearsWritten m rip i ↔ DestKnown i := by
  have heq := decode_eq (MemoryInsn.read_eq_some.mp hi)
  cases hform : formOf i.opcode with
  | none =>
    rw [heq, decoded, hform] at hlen
    exact absurd hlen (Nat.lt_irrefl 0)
  | some form =>
    obtain ⟨immSize, hasDestReg⟩ := form
    cases hasDestReg with
    | true =>
      have hdest : gregOf (decodeBinaryInsn m rip).2 = some i.register := by
        rw [heq, decoded, hform]
        exact gregOf_register i
      rw [← register_written_iff hform]
      constructor
      · intro h
        exact h.reported i.register hdest
      · intro h
        refine kept_of_reported fun r hr => ?_
        cases hdest.symm.trans hr
        exact h
    | false =>
      -- nothing is cleared, and the two kinds are believed to load
      have hdest : gregOf (decodeBinaryInsn m rip).2 = none := by
        rw [heq, decoded, hform]
        rfl
      have hknown := destKnown_of_false hform
      refine iff_of_true (kept_of_reported fun r hr => ?_) hknown
      cases hdest.symm.trans hr

theorem clearsWritten_load : ∃ i,
    MemoryInsn.read (codeMemory 0x100001000 [0x48, 0x8b, 0x47, 0x10]) 0x100001000 = some i ∧
      ClearsWritten (codeMemory 0x100001000 [0x48, 0x8b, 0x47, 0x10]) 0x100001000 i := by
  have hread : (MemoryInsn.read (codeMemory 0x100001000 [0x48, 0x8b, 0x47, 0x10]) 0x100001000).map
      (fun i => decide (DestKnown i)) = some true := by decide
  obtain ⟨i, hi, hknown⟩ := Option.map_eq_some_iff.mp hread
  exact ⟨i, hi, (clearsWritten_iff hi (by decide)).mpr (of_decide_eq_true hknown)⟩

/-- Comparing the stack pointer with memory clears it. -/
theorem compare_clears_rsp : ∃ m rip i, MemoryInsn.read m rip = some i ∧
    0 < (decodeBinaryInsn m rip).1 ∧ ¬ ClearsWritten m rip i := by
  have hread : (MemoryInsn.read (codeMemory 0x100001000 [0x48, 0x3b, 0x27]) 0x100001000).map
      (fun i => i.written) = some [] := by decide
  obtain ⟨i, hi, hwritten⟩ := Option.map_eq_some_iff.mp hread
  refine ⟨_, _, i, hi, by decide, fun h => ?_⟩
  have hrsp := h.reported .rsp (by decide)
  rw [hwritten] at hrsp
  cases hrsp

end Grafted.Loader.CrashSkip

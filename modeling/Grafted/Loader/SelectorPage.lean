import Mathlib.Data.Fintype.Card
import Mathlib.Logic.Function.Basic
import Grafted.Base.ByteMemory
import Grafted.Base.Transition

/-! The selector bytes of the threads.

The page of the bytes is mapped by whoever needs it first, and several threads may find that
there is none: a compare-and-swap decides whose stays. The offsets are from a counter, so no
two threads get one (`Inv.apart`); a thread whose offset is not on the page ends the process,
and there are fewer threads than counts, so the counter does not come round
(`Inv.next_le`). A run is any order of the threads' steps. -/
namespace Grafted.Loader.SelectorPage
open ByteMemory Transition

/-! ### The source -/

/-- A thread's id, a `pid_t`. When a thread has ended its id may be another's. -/
abbrev Thread := BitVec 32

/-- What `mmap` answers: an address that is not null, on a page boundary. -/
structure Page where
  addr : Address
  nonnull : addr ≠ 0
  aligned : addr.toNat % 4096 = 0

/-- Who wants a selector. `execute`, the shims and the trampolines call `selector_ptr`. -/
inductive Call where
  | threadStartWrapper
  | selectorPtr
  deriving DecidableEq

/-- What the thread does next. -/
inductive Pc where
  /-- `SELECTOR_PAGE.load`. -/
  | load
  | mmap
  | compareExchange (newPtr : Page)
  /-- Another's page was there. -/
  | reload
  /-- `SELECTOR_NEXT.fetch_add`. -/
  | fetchAdd (page : Address)
  /-- `assert!`. -/
  | check (page : Address) (offset : Word)
  /-- The byte becomes ALLOW. -/
  | store (ptr : Address)
  | set (ptr : Address)
  /-- `setup_thread_sud`. -/
  | setup (ptr : Address)

structure State where
  /-- `SELECTOR_PAGE` -/
  page : Address
  /-- `SELECTOR_NEXT` -/
  next : Word
  memory : Memory
  /-- How often memory was mapped. -/
  mappings : Nat
  /-- `THREAD_SELECTOR`, of each thread. -/
  selector : Thread → Address
  pc : Thread → Option (Call × Pc)
  aborted : Bool

def State.new : State := ⟨0, 0, fun _ => 0, 0, fun _ => 0, fun _ => none, false⟩

def State.setPc (s : State) (t : Thread) (pc : Option (Call × Pc)) : State :=
  {s with pc := Function.update s.pc t pc}

def State.setSelector (s : State) (t : Thread) (ptr : Address) : State :=
  {s with selector := Function.update s.selector t ptr}

inductive Action where
  | call (t : Thread) (c : Call)
  | step (t : Thread)
  /-- The thread ends, and its thread-local storage with it. -/
  | finish (t : Thread)

/-- A pointer to a byte, and to whom it is answered. -/
abbrev Answer := Option (Call × Address)

/-- What a call begins with. -/
def begin (s : State) (t : Thread) : Call → State × Answer
  | .threadStartWrapper => (s.setPc t (some (.threadStartWrapper, .load)), none)
  | .selectorPtr =>
    if s.selector t ≠ 0 then (s, some (.selectorPtr, s.selector t))
    else (s.setPc t (some (.selectorPtr, .load)), none)

/-- One operation of a thread. A failed `expect` or `assert!` ends the process. -/
def advance (mmap : Nat → Option Page) (s : State) (t : Thread) (c : Call) : Pc → State × Answer
  | .load =>
    if s.page ≠ 0 then (s.setPc t (some (c, .fetchAdd s.page)), none)
    else (s.setPc t (some (c, .mmap)), none)
  | .mmap =>
    match mmap s.mappings with
    | some newPtr => ({s.setPc t (some (c, .compareExchange newPtr)) with mappings := s.mappings + 1}, none)
    | none => ({s with aborted := true}, none)
  | .compareExchange newPtr =>
    if s.page = 0 then ({s.setPc t (some (c, .fetchAdd newPtr.addr)) with page := newPtr.addr}, none)
    else (s.setPc t (some (c, .reload)), none)
  | .reload => (s.setPc t (some (c, .fetchAdd s.page)), none)
  | .fetchAdd page => ({s.setPc t (some (c, .check page s.next)) with next := s.next + 1}, none)
  | .check page offset =>
    if offset < 4096 then (s.setPc t (some (c, .store (page + offset))), none)
    else ({s with aborted := true}, none)
  | .store ptr => ({s.setPc t (some (c, .set ptr)) with memory := s.memory.writeByte ptr 0}, none)
  | .set ptr =>
    let s := s.setSelector t ptr
    match c with
    | .threadStartWrapper => (s.setPc t (some (c, .setup ptr)), none)
    | .selectorPtr => (s.setPc t none, some (c, ptr))
  | .setup ptr =>
    ({(s.setSelector t ptr).setPc t none with memory := s.memory.writeByte ptr 1}, some (c, ptr))

def selectorStep (mmap : Nat → Option Page) (s : State) (a : Action) : State × Answer :=
  if s.aborted then (s, none)
  else
    match a with
    | .call t c => if s.pc t = none then begin s t c else (s, none)
    | .step t =>
      match s.pc t with
      | none => (s, none)
      | some (c, pc) => advance mmap s t c pc
    | .finish t => if s.pc t = none then (s.setSelector t 0, none) else (s, none)

def selectorSystem (mmap : Nat → Option Page) : System State Action Answer := ⟨selectorStep mmap⟩

/-! ### One thread -/

/-- The offset of a pointer on its page. -/
def ticket (ptr : Address) : Nat := ptr.toNat % 4096

/-- The pointer is on the page that is there, and its offset was given out. -/
structure OnPage (page : Address) (next : Nat) (ptr : Address) : Prop where
  mapped : page ≠ 0
  same : ptr.toNat / 4096 = page.toNat / 4096
  given : ticket ptr < next

/-- The offset that the thread has and is not yet in its selector. -/
def Pc.ticket? : Pc → Option Nat
  | .check _ offset => some offset.toNat
  | .store ptr | .set ptr => some (ticket ptr)
  | _ => none

/-- What is so where a thread is. -/
def Placed (page : Address) (next : Nat) (sel : Address) (c : Call) : Pc → Prop
  | .load | .mmap | .compareExchange _ => True
  | .reload => page ≠ 0
  | .fetchAdd p => page ≠ 0 ∧ p = page
  | .check p offset => (page ≠ 0 ∧ p = page) ∧ offset.toNat < next
  | .store ptr | .set ptr => OnPage page next ptr
  | .setup ptr => c = .threadStartWrapper ∧ OnPage page next ptr ∧ sel = ptr

/-- What is so of each thread. -/
structure Good (page : Address) (next : Nat) (sel : Address) (pc : Option (Call × Pc)) : Prop where
  selector : sel ≠ 0 → OnPage page next sel
  unset : ∀ at', pc = some (.selectorPtr, at') → sel = 0
  placed : ∀ c at', pc = some (c, at') → Placed page next sel c at'

section Good
variable {page page' : Address} {next next' : Nat} {sel : Address} {pc : Option (Call × Pc)}

theorem OnPage.mono {ptr : Address} (h : OnPage page next ptr) (hpage : page ≠ 0 → page' = page)
    (hnext : next ≤ next') : OnPage page' next' ptr := by
  obtain ⟨hmapped, hsame, hgiven⟩ := h
  rw [hpage hmapped]
  exact ⟨hmapped, hsame, Nat.lt_of_lt_of_le hgiven hnext⟩

/-- More offsets, and a page where there was none. -/
theorem Good.mono (h : Good page next sel pc) (hpage : page ≠ 0 → page' = page) (hnext : next ≤ next') :
    Good page' next' sel pc := by
  refine ⟨fun hsel => (h.selector hsel).mono hpage hnext, h.unset, ?_⟩
  intro c at' hpc
  have hplaced := h.placed c at' hpc
  cases at' with
  | load => trivial
  | mmap => trivial
  | compareExchange newPtr => trivial
  | reload =>
    have hmapped : page ≠ 0 := hplaced
    show page' ≠ 0
    rw [hpage hmapped]
    exact hmapped
  | fetchAdd p =>
    obtain ⟨hmapped, hp⟩ := hplaced
    rw [Placed, hpage hmapped]
    exact ⟨hmapped, hp⟩
  | check p offset =>
    obtain ⟨⟨hmapped, hp⟩, hoffset⟩ := hplaced
    rw [Placed, hpage hmapped]
    exact ⟨⟨hmapped, hp⟩, Nat.lt_of_lt_of_le hoffset hnext⟩
  | store ptr => exact OnPage.mono hplaced hpage hnext
  | set ptr => exact OnPage.mono hplaced hpage hnext
  | setup ptr =>
    obtain ⟨hc, hptr, hsel⟩ := hplaced
    exact ⟨hc, hptr.mono hpage hnext, hsel⟩

/-- A thread goes on, with the selector as it is. -/
theorem Good.goto {c : Call} {at' at'' : Pc} (h : Good page next sel (some (c, at')))
    (hplaced : Placed page next sel c at'') : Good page next sel (some (c, at'')) := by
  refine ⟨h.selector, ?_, ?_⟩
  · rintro other heq
    cases heq
    exact h.unset at' rfl
  · rintro c' other heq
    cases heq
    exact hplaced

end Good

/-! ### All threads -/

/-- The thread has the offset, in its selector or on the way there. -/
def HasTicket (s : State) (t : Thread) (k : Nat) : Prop :=
  (s.selector t ≠ 0 ∧ ticket (s.selector t) = k) ∨ ∃ c at', s.pc t = some (c, at') ∧ at'.ticket? = some k

structure Inv (s : State) : Prop where
  aligned : s.page.toNat % 4096 = 0
  good : ∀ t, Good s.page s.next.toNat (s.selector t) (s.pc t)
  /-- An offset is one thread's. -/
  apart : ∀ t t' k, HasTicket s t k → HasTicket s t' k → t = t'
  /-- A thread whose offset is not on the page is still there. -/
  late : ∀ k, 4096 ≤ k → k < s.next.toNat →
    ∃ t c page offset, s.pc t = some (c, .check page offset) ∧ offset.toNat = k

theorem inv_new : Inv State.new := by
  refine ⟨rfl, ?_, ?_, ?_⟩
  · intro t
    refine ⟨fun h => absurd rfl h, ?_, ?_⟩
    · intro at' h
      cases h
    · intro c at' h
      cases h
  · rintro t t' k h -
    obtain ⟨hsel, -⟩ | ⟨c, at', hpc, -⟩ := h
    · exact absurd rfl hsel
    · cases hpc
  · intro k hk hlt
    exact absurd hlt (Nat.not_lt_zero k)

/-- No more than one late offset for each thread there can be. -/
theorem Inv.next_le {s : State} (h : Inv s) : s.next.toNat ≤ 4096 + 2 ^ 32 := by
  have hlate : ∀ i : Fin (s.next.toNat - 4096), ∃ t : Fin (2 ^ 32), ∃ c page offset,
      s.pc (BitVec.ofFin t) = some (c, .check page offset) ∧ offset.toNat = 4096 + i.val := by
    intro i
    have hi := i.isLt
    obtain ⟨t, c, page, offset, hpc, hoffset⟩ := h.late (4096 + i.val) (by omega) (by omega)
    exact ⟨t.toFin, c, page, offset, hpc, hoffset⟩
  choose f hf using hlate
  have hinj : Function.Injective f := by
    intro i j hij
    obtain ⟨c, page, offset, hpc, hoffset⟩ := hf i
    obtain ⟨c', page', offset', hpc', hoffset'⟩ := hf j
    rw [hij, hpc'] at hpc
    cases hpc
    apply Fin.ext
    omega
  have hcard := Fintype.card_le_of_injective f hinj
  rw [Fintype.card_fin, Fintype.card_fin] at hcard
  omega

/-- The counter does not come round. -/
theorem Inv.next_succ {s : State} (h : Inv s) : (s.next + 1).toNat = s.next.toNat + 1 := by
  have hbound := h.next_le
  rw [BitVec.toNat_add]
  exact Nat.mod_eq_of_lt (by show s.next.toNat + 1 < 2 ^ 64; omega)

section Fields
variable (s : State) (t : Thread) (pc : Option (Call × Pc)) (ptr : Address)

@[simp] theorem setPc_same : (s.setPc t pc).pc t = pc := Function.update_self ..

@[simp] theorem setSelector_same : (s.setSelector t ptr).selector t = ptr := Function.update_self ..

theorem setPc_other {u : Thread} (h : u ≠ t) : (s.setPc t pc).pc u = s.pc u := Function.update_of_ne h ..

theorem setSelector_other {u : Thread} (h : u ≠ t) : (s.setSelector t ptr).selector u = s.selector u :=
  Function.update_of_ne h ..

@[simp] theorem setPc_page : (s.setPc t pc).page = s.page := rfl
@[simp] theorem setPc_next : (s.setPc t pc).next = s.next := rfl
@[simp] theorem setPc_selector : (s.setPc t pc).selector = s.selector := rfl
@[simp] theorem setSelector_page : (s.setSelector t ptr).page = s.page := rfl
@[simp] theorem setSelector_next : (s.setSelector t ptr).next = s.next := rfl
@[simp] theorem setSelector_pc : (s.setSelector t ptr).pc = s.pc := rfl

end Fields

section Steps
variable {s s' : State} {t : Thread} {c : Call} {at' : Pc}

theorem Inv.hasTicket_lt (h : Inv s) {u : Thread} {k : Nat} (hk : HasTicket s u k) : k < s.next.toNat := by
  have hgood := h.good u
  obtain ⟨hsel, rfl⟩ | ⟨c, at', hpc, hticket⟩ := hk
  · exact (hgood.selector hsel).given
  · have hplaced := hgood.placed c at' hpc
    cases at' with
    | check page offset =>
      cases hticket
      exact hplaced.2
    | store ptr =>
      cases hticket
      exact OnPage.given hplaced
    | set ptr =>
      cases hticket
      exact OnPage.given hplaced
    | _ => cases hticket

/-- A step of one thread that takes no offset. -/
theorem Inv.move (h : Inv s) (hpage : s'.page = s.page) (hnext : s'.next = s.next)
    (hselector : ∀ u, u ≠ t → s'.selector u = s.selector u) (hpc : ∀ u, u ≠ t → s'.pc u = s.pc u)
    (hgood : Good s.page s.next.toNat (s'.selector t) (s'.pc t))
    (hticket : ∀ k, HasTicket s' t k → HasTicket s t k)
    (hearly : ∀ c page offset, s.pc t = some (c, .check page offset) → offset.toNat < 4096) : Inv s' := by
  have hback : ∀ u k, HasTicket s' u k → HasTicket s u k := by
    intro u k hk
    by_cases hu : u = t
    · subst hu
      exact hticket k hk
    · unfold HasTicket at hk ⊢
      rw [hselector u hu, hpc u hu] at hk
      exact hk
  refine ⟨hpage ▸ h.aligned, ?_, ?_, ?_⟩
  · intro u
    rw [hpage, hnext]
    by_cases hu : u = t
    · subst hu
      exact hgood
    · rw [hselector u hu, hpc u hu]
      exact h.good u
  · intro u u' k hu hu'
    exact h.apart u u' k (hback u k hu) (hback u' k hu')
  · intro k hk hlt
    rw [hnext] at hlt
    obtain ⟨u, c, page, offset, hat, hoffset⟩ := h.late k hk hlt
    have hu : u ≠ t := by
      rintro rfl
      have hlow := hearly c page offset hat
      omega
    exact ⟨u, c, page, offset, (hpc u hu).trans hat, hoffset⟩

/-- The thread goes on and its selector stays. -/
theorem Inv.setPc (h : Inv s) {pc : Option (Call × Pc)} (hgood : Good s.page s.next.toNat (s.selector t) pc)
    (hticket : ∀ c at' k, pc = some (c, at') → at'.ticket? = some k → HasTicket s t k)
    (hearly : ∀ c page offset, s.pc t = some (c, .check page offset) → offset.toNat < 4096) :
    Inv (s.setPc t pc) := by
  refine h.move (t := t) rfl rfl (fun _ _ => rfl) (fun u hu => setPc_other s t pc hu) ?_ ?_ hearly
  · rw [setPc_same]
    exact hgood
  · intro k hk
    obtain ⟨hsel, hk⟩ | ⟨c, at', hpc, hk⟩ := hk
    · exact .inl ⟨hsel, hk⟩
    · rw [setPc_same] at hpc
      exact hticket c at' k hpc hk

/-- To a place without an offset. -/
theorem Inv.goto (h : Inv s) (hat : s.pc t = some (c, at')) {at'' : Pc}
    (hplaced : Placed s.page s.next.toNat (s.selector t) c at'') (hticket : at''.ticket? = none)
    (hearly : ∀ page offset, at' = .check page offset → offset.toNat < 4096) :
    Inv (s.setPc t (some (c, at''))) := by
  have hgood := h.good t
  rw [hat] at hgood
  refine h.setPc (hgood.goto hplaced) ?_ ?_
  · rintro c' other k heq hk
    cases heq
    rw [hticket] at hk
    cases hk
  · intro c' page offset hpc
    rw [hat] at hpc
    cases hpc
    exact hearly page offset rfl

/-- The first page that is offered stays. -/
theorem Inv.adopt (h : Inv s) (hpage : s.page = 0) (newPtr : Page) : Inv {s with page := newPtr.addr} := by
  refine ⟨newPtr.aligned, ?_, h.apart, h.late⟩
  intro u
  exact (h.good u).mono (fun hmapped => absurd hpage hmapped) (Nat.le_refl _)

/-- The counter gives an offset that no thread has. -/
theorem Inv.fetchAdd (h : Inv s) {page : Address} (hat : s.pc t = some (c, .fetchAdd page)) :
    Inv {s.setPc t (some (c, .check page s.next)) with next := s.next + 1} := by
  have hnext := h.next_succ
  have hgood := h.good t
  rw [hat] at hgood
  have hplaced : s.page ≠ 0 ∧ page = s.page := hgood.placed c _ rfl
  have hnew : ∀ u k, HasTicket {s.setPc t (some (c, .check page s.next)) with next := s.next + 1} u k →
      HasTicket s u k ∨ (u = t ∧ k = s.next.toNat) := by
    intro u k hk
    obtain hk | ⟨c', other, hpc, hk⟩ := hk
    · exact .inl (.inl hk)
    · by_cases hu : u = t
      · subst hu
        replace hpc : (s.setPc u (some (c, .check page s.next))).pc u = some (c', other) := hpc
        rw [setPc_same] at hpc
        cases hpc
        cases hk
        exact .inr ⟨rfl, rfl⟩
      · exact .inl (.inr ⟨c', other, (setPc_other s t _ hu).symm.trans hpc, hk⟩)
  refine ⟨h.aligned, ?_, ?_, ?_⟩
  · intro u
    show Good s.page (s.next + 1).toNat (s.selector u) ((s.setPc t _).pc u)
    rw [hnext]
    by_cases hu : u = t
    · subst hu
      rw [setPc_same]
      exact (hgood.mono (fun _ => rfl) (Nat.le_succ _)).goto ⟨hplaced, Nat.lt_succ_self _⟩
    · rw [setPc_other s t _ hu]
      exact (h.good u).mono (fun _ => rfl) (Nat.le_succ _)
  · intro u u' k hu hu'
    obtain hold | ⟨hut, hku⟩ := hnew u k hu
    · obtain hold' | ⟨-, hku'⟩ := hnew u' k hu'
      · exact h.apart u u' k hold hold'
      · exact absurd hku' (Nat.ne_of_lt (h.hasTicket_lt hold))
    · obtain hold' | ⟨hut', -⟩ := hnew u' k hu'
      · exact absurd hku (Nat.ne_of_lt (h.hasTicket_lt hold'))
      · rw [hut, hut']
  · intro k hk hlt
    replace hlt : k < (s.next + 1).toNat := hlt
    rw [hnext] at hlt
    obtain hlt | rfl : k < s.next.toNat ∨ k = s.next.toNat := by omega
    · obtain ⟨u, c', p, offset, hpc, hoffset⟩ := h.late k hk hlt
      have hu : u ≠ t := by
        rintro rfl
        rw [hat] at hpc
        cases hpc
      exact ⟨u, c', p, offset, (setPc_other s t _ hu).trans hpc, hoffset⟩
    · exact ⟨t, c, page, s.next, setPc_same s t _, rfl⟩

/-- The pointer at an offset on the page. -/
theorem onPage_add {page : Address} {next : Nat} {offset : Word} (hmapped : page ≠ 0)
    (haligned : page.toNat % 4096 = 0) (hoffset : offset < 4096) (hlt : offset.toNat < next) :
    OnPage page next (page + offset) ∧ ticket (page + offset) = offset.toNat := by
  have hsmall : offset.toNat < 4096 := hoffset
  have hpage := page.isLt
  have hadd : (page + offset).toNat = page.toNat + offset.toNat := by
    rw [BitVec.toNat_add]
    omega
  have hticket : ticket (page + offset) = offset.toNat := by
    unfold ticket
    omega
  exact ⟨⟨hmapped, by omega, by omega⟩, hticket⟩

theorem OnPage.nonnull {page ptr : Address} {next : Nat} (h : OnPage page next ptr)
    (haligned : page.toNat % 4096 = 0) : ptr ≠ 0 := by
  rintro rfl
  obtain ⟨hmapped, hsame, -⟩ := h
  apply hmapped
  apply BitVec.eq_of_toNat_eq
  have hzero : (0 : Address).toNat = 0 := rfl
  omega

/-- The pointer that the thread was given becomes its selector. -/
theorem Inv.select (h : Inv s) {ptr : Address} {pc : Option (Call × Pc)}
    (hat : s.pc t = some (c, .set ptr))
    (hpc : pc = none ∨ c = .threadStartWrapper ∧ pc = some (c, .setup ptr)) :
    Inv ((s.setSelector t ptr).setPc t pc) := by
  have hgood := h.good t
  have hptr : OnPage s.page s.next.toNat ptr := hgood.placed c _ hat
  refine h.move (t := t) rfl rfl (fun u hu => setSelector_other s t ptr hu)
    (fun u hu => setPc_other _ t pc hu) ?_ ?_ ?_
  · rw [setPc_same, setPc_selector, setSelector_same]
    refine ⟨fun _ => hptr, ?_, ?_⟩
    · rintro at' rfl
      obtain hnone | ⟨rfl, heq⟩ := hpc
      · cases hnone
      · cases heq
    · rintro c' at' rfl
      obtain hnone | ⟨hc, heq⟩ := hpc
      · cases hnone
      · cases heq
        exact ⟨hc, hptr, rfl⟩
  · intro k hk
    obtain ⟨-, hk⟩ | ⟨c', at', hnew, hk⟩ := hk
    · rw [setPc_selector, setSelector_same] at hk
      exact .inr ⟨c, _, hat, congrArg some hk⟩
    · rw [setPc_same] at hnew
      obtain rfl | ⟨-, rfl⟩ := hpc
      · cases hnew
      · cases hnew
        cases hk
  · intro c' page offset hcheck
    rw [hat] at hcheck
    cases hcheck

/-- What one operation is. -/
inductive Advanced (mmap : Nat → Option Page) (s : State) (t : Thread) (c : Call) :
    Pc → State × Answer → Prop where
  | aborted (at' : Pc) : Advanced mmap s t c at' ({s with aborted := true}, none)
  | found : s.page ≠ 0 → Advanced mmap s t c .load (s.setPc t (some (c, .fetchAdd s.page)), none)
  | missing : Advanced mmap s t c .load (s.setPc t (some (c, .mmap)), none)
  | mapped (newPtr : Page) : Advanced mmap s t c .mmap
    ({s.setPc t (some (c, .compareExchange newPtr)) with mappings := s.mappings + 1}, none)
  | adopted (newPtr : Page) : s.page = 0 → Advanced mmap s t c (.compareExchange newPtr)
    ({s.setPc t (some (c, .fetchAdd newPtr.addr)) with page := newPtr.addr}, none)
  | beaten (newPtr : Page) : s.page ≠ 0 → Advanced mmap s t c (.compareExchange newPtr)
    (s.setPc t (some (c, .reload)), none)
  | reloaded : Advanced mmap s t c .reload (s.setPc t (some (c, .fetchAdd s.page)), none)
  | took (page : Address) : Advanced mmap s t c (.fetchAdd page)
    ({s.setPc t (some (c, .check page s.next)) with next := s.next + 1}, none)
  | checked (page : Address) (offset : Word) : offset < 4096 → Advanced mmap s t c (.check page offset)
    (s.setPc t (some (c, .store (page + offset))), none)
  | stored (ptr : Address) : Advanced mmap s t c (.store ptr)
    ({s.setPc t (some (c, .set ptr)) with memory := s.memory.writeByte ptr 0}, none)
  | started (ptr : Address) : c = .threadStartWrapper → Advanced mmap s t c (.set ptr)
    ((s.setSelector t ptr).setPc t (some (c, .setup ptr)), none)
  | selected (ptr : Address) : c = .selectorPtr → Advanced mmap s t c (.set ptr)
    ((s.setSelector t ptr).setPc t none, some (c, ptr))
  | ready (ptr : Address) : Advanced mmap s t c (.setup ptr)
    ({(s.setSelector t ptr).setPc t none with memory := s.memory.writeByte ptr 1}, some (c, ptr))

theorem advanced (mmap : Nat → Option Page) (s : State) (t : Thread) (c : Call) (at' : Pc) :
    Advanced mmap s t c at' (SelectorPage.advance mmap s t c at') := by
  cases at' with
  | load =>
    by_cases hpage : s.page ≠ 0
    · rw [SelectorPage.advance, if_pos hpage]
      exact .found hpage
    · rw [SelectorPage.advance, if_neg hpage]
      exact .missing
  | mmap =>
    unfold SelectorPage.advance
    cases mmap s.mappings with
    | none => exact .aborted _
    | some newPtr => exact .mapped newPtr
  | compareExchange newPtr =>
    by_cases hpage : s.page = 0
    · rw [SelectorPage.advance, if_pos hpage]
      exact .adopted newPtr hpage
    · rw [SelectorPage.advance, if_neg hpage]
      exact .beaten newPtr hpage
  | reload => exact .reloaded
  | fetchAdd page => exact .took page
  | check page offset =>
    by_cases hoffset : offset < 4096
    · rw [SelectorPage.advance, if_pos hoffset]
      exact .checked page offset hoffset
    · rw [SelectorPage.advance, if_neg hoffset]
      exact .aborted _
  | store ptr => exact .stored ptr
  | set ptr =>
    cases c with
    | threadStartWrapper => exact .started ptr rfl
    | selectorPtr => exact .selected ptr rfl
  | setup ptr => exact .ready ptr

/-- At the end of `setup_thread_sud` the selector is what it was. -/
theorem Inv.setup_same (h : Inv s) {ptr : Address} (hat : s.pc t = some (c, .setup ptr)) :
    s.setSelector t ptr = s := by
  obtain ⟨-, -, hptr⟩ := (h.good t).placed c _ hat
  rw [← hptr, State.setSelector, Function.update_eq_self]

theorem Inv.advance (h : Inv s) (mmap : Nat → Option Page) (hat : s.pc t = some (c, at')) :
    Inv (SelectorPage.advance mmap s t c at').1 := by
  have hgood := h.good t
  have hplaced := hgood.placed c at' hat
  have hstep := advanced mmap s t c at'
  generalize SelectorPage.advance mmap s t c at' = r at hstep
  cases hstep with
  | aborted => exact ⟨h.aligned, h.good, h.apart, h.late⟩
  | found hpage => exact h.goto hat ⟨hpage, rfl⟩ rfl nofun
  | missing => exact h.goto hat trivial rfl nofun
  | mapped newPtr =>
    have hmoved : Inv (s.setPc t (some (c, .compareExchange newPtr))) := h.goto hat trivial rfl nofun
    exact ⟨hmoved.aligned, hmoved.good, hmoved.apart, hmoved.late⟩
  | adopted newPtr hpage =>
    exact (h.adopt hpage newPtr).goto (t := t) hat ⟨newPtr.nonnull, rfl⟩ rfl nofun
  | beaten newPtr hpage => exact h.goto hat hpage rfl nofun
  | reloaded => exact h.goto hat ⟨hplaced, rfl⟩ rfl nofun
  | took page => exact h.fetchAdd hat
  | checked page offset hoffset =>
    obtain ⟨⟨hmapped, rfl⟩, hlt⟩ := hplaced
    obtain ⟨honPage, hticket⟩ := onPage_add hmapped h.aligned hoffset hlt
    rw [hat] at hgood
    refine h.setPc (hgood.goto honPage) ?_ ?_
    · rintro c' other k heq hk
      cases heq
      cases hk
      exact .inr ⟨c, _, hat, congrArg some hticket.symm⟩
    · intro c' page' offset' hcheck
      rw [hat] at hcheck
      cases hcheck
      exact hoffset
  | stored ptr =>
    have hmoved : Inv (s.setPc t (some (c, .set ptr))) := by
      rw [hat] at hgood
      refine h.setPc (hgood.goto hplaced) ?_ ?_
      · rintro c' other k heq hk
        cases heq
        cases hk
        exact .inr ⟨c, _, hat, rfl⟩
      · intro c' page offset hcheck
        rw [hat] at hcheck
        cases hcheck
    exact ⟨hmoved.aligned, hmoved.good, hmoved.apart, hmoved.late⟩
  | started ptr hc => exact h.select hat (.inr ⟨hc, rfl⟩)
  | selected ptr _ => exact h.select hat (.inl rfl)
  | ready ptr =>
    have hmoved : Inv (s.setPc t none) := by
      refine h.setPc ⟨hgood.selector, fun _ heq => ?_, fun _ _ heq => ?_⟩ ?_ ?_
      · cases heq
      · cases heq
      · intro c' other k heq
        cases heq
      · intro c' page offset hcheck
        rw [hat] at hcheck
        cases hcheck
    rw [h.setup_same hat]
    exact ⟨hmoved.aligned, hmoved.good, hmoved.apart, hmoved.late⟩

/-- A call of a thread that is in none. -/
theorem Inv.begin (h : Inv s) (hidle : s.pc t = none) : Inv (begin s t c).1 := by
  have hearly : ∀ c page offset, s.pc t = some (c, .check page offset) → offset.toNat < 4096 := by
    intro c page offset hat
    rw [hidle] at hat
    cases hat
  have hgood := h.good t
  cases c with
  | threadStartWrapper =>
    refine h.setPc ⟨hgood.selector, ?_, ?_⟩ ?_ hearly
    · rintro at' heq
      cases heq
    · rintro c at' heq
      cases heq
      trivial
    · rintro c at' k heq hk
      cases heq
      cases hk
  | selectorPtr =>
    by_cases hsel : s.selector t ≠ 0
    · rw [SelectorPage.begin, if_pos hsel]
      exact h
    · rw [SelectorPage.begin, if_neg hsel]
      refine h.setPc ⟨hgood.selector, ?_, ?_⟩ ?_ hearly
      · rintro at' -
        exact not_not.mp hsel
      · rintro c at' heq
        cases heq
        trivial
      · rintro c at' k heq hk
        cases heq
        cases hk

theorem Inv.finish (h : Inv s) (hidle : s.pc t = none) : Inv (s.setSelector t 0) := by
  refine h.move (t := t) rfl rfl (fun u hu => setSelector_other s t 0 hu) (fun _ _ => rfl) ?_ ?_ ?_
  · rw [setSelector_same, setSelector_pc, hidle]
    refine ⟨fun hzero => absurd rfl hzero, ?_, ?_⟩
    · intro at' heq
      cases heq
    · intro c at' heq
      cases heq
  · intro k hk
    obtain ⟨hzero, -⟩ | hk := hk
    · rw [setSelector_same] at hzero
      exact absurd rfl hzero
    · exact .inr hk
  · intro c page offset hat
    rw [hidle] at hat
    cases hat

/-- What a step is. -/
inductive Stepped (mmap : Nat → Option Page) (s : State) : Action → State × Answer → Prop where
  | nothing (a : Action) : Stepped mmap s a (s, none)
  | began (t : Thread) (c : Call) : s.aborted = false → s.pc t = none →
    Stepped mmap s (.call t c) (SelectorPage.begin s t c)
  | advanced (t : Thread) (c : Call) (at' : Pc) : s.aborted = false → s.pc t = some (c, at') →
    Stepped mmap s (.step t) (SelectorPage.advance mmap s t c at')
  | finished (t : Thread) : s.aborted = false → s.pc t = none →
    Stepped mmap s (.finish t) (s.setSelector t 0, none)

theorem stepped (mmap : Nat → Option Page) (s : State) (a : Action) :
    Stepped mmap s a (selectorStep mmap s a) := by
  unfold selectorStep
  by_cases haborted : s.aborted = true
  · rw [if_pos haborted]
    exact .nothing a
  · rw [if_neg haborted]
    replace haborted := Bool.eq_false_iff.mpr haborted
    cases a with
    | call t c =>
      by_cases hidle : s.pc t = none
      · simp only [if_pos hidle]
        exact .began t c haborted hidle
      · simp only [if_neg hidle]
        exact .nothing _
    | step t =>
      cases hpc : s.pc t with
      | none =>
        simp only [hpc]
        exact .nothing _
      | some place =>
        simp only [hpc]
        exact .advanced t place.1 place.2 haborted hpc
    | finish t =>
      by_cases hidle : s.pc t = none
      · simp only [if_pos hidle]
        exact .finished t haborted hidle
      · simp only [if_neg hidle]
        exact .nothing _

theorem inv_step (mmap : Nat → Option Page) (s : State) (a : Action) (h : Inv s) :
    Inv ((selectorSystem mmap).step s a).1 := by
  show Inv (selectorStep mmap s a).1
  have hstep := stepped mmap s a
  generalize selectorStep mmap s a = r at hstep
  cases hstep with
  | nothing => exact h
  | began t c _ hidle => exact h.begin hidle
  | advanced t c at' _ hat => exact h.advance mmap hat
  | finished t _ hidle => exact h.finish hidle

end Steps

end Grafted.Loader.SelectorPage

import Grafted.Loader.ChainedFixups

/-! What applying chained fixups stores, and where.

Every store is a decoded pointer (`patches_decoded`), so what a format 6 rebase
becomes is a fact about one word (`rebase6_stored`). The loop follows links it has
yet to overwrite: while the locations of a chain still hold their words the walk
visits them all and stores over each the decoding of its own word
(`walkChain_chain`), and locations that share no byte stay so through chains,
pages and segments (`applyFixups_each_once`). -/
namespace Grafted.Loader.ChainedFixups
open ByteMemory Memory Traced

/-! ### Every store is a decoded pointer -/

/-- The patch stores what its word decodes to. -/
def FromPointer (imports : List Word) (load : Address) (p : Patch) : Prop :=
  ∃ d, decodePointer p.format imports load p.encoded = some d ∧ p.stored = d.addr

section Decoded
variable (imports : List Word) (load : Address)

theorem walkChain_decoded (format : BitVec 16) (fuel : Nat) (chainPtr : Address) :
    Keeps (fun _ t _ => ∀ p ∈ t, FromPointer imports load p)
      (walkChain imports load format fuel chainPtr) := by
  have hB : Composes fun (_ : Memory) t (_ : Memory) => ∀ p ∈ t, FromPointer imports load p :=
    Composes.events _
  induction fuel generalizing chainPtr with
  | zero => exact Keeps.pure hB _
  | succ fuel ih =>
    refine Keeps.bind hB (Keeps.read hB _) fun encoded => ?_
    cases hd : decodePointer format imports load encoded with
    | none => exact Keeps.pure hB _
    | some d =>
      have hpatch : Keeps (fun (_ : Memory) t _ => ∀ p ∈ t, FromPointer imports load p)
          (patch chainPtr format encoded d.addr) := by
        intro m p hp
        cases List.mem_singleton.mp hp
        exact ⟨d, hd, rfl⟩
      refine Keeps.bind hB hpatch fun _ => ?_
      split_ifs
      · exact Keeps.pure hB _
      · exact ih _

theorem fixSegments_decoded (fuel : Nat) (binary : MachOBinary) (header : Header) :
    Keeps (fun _ t _ => ∀ p ∈ t, FromPointer imports load p)
      (fixSegments imports load fuel binary header) := by
  have hB : Composes fun (_ : Memory) t (_ : Memory) => ∀ p ∈ t, FromPointer imports load p :=
    Composes.events _
  unfold fixSegments
  split
  · exact Keeps.pure hB _
  · refine Keeps.untilSome hB (fun i => ?_) _
    unfold fixSegment
    split
    · exact Keeps.pure hB _
    · exact Keeps.pure hB _
    · refine Keeps.untilSome hB (fun j => ?_) _
      unfold fixPage
      split
      · exact Keeps.pure hB _
      · exact Keeps.pure hB _
      · exact walkChain_decoded imports load _ fuel _

end Decoded

/-- Whatever the binary and however far the run gets: the imports are those it
resolved before. -/
theorem patches_decoded {σ : Type} (resolveSymbol : String → String → σ → Word × σ) (fuel : Nat)
    (binary : MachOBinary) (s : σ) (memory : Memory) :
    ∀ p ∈ (applyFixups resolveSymbol fuel binary s memory).patches,
      ∃ offset size header imports s', binary.chainedFixups = some (offset, size) ∧
        readHeader binary.data offset size = .ok header ∧
        resolveImports resolveSymbol binary header (List.range header.importsCount.toNat) s =
          (.ok imports, s') ∧ FromPointer imports (loadAddress binary) p := by
  intro p hp
  unfold applyFixups at hp
  split at hp
  · exact nomatch hp
  · rename_i offset size hfixups
    split at hp
    · exact nomatch hp
    · rename_i header hheader
      split at hp
      · exact nomatch hp
      · rename_i imports s' himports
        exact ⟨offset, size, header, imports, s', hfixups, hheader, himports,
          fixSegments_decoded imports _ fuel binary _ memory p hp⟩

/-- What a bind becomes. -/
theorem decodePointer_bind {format : BitVec 16} {imports : List Word} {load : Address}
    {encoded : Word} {d : Decoded} (hd : decodePointer format imports load encoded = some d)
    (h : isBind encoded = true) :
    (format = 1 ∧ d.addr = importAt imports encoded) ∨
      (format = 6 ∧ d.addr = if importAt imports encoded = 0 then 0
        else importAt imports encoded + bindAddend encoded) := by
  unfold decodePointer at hd
  split_ifs at hd with hformat hformat
  · cases hd
    exact .inl ⟨hformat, rfl⟩
  · cases hd
    exact .inr ⟨hformat, rfl⟩

/-! ### Format 6 rebases -/

theorem decodePointer_rebase6 {imports : List Word} {load : Address} {encoded : Word}
    (h : isBind encoded = false) :
    decodePointer 6 imports load encoded = some ⟨false, nextStride encoded,
      if target encoded = 0 then 0 else load + target encoded⟩ := by
  simp [decodePointer, h]

theorem target_lt (encoded : Word) : (target encoded).toNat < 2 ^ 36 := by
  have h : (target encoded).toNat = encoded.toNat % 2 ^ 36 := by
    rw [target, BitVec.toNat_and]
    exact Nat.and_two_pow_sub_one_eq_mod encoded.toNat 36
  omega

theorem high8_lt (encoded : Word) : (high8 encoded).toNat < 2 ^ 8 := by
  have h : (high8 encoded).toNat = (encoded >>> 36).toNat % 2 ^ 8 := by
    rw [high8, BitVec.toNat_and]
    exact Nat.and_two_pow_sub_one_eq_mod _ 8
  omega

/-- The two fields of an unpacked offset do not overlap. -/
theorem unpacked_toNat (encoded : Word) :
    (unpacked encoded).toNat = (high8 encoded).toNat * 2 ^ 56 + (target encoded).toNat := by
  have hh := high8_lt encoded
  have ht := target_lt encoded
  have hshift : (high8 encoded <<< 56).toNat = (high8 encoded).toNat <<< 56 := by
    rw [BitVec.toNat_shiftLeft, Nat.shiftLeft_eq]
    omega
  rw [unpacked, BitVec.toNat_or, hshift, ← Nat.shiftLeft_add_eq_or_of_lt (by omega),
    Nat.shiftLeft_eq]

theorem unpacked_eq_target {encoded : Word} :
    unpacked encoded = target encoded ↔ high8 encoded = 0 := by
  have hzero : (0 : Word).toNat = 0 := rfl
  rw [← BitVec.toNat_inj, ← BitVec.toNat_inj, unpacked_toNat, hzero]
  omega

/-- **What a format 6 rebase stores.** In any run the stored word is the load
address plus the unpacked offset exactly when the target is not 0 and the top byte
is, or when the target is 0 and that sum happens to be 0. -/
theorem rebase6_stored {σ : Type} (resolveSymbol : String → String → σ → Word × σ) (fuel : Nat)
    (binary : MachOBinary) (s : σ) (memory : Memory) (p : Patch)
    (hp : p ∈ (applyFixups resolveSymbol fuel binary s memory).patches) (hformat : p.format = 6)
    (hrebase : isBind p.encoded = false) :
    p.stored = loadAddress binary + unpacked p.encoded ↔
      (target p.encoded ≠ 0 ∧ high8 p.encoded = 0) ∨
        (target p.encoded = 0 ∧ loadAddress binary + unpacked p.encoded = 0) := by
  obtain ⟨_, _, _, imports, _, _, _, _, d, hd, hstored⟩ :=
    patches_decoded resolveSymbol fuel binary s memory p hp
  rw [hformat, decodePointer_rebase6 hrebase] at hd
  cases hd
  by_cases ht : target p.encoded = 0
  · rw [hstored, if_pos ht]
    constructor
    · intro h
      exact .inr ⟨ht, h.symm⟩
    · rintro (⟨h, -⟩ | ⟨-, h⟩)
      · exact absurd ht h
      · exact h.symm
  · rw [hstored, if_neg ht, BitVec.add_right_inj, eq_comm, unpacked_eq_target]
    constructor
    · intro h
      exact .inl ⟨ht, h⟩
    · rintro (⟨-, h⟩ | ⟨h, -⟩)
      · exact h
      · exact absurd h ht

/-- A binary with one chain, of one format 6 pointer, where its second segment begins. -/
def oneChain (segment : String) : MachOBinary where
  path := "libone.dylib"
  fileType := 6
  cpuType := CPU_TYPE_X86_64
  entryPoint := 0
  entryIsOffset := false
  segments := [⟨"__TEXT", 0, 0x1000, 0, 0x1000, 5, 5⟩, ⟨segment, 0x1000, 0x1000, 0x1000, 0, 3, 3⟩]
  dylibDeps := []
  rpaths := []
  chainedFixups := some (0, 64)
  exportsTrie := none
  data := [0, 0, 0, 0, 28, 0, 0, 0, 64, 0, 0, 0, 64, 0, 0, 0, 0, 0, 0, 0, 1, 0, 0, 0, 0, 0, 0, 0,
    2, 0, 0, 0, 0, 0, 0, 0, 12, 0, 0, 0,
    24, 0, 0, 0, 0, 16, 6, 0, 0, 16, 0, 0, 0, 0, 0, 0, 0, 0, 0, 0, 1, 0, 0, 0]
  slide := 0x7000

/-- An image that holds this pointer, at the address the chain begins at. -/
def pointerImage (encoded : Word) : Memory := Memory.writeWord (fun _ => 0) 0x8000 encoded

def resolveNothing (_ _ : String) (s : Unit) : Word × Unit := (0, s)

theorem rebase6_stored_plain : (0x7010 : Word) = 0x7000 + unpacked 0x10 ↔
    (target 0x10 ≠ 0 ∧ high8 0x10 = 0) ∨
      (target 0x10 = 0 ∧ (0x7000 : Word) + unpacked 0x10 = 0) :=
  rebase6_stored resolveNothing 1 (oneChain "__DATA") () (pointerImage 0x10)
    ⟨0x8000, 6, 0x10, 0x7010⟩ (by decide) rfl rfl

/-- A pointer with a tag in its top byte loses the tag. -/
theorem rebase6_tag_lost : ¬ ∀ {σ : Type} (resolveSymbol : String → String → σ → Word × σ)
    (fuel : Nat) (binary : MachOBinary) (s : σ) (memory : Memory) (p : Patch),
    p ∈ (applyFixups resolveSymbol fuel binary s memory).patches → p.format = 6 →
    isBind p.encoded = false → p.stored = loadAddress binary + unpacked p.encoded := by
  intro h
  have hstored := h resolveNothing 1 (oneChain "__DATA") () (pointerImage 0x12000000010)
    ⟨0x8000, 6, 0x12000000010, 0x7010⟩ (by decide) rfl rfl
  exact absurd hstored (by decide)

/-! ### What there is to do -/

/-- The chain of a page, as its format and where it begins. -/
def pageChain (binary : MachOBinary) (starts : SegmentStarts) (j : Nat) :
    Except Stop (List (BitVec 16 × Address)) := do
  match ← pageStart binary starts j with
  | none => return []
  | some chainPtr => return [(starts.pointerFormat, chainPtr)]

def segmentChains (take : Segment → Bool) (binary : MachOBinary) (header : Header) (i : Nat) :
    Except Stop (List (BitVec 16 × Address)) := do
  match ← segmentStarts take binary header i with
  | none => return []
  | some starts =>
    return (← (List.range starts.pageCount.toNat).mapM (pageChain binary starts)).flatten

/-- The imports a binary names and the chains of the segments the caller takes. -/
structure Blob where
  imports : List (String × String)
  chains : List (BitVec 16 × Address)

def readBlob (take : Segment → Bool) (binary : MachOBinary) : Except Stop Blob :=
  match binary.chainedFixups with
  | none => .ok ⟨[], []⟩
  | some (offset, size) => do
    let header ← readHeader binary.data offset size
    let imports ← (List.range header.importsCount.toNat).mapM (readImport binary header)
    let count ← segmentCount binary header
    let chains ← (List.range count.toNat).mapM (segmentChains take binary header)
    return ⟨imports, chains.flatten⟩

def supported (format : BitVec 16) : Prop := format = 1 ∨ format = 6

/-- The locations of the chain that begins at an address. -/
inductive Chain (memory : Memory) : Address → List Address → Prop where
  | last {a : Address} : nextStride (memory.readWord a) = 0 → Chain memory a [a]
  | link {a : Address} {rest : List Address} : nextStride (memory.readWord a) ≠ 0 →
      Chain memory (a + nextStride (memory.readWord a) * 4) rest → Chain memory a (a :: rest)

/-- The locations of a list of chains, with their formats. A chain of another
format has none. -/
inductive Chains (memory : Memory) :
    List (BitVec 16 × Address) → List (BitVec 16 × Address) → Prop where
  | done : Chains memory [] []
  | chain {format : BitVec 16} {a : Address} {as : List Address}
      {chains locs : List (BitVec 16 × Address)} : supported format → Chain memory a as →
      Chains memory chains locs →
      Chains memory ((format, a) :: chains) (as.map (format, ·) ++ locs)
  | unsupported {format : BitVec 16} {a : Address} {chains locs : List (BitVec 16 × Address)} :
      ¬ supported format → Chains memory chains locs → Chains memory ((format, a) :: chains) locs

section Resolve
variable {σ : Type} (resolveSymbol : String → String → σ → Word × σ)

/-- Ask for each import in order, once. -/
def resolveAll : List (String × String) → σ → List Word × σ
  | [], s => ([], s)
  | (dylib, name) :: rest, s =>
    let (addr, s) := resolveSymbol dylib name s
    let (addrs, s) := resolveAll rest s
    (addr :: addrs, s)

theorem resolveImports_eq_resolveAll {binary : MachOBinary} {header : Header} {is : List Nat}
    {imports : List (String × String)} (h : is.mapM (readImport binary header) = .ok imports)
    (s : σ) : resolveImports resolveSymbol binary header is s =
      (.ok (resolveAll resolveSymbol imports s).1, (resolveAll resolveSymbol imports s).2) := by
  induction is generalizing imports s with
  | nil =>
    cases h
    rfl
  | cons i rest ih =>
    obtain ⟨⟨dylib, name⟩, imports', hi, hrest, rfl⟩ := Fallible.mapM_cons_ok h
    simp only [resolveImports, hi, ih hrest, resolveAll]
    rfl

theorem resolveImports_cons {binary : MachOBinary} {header : Header} {i : Nat}
    {dylib name : String} (h : readImport binary header i = .ok (dylib, name)) (rest : List Nat)
    (s : σ) : resolveImports resolveSymbol binary header (i :: rest) s =
      let r := resolveImports resolveSymbol binary header rest (resolveSymbol dylib name s).2
      (r.1.map ((resolveSymbol dylib name s).1 :: ·), r.2) := by
  simp only [resolveImports, h]

/-- Each import is resolved in the state those before it leave. -/
theorem resolveImports_get {binary : MachOBinary} {header : Header} {is : List Nat} {s s' : σ}
    {imports : List Word}
    (h : resolveImports resolveSymbol binary header is s = (.ok imports, s')) {k i : Nat}
    (hk : is[k]? = some i) {dylib name : String}
    (hread : readImport binary header i = .ok (dylib, name)) :
    imports[k]? = some (resolveSymbol dylib name
      (resolveImports resolveSymbol binary header (is.take k) s).2).1 := by
  induction is generalizing s imports k with
  | nil => exact nomatch hk
  | cons j rest ih =>
    cases hj : readImport binary header j with
    | error e =>
      simp only [resolveImports, hj] at h
      exact nomatch h
    | ok import_ =>
      obtain ⟨dylib', name'⟩ := import_
      rw [resolveImports_cons resolveSymbol hj] at h
      cases hrest : resolveImports resolveSymbol binary header rest
          (resolveSymbol dylib' name' s).2 with
      | mk answer s₁ =>
        rw [hrest] at h
        cases answer with
        | error e => exact nomatch h
        | ok addrs =>
          cases h
          cases k with
          | zero =>
            cases hk
            rw [hj] at hread
            cases hread
            rfl
          | succ k =>
            rw [List.take_succ_cons, resolveImports_cons resolveSymbol hj, List.getElem?_cons_succ]
            exact ih hrest hk

end Resolve

/-! ### Each location once -/

section Walk
variable (imports : List Word) (load : Address) (memory : Memory)

/-- The store made at a location while it holds the word it had in `memory`. -/
def patchOf (loc : BitVec 16 × Address) : Patch where
  address := loc.2
  format := loc.1
  encoded := memory.readWord loc.2
  stored := ((decodePointer loc.1 imports load (memory.readWord loc.2)).map (·.addr)).getD 0

def stores (locs : List (BitVec 16 × Address)) : List (Address × Word) :=
  locs.map fun loc => (loc.2, (patchOf imports load memory loc).stored)

theorem decodePointer_supported {format : BitVec 16} (h : supported format) (encoded : Word) :
    ∃ d, decodePointer format imports load encoded = some d ∧ d.next = nextStride encoded := by
  rcases h with rfl | rfl
  · exact ⟨_, rfl, rfl⟩
  · exact ⟨_, rfl, rfl⟩

theorem decodePointer_unsupported {format : BitVec 16} (h : ¬ supported format) (encoded : Word) :
    decodePointer format imports load encoded = none := by
  obtain ⟨h1, h6⟩ := not_or.mp h
  simp only [decodePointer, if_neg h1, if_neg h6]

/-- One turn of the loop, at a location that still holds its word. -/
theorem walkChain_step {format : BitVec 16} (h : supported format) {m : Memory} {a : Address}
    (hword : m.readWord a = memory.readWord a) (fuel : Nat) :
    walkChain imports load format (fuel + 1) a m =
      let p := patchOf imports load memory (format, a)
      let m' := m.writeWord a p.stored
      if nextStride (memory.readWord a) = 0 then ⟨none, m', [p]⟩
      else
        let r := walkChain imports load format fuel (a + nextStride (memory.readWord a) * 4) m'
        ⟨r.value, r.state, p :: r.trace⟩ := by
  obtain ⟨d, hd, hnext⟩ := decodePointer_supported imports load h (memory.readWord a)
  have hp : patchOf imports load memory (format, a) = ⟨a, format, memory.readWord a, d.addr⟩ := by
    simp only [patchOf, hd, Option.map_some, Option.getD_some]
  simp only [walkChain, bind_apply, read_apply, hword, hd, hnext, hp, patch, emit_apply,
    modify_apply, List.nil_append, List.append_nil]
  split_ifs
  · rfl
  · rfl

theorem walkChain_chain {format : BitVec 16} (h : supported format) {a : Address}
    {as : List Address} (hchain : Chain memory a as) {m : Memory}
    (hwords : ∀ b ∈ as, m.readWord b = memory.readWord b) (hapart : as.Pairwise Apart)
    {fuel : Nat} (hfuel : as.length ≤ fuel) :
    walkChain imports load format fuel a m =
      ⟨none, m.writeWords (stores imports load memory (as.map (format, ·))),
        (as.map (format, ·)).map (patchOf imports load memory)⟩ := by
  induction hchain generalizing m fuel with
  | @last a hlast =>
    obtain ⟨fuel, rfl⟩ : ∃ n, fuel = n + 1 := ⟨fuel - 1, by simp at hfuel; omega⟩
    rw [walkChain_step imports load memory h (hwords a List.mem_cons_self)]
    simp only [if_pos hlast]
    rfl
  | @link a rest hlink _ ih =>
    obtain ⟨fuel, rfl⟩ : ∃ n, fuel = n + 1 := ⟨fuel - 1, by simp at hfuel; omega⟩
    obtain ⟨hfirst, hrest⟩ := List.pairwise_cons.mp hapart
    have hwords' : ∀ b ∈ rest, (m.writeWord a (patchOf imports load memory (format, a)).stored).readWord b =
        memory.readWord b := fun b hb => by
      rw [readWord_writeWord_apart m _ (hfirst b hb), hwords b (List.mem_cons_of_mem a hb)]
    rw [walkChain_step imports load memory h (hwords a List.mem_cons_self)]
    simp only [if_neg hlink, ih hwords' hrest (Nat.le_of_succ_le_succ hfuel)]
    rfl

/-- The chains one after the other. A chain leaves the words of the later ones. -/
theorem walkChains_each_once {chains locs : List (BitVec 16 × Address)}
    (hchains : Chains memory chains locs) {m : Memory}
    (hwords : ∀ loc ∈ locs, m.readWord loc.2 = memory.readWord loc.2)
    (hapart : locs.Pairwise fun loc loc' => Apart loc.2 loc'.2) {fuel : Nat}
    (hfuel : locs.length < fuel) :
    untilSome (fun chain => walkChain imports load chain.1 fuel chain.2) chains m =
      ⟨none, m.writeWords (stores imports load memory locs),
        locs.map (patchOf imports load memory)⟩ := by
  induction hchains generalizing m with
  | done => rfl
  | @chain format a as chains locs hsupported hchain hrest ih =>
    obtain ⟨hapartAs, hapartRest, hacross⟩ := List.pairwise_append.mp hapart
    have hlen : as.length + locs.length < fuel := by simpa using hfuel
    have hapartAs : as.Pairwise Apart := by simpa only [List.pairwise_map] using hapartAs
    have hwordsAs : ∀ b ∈ as, m.readWord b = memory.readWord b := fun b hb =>
      hwords (format, b) (List.mem_append_left _ (List.mem_map_of_mem hb))
    have hfuelAs : as.length ≤ fuel := by omega
    have hwalk := walkChain_chain imports load memory hsupported hchain hwordsAs hapartAs hfuelAs
    have hwords' : ∀ loc ∈ locs,
        (m.writeWords (stores imports load memory (as.map (format, ·)))).readWord loc.2 =
          memory.readWord loc.2 := by
      intro loc hloc
      rw [readWord_writeWords_apart, hwords loc (List.mem_append_right _ hloc)]
      intro store hstore
      obtain ⟨loc', hloc', rfl⟩ := List.mem_map.mp hstore
      exact hacross loc' hloc' loc hloc
    simp only [untilSome, bind_apply, hwalk, ih hwords' hapartRest (by omega)]
    simp only [stores, List.map_append, writeWords_append]
  | @unsupported format a chains locs hunsupported _ ih =>
    obtain ⟨fuel, rfl⟩ : ∃ n, fuel = n + 1 := ⟨fuel - 1, by omega⟩
    have hwalk : walkChain imports load format (fuel + 1) a m = ⟨none, m, []⟩ := by
      simp only [walkChain, bind_apply, read_apply,
        decodePointer_unsupported imports load hunsupported, pure_apply, List.nil_append]
    simp only [untilSome, bind_apply, hwalk, ih hwords hapart hfuel, List.nil_append]

theorem Chains.supported {chains locs : List (BitVec 16 × Address)}
    (hchains : Chains memory chains locs) : ∀ loc ∈ locs, supported loc.1 := by
  induction hchains with
  | done => exact fun _ h => nomatch h
  | chain hsupported _ _ ih =>
    intro loc hloc
    rcases List.mem_append.mp hloc with hloc | hloc
    · obtain ⟨a, -, rfl⟩ := List.mem_map.mp hloc
      exact hsupported
    · exact ih loc hloc
  | unsupported _ _ ih => exact ih

theorem stores_read {locs : List (BitVec 16 × Address)} (hsupported : ∀ loc ∈ locs, supported loc.1)
    (hapart : locs.Pairwise fun loc loc' => Apart loc.2 loc'.2) {loc : BitVec 16 × Address}
    (hloc : loc ∈ locs) :
    ∃ d, decodePointer loc.1 imports load (memory.readWord loc.2) = some d ∧
      (memory.writeWords (stores imports load memory locs)).readWord loc.2 = d.addr := by
  obtain ⟨d, hd, -⟩ :=
    decodePointer_supported imports load (hsupported loc hloc) (memory.readWord loc.2)
  refine ⟨d, hd, readWord_writeWords (List.pairwise_map.mpr hapart) ?_⟩
  have hstored : (patchOf imports load memory loc).stored = d.addr := by
    simp only [patchOf, hd, Option.map_some, Option.getD_some]
  exact List.mem_map.mpr ⟨loc, hloc, by rw [hstored]⟩

theorem stores_outside {locs : List (BitVec 16 × Address)} {x : Address}
    (hx : ∀ loc ∈ locs, 8 ≤ (x - loc.2).toNat) :
    memory.writeWords (stores imports load memory locs) x = memory x := by
  refine writeWords_outside fun store hstore => ?_
  obtain ⟨loc, hloc, rfl⟩ := List.mem_map.mp hstore
  exact hx loc hloc

theorem fixPage_eq_walkChains (fuel : Nat) {binary : MachOBinary} {starts : SegmentStarts} {j : Nat}
    {chains : List (BitVec 16 × Address)} (h : pageChain binary starts j = .ok chains) :
    fixPage imports load fuel binary starts j =
      untilSome (fun chain => walkChain imports load chain.1 fuel chain.2) chains := by
  obtain ⟨found, hfound, h⟩ := Fallible.bind_ok h
  simp only [fixPage, hfound]
  cases found with
  | none =>
    cases h
    rfl
  | some chainPtr =>
    cases h
    rw [untilSome_singleton]

theorem fixSegment_eq_walkChains (fuel : Nat) {binary : MachOBinary} {header : Header} {i : Nat}
    {chains : List (BitVec 16 × Address)}
    (h : segmentChains notPageZero binary header i = .ok chains) :
    fixSegment imports load fuel binary header i =
      untilSome (fun chain => walkChain imports load chain.1 fuel chain.2) chains := by
  obtain ⟨found, hfound, h⟩ := Fallible.bind_ok h
  simp only [fixSegment, hfound]
  cases found with
  | none =>
    cases h
    rfl
  | some starts =>
    obtain ⟨pages, hpages, h⟩ := Fallible.bind_ok h
    cases h
    exact untilSome_flatten (fun j _ hj => fixPage_eq_walkChains imports load fuel hj) hpages

theorem fixSegments_eq_walkChains (fuel : Nat) {binary : MachOBinary} {header : Header}
    {count : BitVec 32} {chains : List (List (BitVec 16 × Address))}
    (hcount : segmentCount binary header = .ok count)
    (hchains : (List.range count.toNat).mapM (segmentChains notPageZero binary header) =
      .ok chains) :
    fixSegments imports load fuel binary header =
      untilSome (fun chain => walkChain imports load chain.1 fuel chain.2) chains.flatten := by
  simp only [fixSegments, hcount]
  exact untilSome_flatten (fun i _ hi => fixSegment_eq_walkChains imports load fuel hi) hchains

end Walk

/-- The run ended, asked for each import once in order, and stored at each
location the decoding of the word it had, and nothing elsewhere. -/
structure EachOnce {σ : Type} (resolveSymbol : String → String → σ → Word × σ)
    (binary : MachOBinary) (blob : Blob) (s : σ) (memory : Memory)
    (locs : List (BitVec 16 × Address)) (r : Applied σ) : Prop where
  ended : r.stop = none
  resolver : r.resolver = (resolveAll resolveSymbol blob.imports s).2
  patches : r.patches = locs.map
    (patchOf (resolveAll resolveSymbol blob.imports s).1 (loadAddress binary) memory)
  decoded : ∀ loc ∈ locs, ∃ d, decodePointer loc.1 (resolveAll resolveSymbol blob.imports s).1
    (loadAddress binary) (memory.readWord loc.2) = some d ∧ r.memory.readWord loc.2 = d.addr
  outside : ∀ x, (∀ loc ∈ locs, 8 ≤ (x - loc.2).toNat) → r.memory x = memory x

/-- **Each location is patched once, from its own word.** -/
theorem applyFixups_each_once {σ : Type} (resolveSymbol : String → String → σ → Word × σ)
    {binary : MachOBinary} {blob : Blob} (hblob : readBlob notPageZero binary = .ok blob) (s : σ)
    {memory : Memory} {locs : List (BitVec 16 × Address)} (hlocs : Chains memory blob.chains locs)
    (hapart : locs.Pairwise fun loc loc' => Apart loc.2 loc'.2) :
    ∃ enough, ∀ fuel ≥ enough, EachOnce resolveSymbol binary blob s memory locs
      (applyFixups resolveSymbol fuel binary s memory) := by
  unfold readBlob at hblob
  cases hfixups : binary.chainedFixups with
  | none =>
    rw [hfixups] at hblob
    cases hblob
    cases hlocs
    refine ⟨0, fun fuel _ => ?_⟩
    have hrun : applyFixups resolveSymbol fuel binary s memory = ⟨none, s, memory, []⟩ := by
      simp only [applyFixups, hfixups]
    rw [hrun]
    exact ⟨rfl, rfl, rfl, fun _ h => (nomatch h), fun _ _ => rfl⟩
  | some range =>
    obtain ⟨offset, size⟩ := range
    rw [hfixups] at hblob
    obtain ⟨header, hheader, hblob⟩ := Fallible.bind_ok hblob
    obtain ⟨imports, himports, hblob⟩ := Fallible.bind_ok hblob
    obtain ⟨count, hcount, hblob⟩ := Fallible.bind_ok hblob
    obtain ⟨chains, hchains, hblob⟩ := Fallible.bind_ok hblob
    cases hblob
    refine ⟨locs.length + 1, fun fuel hfuel => ?_⟩
    let resolved := resolveAll resolveSymbol imports s
    have hwalk := walkChains_each_once resolved.1 (loadAddress binary) memory hlocs
      (fun _ _ => rfl) hapart (Nat.lt_of_succ_le hfuel)
    have hsegments := fixSegments_eq_walkChains resolved.1 (loadAddress binary) fuel hcount hchains
    have hrun : applyFixups resolveSymbol fuel binary s memory =
        ⟨none, resolved.2, memory.writeWords (stores resolved.1 (loadAddress binary) memory locs),
          locs.map (patchOf resolved.1 (loadAddress binary) memory)⟩ := by
      simp only [applyFixups, hfixups, hheader, resolveImports_eq_resolveAll _ himports,
        hsegments, hwalk, resolved]
    rw [hrun]
    exact ⟨rfl, rfl, rfl,
      fun _ hloc => stores_read resolved.1 _ memory (hlocs.supported memory) hapart hloc,
      fun _ hx => stores_outside resolved.1 _ memory hx⟩

/-- Two pointers, the first with a link to the second. -/
def linkedImage : Memory := (pointerImage 0x10000000000010).writeWord 0x8008 0x20

theorem linkedImage_chains :
    Chains linkedImage [(6, 0x8000)] [(6, 0x8000), (6, 0x8008)] :=
  .chain (.inr rfl) (.link (by decide) (.last (by decide))) .done

theorem applyFixups_each_once_linked : ∃ enough, ∀ fuel ≥ enough,
    EachOnce resolveNothing (oneChain "__DATA") ⟨[], [(6, 0x8000)]⟩ () linkedImage
      [(6, 0x8000), (6, 0x8008)]
      (applyFixups resolveNothing fuel (oneChain "__DATA") () linkedImage) :=
  applyFixups_each_once resolveNothing rfl () linkedImage_chains (by decide)

/-- The chains of a segment named __PAGEZERO are not walked. -/
theorem pageZero_not_patched : ¬ ∀ {σ : Type} (resolveSymbol : String → String → σ → Word × σ)
    {binary : MachOBinary} {blob : Blob}, readBlob (fun _ => true) binary = .ok blob →
    ∀ (s : σ) {memory : Memory} {locs : List (BitVec 16 × Address)},
    Chains memory blob.chains locs → (locs.Pairwise fun loc loc' => Apart loc.2 loc'.2) →
    ∃ enough, ∀ fuel ≥ enough, EachOnce resolveSymbol binary blob s memory locs
      (applyFixups resolveSymbol fuel binary s memory) := by
  intro h
  have hblob : readBlob (fun _ => true) (oneChain "__PAGEZERO") = .ok ⟨[], [(6, 0x8000)]⟩ := rfl
  obtain ⟨enough, hall⟩ := h resolveNothing hblob () linkedImage_chains (by decide)
  exact nomatch (hall enough (Nat.le_refl _)).patches

end Grafted.Loader.ChainedFixups

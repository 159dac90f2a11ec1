import Grafted.Dyld.Resolver

/-! The order of the search for a library.

What the search is for: the first file that exists among the candidates of a name, which
are where its prefix puts it, the shim directories and the path itself. Two early exits
keep `resolve` from going through them all: an rpath that has no expansion, and a path that
has no file name. It finds the first one exactly if neither is in the way
(`searchesInOrder_iff`). -/
namespace Grafted.Dyld.DylibResolver

/-! ### What is searched for -/

/-- How a name begins. -/
inductive Form where
  | executablePath (rest : String)
  | loaderPath (rest : String)
  | rpath (rest : String)
  | plain

def form (darwinPath : String) : Form :=
  match stripPrefix "@executable_path/" darwinPath with
  | some rest => .executablePath rest
  | none =>
    match stripPrefix "@loader_path/" darwinPath with
    | some rest => .loaderPath rest
    | none =>
      match stripPrefix "@rpath/" darwinPath with
      | some rest => .rpath rest
      | none => .plain

section Search
variable (fileExists : Path → Bool) (executablePath loaderPath : Option Path) (r : DylibResolver)
  (darwinPath : String) (rpaths : List String)

/-- Where the prefix puts it. -/
def prefixCandidates : List Path :=
  match form darwinPath with
  | .executablePath rest => (executablePath.bind Path.parent).toList.map (·.join (Path.ofString rest))
  | .loaderPath rest => (loaderPath.bind Path.parent).toList.map (·.join (Path.ofString rest))
  | .rpath rest =>
    (rpaths.filterMap (resolveRpath executablePath loaderPath)).map (·.join (Path.ofString rest))
  | .plain => []

def shimCandidates : List Path :=
  (Path.ofString darwinPath).fileName.toList.flatMap fun filename =>
    r.shimDirs.map (·.join (Path.ofString filename))

def candidates : List Path :=
  prefixCandidates executablePath loaderPath darwinPath rpaths ++
    (shimCandidates r darwinPath ++ [Path.ofString darwinPath])

/-- The override, or the first candidate that exists. -/
def firstFound : Option Path :=
  match r.overrides.lookup darwinPath with
  | some path => some path
  | none => (candidates executablePath loaderPath r darwinPath rpaths).find? fileExists

/-- What the search is to do. -/
structure SearchesInOrder : Prop where
  found : resolve fileExists executablePath loaderPath r darwinPath rpaths =
    firstFound fileExists executablePath loaderPath r darwinPath rpaths
  /-- One rpath less never finds more. -/
  grows : ∀ before rpath after, rpaths = before ++ rpath :: after →
    (resolve fileExists executablePath loaderPath r darwinPath (before ++ after)).isSome →
    (resolve fileExists executablePath loaderPath r darwinPath rpaths).isSome

/-! ### Where it stops -/

/-- The loop over the rpaths goes no further. -/
def stopsAt (rest rpath : String) : Bool :=
  match resolveRpath executablePath loaderPath rpath with
  | none => true
  | some dir => fileExists (dir.join (Path.ofString rest))

/-- An rpath that has no expansion, with none before it that has the file. -/
def Blocked : Prop :=
  ∃ rest rpath, form darwinPath = .rpath rest ∧
    rpaths.find? (stopsAt fileExists executablePath loaderPath rest) = some rpath ∧
    resolveRpath executablePath loaderPath rpath = none

/-- Neither exit is taken before a candidate is found. -/
def Unhindered : Prop :=
  ¬ Blocked fileExists executablePath loaderPath darwinPath rpaths ∧
    ((∃ candidate ∈ prefixCandidates executablePath loaderPath darwinPath rpaths,
      fileExists candidate = true) ∨ (Path.ofString darwinPath).fileName.isSome)

/-- The search comes to the first candidate that exists, or there is none. -/
def Reaches : Prop :=
  (r.overrides.lookup darwinPath).isSome ∨
  (∀ candidate ∈ candidates executablePath loaderPath r darwinPath rpaths, fileExists candidate = false) ∨
  Unhindered fileExists executablePath loaderPath darwinPath rpaths

end Search

section Order
variable {fileExists : Path → Bool} {executablePath loaderPath : Option Path} {r : DylibResolver}
  {darwinPath : String} {rpaths : List String}

/-! ### The loops -/

theorem stopsAt_none {rpath : String} (h : resolveRpath executablePath loaderPath rpath = none)
    (rest : String) : stopsAt fileExists executablePath loaderPath rest rpath = true := by
  rw [stopsAt, h]

theorem stopsAt_some {rpath : String} {dir : Path}
    (h : resolveRpath executablePath loaderPath rpath = some dir) (rest : String) :
    stopsAt fileExists executablePath loaderPath rest rpath =
      fileExists (dir.join (Path.ofString rest)) := by
  rw [stopsAt, h]

theorem searchRpaths_blocked {rest rpath : String}
    (hfind : rpaths.find? (stopsAt fileExists executablePath loaderPath rest) = some rpath)
    (hnone : resolveRpath executablePath loaderPath rpath = none) :
    searchRpaths fileExists executablePath loaderPath rest rpaths = none := by
  induction rpaths with
  | nil => cases hfind
  | cons first rpaths ih =>
    rw [List.find?_cons] at hfind
    rw [searchRpaths]
    cases hdir : resolveRpath executablePath loaderPath first with
    | none => rfl
    | some dir =>
      rw [stopsAt_some hdir] at hfind
      cases hexists : fileExists (dir.join (Path.ofString rest)) with
      | true =>
        rw [hexists] at hfind
        cases hfind
        rw [hdir] at hnone
        cases hnone
      | false =>
        rw [hexists] at hfind
        simpa [hexists] using ih hfind

theorem searchRpaths_found {rest : String}
    (h : ∀ rpath, rpaths.find? (stopsAt fileExists executablePath loaderPath rest) = some rpath →
      resolveRpath executablePath loaderPath rpath ≠ none) :
    searchRpaths fileExists executablePath loaderPath rest rpaths =
      some (((rpaths.filterMap (resolveRpath executablePath loaderPath)).map
        (·.join (Path.ofString rest))).find? fileExists) := by
  induction rpaths with
  | nil => rfl
  | cons first rpaths ih =>
    rw [List.find?_cons] at h
    rw [searchRpaths]
    cases hdir : resolveRpath executablePath loaderPath first with
    | none =>
      rw [stopsAt_none hdir] at h
      exact absurd hdir (h first rfl)
    | some dir =>
      rw [stopsAt_some hdir] at h
      rw [List.filterMap_cons_some hdir, List.map_cons, List.find?_cons]
      cases hexists : fileExists (dir.join (Path.ofString rest)) with
      | true => simp [hexists]
      | false =>
        rw [hexists] at h
        simpa [hexists] using ih h

theorem searchBeside_eq (file : Option Path) (rest : String) :
    searchBeside fileExists file rest =
      ((file.bind Path.parent).toList.map (·.join (Path.ofString rest))).find? fileExists := by
  unfold searchBeside existing
  cases file.bind Path.parent with
  | none => rfl
  | some dir => cases hexists : fileExists (dir.join (Path.ofString rest)) <;> simp [hexists]

/-- The shim directories and then the path itself. -/
theorem shimDirs_eq {filename : String} (h : (Path.ofString darwinPath).fileName = some filename) :
    (match r.shimDirs.findSome? fun dir => existing fileExists (dir.join (Path.ofString filename)) with
      | some candidate => some candidate
      | none => existing fileExists (Path.ofString darwinPath)) =
      (shimCandidates r darwinPath ++ [Path.ofString darwinPath]).find? fileExists := by
  have hdirs : (r.shimDirs.findSome? fun dir => existing fileExists (dir.join (Path.ofString filename))) =
      (r.shimDirs.map (·.join (Path.ofString filename))).find? fileExists := by
    rw [← List.findSome?_guard, List.findSome?_map]
    rfl
  have hself : [Path.ofString darwinPath].find? fileExists = existing fileExists (Path.ofString darwinPath) := by
    unfold existing
    cases hexists : fileExists (Path.ofString darwinPath) <;> simp [hexists]
  rw [hdirs, shimCandidates, h, List.find?_append, hself]
  simp only [Option.toList_some, List.flatMap_singleton]
  cases (r.shimDirs.map (·.join (Path.ofString filename))).find? fileExists <;> rfl

/-! ### The search -/

theorem searchAt_blocked (h : Blocked fileExists executablePath loaderPath darwinPath rpaths) :
    searchAt fileExists executablePath loaderPath darwinPath rpaths = none := by
  obtain ⟨rest, rpath, hform, hfind, hnone⟩ := h
  unfold form at hform
  unfold searchAt
  cases hexec : stripPrefix "@executable_path/" darwinPath with
  | some rest' => simp [hexec] at hform
  | none =>
    cases hload : stripPrefix "@loader_path/" darwinPath with
    | some rest' => simp [hexec, hload] at hform
    | none =>
      cases hrpath : stripPrefix "@rpath/" darwinPath with
      | none => simp [hexec, hload, hrpath] at hform
      | some rest' =>
        obtain rfl : rest' = rest := by simpa [hexec, hload, hrpath] using hform
        exact searchRpaths_blocked hfind hnone

theorem searchAt_found (h : ¬ Blocked fileExists executablePath loaderPath darwinPath rpaths) :
    searchAt fileExists executablePath loaderPath darwinPath rpaths =
      some ((prefixCandidates executablePath loaderPath darwinPath rpaths).find? fileExists) := by
  unfold searchAt prefixCandidates form
  cases hexec : stripPrefix "@executable_path/" darwinPath with
  | some rest => exact congrArg some (searchBeside_eq ..)
  | none =>
    cases hload : stripPrefix "@loader_path/" darwinPath with
    | some rest => exact congrArg some (searchBeside_eq ..)
    | none =>
      cases hrpath : stripPrefix "@rpath/" darwinPath with
      | none => rfl
      | some rest =>
        refine searchRpaths_found fun rpath hfind hnone => h ⟨rest, rpath, ?_, hfind, hnone⟩
        rw [form, hexec, hload, hrpath]

section NoOverride
variable (hover : r.overrides.lookup darwinPath = none)
include hover

theorem resolve_unhindered (h : Unhindered fileExists executablePath loaderPath darwinPath rpaths) :
    resolve fileExists executablePath loaderPath r darwinPath rpaths =
      (candidates executablePath loaderPath r darwinPath rpaths).find? fileExists := by
  obtain ⟨hblocked, hfound⟩ := h
  rw [resolve, hover, searchAt_found hblocked, candidates, List.find?_append]
  cases hprefix : (prefixCandidates executablePath loaderPath darwinPath rpaths).find? fileExists with
  | some candidate => rfl
  | none =>
    have hname : (Path.ofString darwinPath).fileName.isSome := by
      refine hfound.resolve_left ?_
      rintro ⟨candidate, hcandidate, hexists⟩
      exact List.find?_eq_none.mp hprefix candidate hcandidate hexists
    rw [Option.none_or]
    cases hfilename : (Path.ofString darwinPath).fileName with
    | none => simp [hfilename] at hname
    | some filename => exact shimDirs_eq hfilename

theorem resolve_hindered (h : ¬ Unhindered fileExists executablePath loaderPath darwinPath rpaths) :
    resolve fileExists executablePath loaderPath r darwinPath rpaths = none := by
  rw [resolve, hover]
  by_cases hblocked : Blocked fileExists executablePath loaderPath darwinPath rpaths
  · rw [searchAt_blocked hblocked]
  rw [searchAt_found hblocked]
  cases hprefix : (prefixCandidates executablePath loaderPath darwinPath rpaths).find? fileExists with
  | some candidate =>
    exact absurd ⟨hblocked, .inl ⟨candidate, List.mem_of_find?_eq_some hprefix,
      List.find?_some hprefix⟩⟩ h
  | none =>
    cases hname : (Path.ofString darwinPath).fileName with
    | some filename =>
      refine absurd ⟨hblocked, .inr ?_⟩ h
      rw [hname]
      rfl
    | none => rfl

end NoOverride

theorem found_iff : resolve fileExists executablePath loaderPath r darwinPath rpaths =
    firstFound fileExists executablePath loaderPath r darwinPath rpaths ↔
      Reaches fileExists executablePath loaderPath r darwinPath rpaths := by
  rw [firstFound, Reaches]
  cases hover : r.overrides.lookup darwinPath with
  | some path =>
    rw [resolve, hover]
    simp
  | none =>
    by_cases h : Unhindered fileExists executablePath loaderPath darwinPath rpaths
    · exact iff_of_true (resolve_unhindered hover h) (.inr (.inr h))
    · rw [resolve_hindered hover h]
      simp only [h, or_false, Option.isSome_none, Bool.false_eq_true, false_or]
      rw [eq_comm, List.find?_eq_none]
      simp

/-- What is found is the override or a candidate. -/
theorem firstFound_of_resolve
    (h : (resolve fileExists executablePath loaderPath r darwinPath rpaths).isSome) :
    (firstFound fileExists executablePath loaderPath r darwinPath rpaths).isSome := by
  rw [firstFound]
  cases hover : r.overrides.lookup darwinPath with
  | some path => rfl
  | none =>
    by_cases hfree : Unhindered fileExists executablePath loaderPath darwinPath rpaths
    · rw [resolve_unhindered hover hfree] at h
      exact h
    · rw [resolve_hindered hover hfree] at h
      cases h

theorem candidates_grow {before after : List String} {rpath : String} {candidate : Path}
    (h : candidate ∈ candidates executablePath loaderPath r darwinPath (before ++ after)) :
    candidate ∈ candidates executablePath loaderPath r darwinPath (before ++ rpath :: after) := by
  unfold candidates at h ⊢
  rw [List.mem_append] at h ⊢
  refine h.imp_left fun hprefix => ?_
  unfold prefixCandidates at hprefix ⊢
  cases hform : form darwinPath with
  | executablePath rest => simpa [hform] using hprefix
  | loaderPath rest => simpa [hform] using hprefix
  | plain => simp [hform] at hprefix
  | rpath rest =>
    simp only [hform] at hprefix
    refine List.map_subset _ (List.filterMap_subset _ ?_) hprefix
    intro rpath' hmem
    exact (List.mem_append.mp hmem).elim (List.mem_append_left _)
      fun hafter => List.mem_append_right _ (List.mem_cons_of_mem _ hafter)

theorem firstFound_grows {before after : List String} {rpath : String}
    (h : (firstFound fileExists executablePath loaderPath r darwinPath (before ++ after)).isSome) :
    (firstFound fileExists executablePath loaderPath r darwinPath (before ++ rpath :: after)).isSome := by
  unfold firstFound at h ⊢
  cases hover : r.overrides.lookup darwinPath with
  | some path => rfl
  | none =>
    rw [hover] at h
    obtain ⟨candidate, hmem, hexists⟩ := List.find?_isSome.mp h
    exact List.find?_isSome.mpr ⟨candidate, candidates_grow hmem, hexists⟩

/-- **The order of the search.** The first candidate that exists is found exactly if the
search reaches it. -/
theorem searchesInOrder_iff (fileExists : Path → Bool) (executablePath loaderPath : Option Path)
    (r : DylibResolver) (darwinPath : String) (rpaths : List String) :
    SearchesInOrder fileExists executablePath loaderPath r darwinPath rpaths ↔
      Reaches fileExists executablePath loaderPath r darwinPath rpaths := by
  constructor
  · intro h
    exact found_iff.mp h.found
  · intro h
    refine ⟨found_iff.mpr h, ?_⟩
    rintro before rpath after rfl hless
    rw [found_iff.mpr h]
    exact firstFound_grows (firstFound_of_resolve hless)

/-- A library in /lib, with an rpath before that no loader is known for. -/
theorem rpath_hides_library : ¬ SearchesInOrder (fun path => path = Path.ofString "/lib/liba.dylib") none
    none .new "@rpath/liba.dylib" ["@loader_path/lib", "/lib"] := by
  intro h
  have hgrows := h.grows [] "@loader_path/lib" ["/lib"] rfl
  revert hgrows
  decide

end Order

end Grafted.Dyld.DylibResolver

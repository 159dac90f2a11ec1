import Mathlib.Data.List.AList

/-! Finding the file of a library.

A `Path` is what the standard library compares of one: whether it is absolute, and
its components without the empty ones and without the `.` that are not at its
front. The file system is a predicate on paths. -/
namespace Grafted.Dyld

structure Path where
  absolute : Bool
  components : List String
  deriving DecidableEq

namespace Path

def ofString (s : String) : Path :=
  let parts := ((s.toList.splitOn '/').map String.ofList).filter (· != "")
  if s.toList.head? = some '/' then ⟨true, parts.filter (· != ".")⟩
  else
    match parts with
    | [] => ⟨false, []⟩
    | first :: rest => ⟨false, first :: rest.filter (· != ".")⟩

def display (path : Path) : String :=
  (if path.absolute then "/" else "") ++ "/".intercalate path.components

def parent (path : Path) : Option Path :=
  if path.components = [] then none else some ⟨path.absolute, path.components.dropLast⟩

def fileName (path : Path) : Option String :=
  path.components.getLast?.filter fun name => name != "." && name != ".."

def join (path rest : Path) : Path :=
  if rest.absolute ∨ path = ⟨false, []⟩ then rest
  else ⟨path.absolute, path.components ++ rest.components.filter (· != ".")⟩

end Path

def stripPrefix (start s : String) : Option String :=
  if start.toList.isPrefixOf s.toList then some (String.ofList (s.toList.drop start.toList.length))
  else none

structure DylibResolver where
  overrides : AList fun _ : String => Path
  shimDirs : List Path

namespace DylibResolver

def new : DylibResolver := ⟨∅, []⟩

def addOverride (r : DylibResolver) (darwinPath : String) (linuxPath : Path) : DylibResolver :=
  {r with overrides := r.overrides.insert darwinPath linuxPath}

section Resolve
variable (fileExists : Path → Bool) (executablePath loaderPath : Option Path)

def existing (candidate : Path) : Option Path := if fileExists candidate then some candidate else none

/-- An rpath may itself begin with @executable_path or @loader_path. -/
def resolveRpath (rpath : String) : Option Path :=
  match stripPrefix "@executable_path/" rpath with
  | some rest => do return (← (← executablePath).parent).join (Path.ofString rest)
  | none =>
    if rpath = "@executable_path" then do (← executablePath).parent
    else
      match stripPrefix "@loader_path/" rpath with
      | some rest => do return (← (← loaderPath).parent).join (Path.ofString rest)
      | none =>
        if rpath = "@loader_path" then do (← loaderPath).parent
        else some (Path.ofString rpath)

/-- The loop over the rpaths. One that has no expansion ends the whole search:
the outer option is none. -/
def searchRpaths (rest : String) : List String → Option (Option Path)
  | [] => some none
  | rpath :: rpaths =>
    match resolveRpath executablePath loaderPath rpath with
    | none => none
    | some dir =>
      let candidate := dir.join (Path.ofString rest)
      if fileExists candidate then some (some candidate) else searchRpaths rest rpaths

def searchBeside (file : Option Path) (rest : String) : Option Path :=
  match file.bind Path.parent with
  | some dir => existing fileExists (dir.join (Path.ofString rest))
  | none => none

/-- The search a name that begins with @ asks for. -/
def searchAt (darwinPath : String) (rpaths : List String) : Option (Option Path) :=
  match stripPrefix "@executable_path/" darwinPath with
  | some rest => some (searchBeside fileExists executablePath rest)
  | none =>
    match stripPrefix "@loader_path/" darwinPath with
    | some rest => some (searchBeside fileExists loaderPath rest)
    | none =>
      match stripPrefix "@rpath/" darwinPath with
      | some rest => searchRpaths fileExists executablePath loaderPath rest rpaths
      | none => some none

def resolve (r : DylibResolver) (darwinPath : String) (rpaths : List String) : Option Path :=
  match r.overrides.lookup darwinPath with
  | some path => some path
  | none =>
    match searchAt fileExists executablePath loaderPath darwinPath rpaths with
    | none => none
    | some (some candidate) => some candidate
    | some none =>
      match (Path.ofString darwinPath).fileName with
      | none => none
      | some filename =>
        match r.shimDirs.findSome? fun dir =>
            existing fileExists (dir.join (Path.ofString filename)) with
        | some candidate => some candidate
        | none => existing fileExists (Path.ofString darwinPath)

end Resolve

end DylibResolver

end Grafted.Dyld

import Mathlib.Algebra.Group.Nat.Defs
import Mathlib.Logic.Function.Basic
import Grafted.Base.Transition

/-! CF objects: reference counts, arrays and dictionaries.

The heap of the allocator, and the calls of one client that may be any number of threads:
the count is atomic, so a run is a list of calls. `retains` counts how often an object was
retained, and `lost` the references that were dropped without a release; the source
keeps neither. -/
namespace Grafted.Cf.Objects
open Transition

abbrev Ref := BitVec 64

def K_CF_NULL : Ref := 0

/-- What an object of each type has after its `CFRuntimeBase`. -/
inductive Body where
  | string (bytes : List (BitVec 8))
  | data (bytes : List (BitVec 8))
  | array (values : List Ref)
  /-- The hash map, from key pointers to value pointers. -/
  | dictionary (entries : List (Ref × Ref))
  deriving DecidableEq

def Body.values : Body → List Ref
  | .string _ => []
  | .data _ => []
  | .array values => values
  | .dictionary entries => entries.map Prod.snd

structure Obj where
  refcount : BitVec 32
  body : Body
  deriving DecidableEq

namespace Obj

def new (body : Body) : Obj := ⟨1, body⟩

def values (o : Obj) : List Ref := o.body.values

def retain (o : Obj) : Obj := {o with refcount := o.refcount + 1}

/-- The object after the decrement, and whether it should be deallocated. -/
def release (o : Obj) : Obj × Bool := ({o with refcount := o.refcount - 1}, o.refcount == 1)

end Obj

structure Heap where
  objects : Ref → Option Obj
  retains : Ref → Nat
  lost : Ref → Nat

namespace Heap

def set (h : Heap) (cf : Ref) (cell : Option Obj) : Heap :=
  {h with objects := Function.update h.objects cf cell}

/-- `Box::into_raw` of a new object, at the address the allocator picks. -/
def box (h : Heap) (address : Ref) (body : Body) : Heap :=
  {h.set address (some (.new body)) with retains := Function.update h.retains address 0}

/-- The destructor of every type drops the box; what it holds is not released. -/
def drop (h : Heap) (cf : Ref) (o : Obj) : Heap :=
  {h.set cf none with lost := fun x => h.lost x + o.values.count x}

end Heap

def cfRetain (h : Heap) (cf : Ref) : Heap :=
  if cf = K_CF_NULL then h
  else
    match h.objects cf with
    | some o =>
      {h.set cf (some o.retain) with retains := Function.update h.retains cf (h.retains cf + 1)}
    | none => h

def cfRelease (h : Heap) (cf : Ref) : Heap :=
  if cf = K_CF_NULL then h
  else
    match h.objects cf with
    | some o => if o.release.2 then h.drop cf o else h.set cf (some o.release.1)
    | none => h

def cfArrayCreate (h : Heap) (address : Ref) (values : List Ref) : Heap :=
  (values.foldl cfRetain h).box address (.array values)

def cfArrayAppendValue (h : Heap) (arr value : Ref) : Heap :=
  if arr = K_CF_NULL then h
  else
    let h := cfRetain h value
    match h.objects arr with
    | some ⟨refcount, .array values⟩ => h.set arr (some ⟨refcount, .array (values ++ [value])⟩)
    | _ => h

/-- `HashMap::get`. -/
def get (entries : List (Ref × Ref)) (key : Ref) : Option Ref :=
  match entries with
  | [] => none
  | (k, v) :: rest => if k = key then some v else get rest key

/-- `HashMap::insert`: the map, and the value the key had. -/
def insert (entries : List (Ref × Ref)) (key value : Ref) : List (Ref × Ref) × Option Ref :=
  match entries with
  | [] => ([(key, value)], none)
  | (k, v) :: rest =>
    if k = key then ((key, value) :: rest, some v)
    else ((k, v) :: (insert rest key value).1, (insert rest key value).2)

/-- `HashMap::remove`. -/
def remove (entries : List (Ref × Ref)) (key : Ref) : List (Ref × Ref) × Option Ref :=
  match entries with
  | [] => ([], none)
  | (k, v) :: rest =>
    if k = key then (rest, some v) else ((k, v) :: (remove rest key).1, (remove rest key).2)

/-- The value an `insert` returned and nobody looks at. -/
def Heap.forget (h : Heap) (old : Option Ref) : Heap :=
  match old with
  | some old => {h with lost := Function.update h.lost old (h.lost old + 1)}
  | none => h

/-- The loop of `CFDictionaryCreate`. -/
def insertAll (h : Heap) (entries : List (Ref × Ref)) : List (Ref × Ref) → Heap × List (Ref × Ref)
  | [] => (h, entries)
  | (key, value) :: rest =>
    insertAll ((cfRetain h value).forget (insert entries key value).2) (insert entries key value).1 rest

def cfDictionaryCreate (h : Heap) (address : Ref) (pairs : List (Ref × Ref)) : Heap :=
  (insertAll h [] pairs).1.box address (.dictionary (insertAll h [] pairs).2)

def releaseOld (h : Heap) (old : Option Ref) : Heap :=
  match old with
  | some old => cfRelease h old
  | none => h

def cfDictionarySetValue (h : Heap) (dict key value : Ref) : Heap :=
  if dict = K_CF_NULL then h
  else
    let h := cfRetain h value
    match h.objects dict with
    | some ⟨refcount, .dictionary entries⟩ =>
      releaseOld (h.set dict (some ⟨refcount, .dictionary (insert entries key value).1⟩))
        (insert entries key value).2
    | _ => h

def cfDictionaryRemoveValue (h : Heap) (dict key : Ref) : Heap :=
  if dict = K_CF_NULL then h
  else
    match h.objects dict with
    | some ⟨refcount, .dictionary entries⟩ =>
      releaseOld (h.set dict (some ⟨refcount, .dictionary (remove entries key).1⟩))
        (remove entries key).2
    | _ => h

/-! ### The client -/

/-- The heap, and how many references to each object the client owns. -/
structure State where
  heap : Heap
  owned : Ref → Nat

def State.new : State := ⟨⟨fun _ => none, fun _ => 0, fun _ => 0⟩, fun _ => 0⟩

/-- A call of the client. A new object comes with the address it gets. -/
inductive Action where
  | createString (address : Ref) (bytes : List (BitVec 8))
  | createData (address : Ref) (bytes : List (BitVec 8))
  | createArray (address : Ref) (values : List Ref)
  | createDictionary (address : Ref) (pairs : List (Ref × Ref))
  | retain (cf : Ref)
  | release (cf : Ref)
  | arrayAppendValue (arr value : Ref)
  | dictionarySetValue (dict key value : Ref)
  | dictionaryRemoveValue (dict key : Ref)

def perform (s : State) : Action → State
  | .createString address bytes =>
    ⟨s.heap.box address (.string bytes), Function.update s.owned address (s.owned address + 1)⟩
  | .createData address bytes =>
    ⟨s.heap.box address (.data bytes), Function.update s.owned address (s.owned address + 1)⟩
  | .createArray address values =>
    ⟨cfArrayCreate s.heap address values, Function.update s.owned address (s.owned address + 1)⟩
  | .createDictionary address pairs =>
    ⟨cfDictionaryCreate s.heap address pairs, Function.update s.owned address (s.owned address + 1)⟩
  | .retain cf => ⟨cfRetain s.heap cf, Function.update s.owned cf (s.owned cf + 1)⟩
  | .release cf => ⟨cfRelease s.heap cf, Function.update s.owned cf (s.owned cf - 1)⟩
  | .arrayAppendValue arr value => ⟨cfArrayAppendValue s.heap arr value, s.owned⟩
  | .dictionarySetValue dict key value => ⟨cfDictionarySetValue s.heap dict key value, s.owned⟩
  | .dictionaryRemoveValue dict key => ⟨cfDictionaryRemoveValue s.heap dict key, s.owned⟩

def cfSystem : System State Action Unit := ⟨fun s a => (perform s a, ())⟩

abbrev CfEvent := Event State Action Unit

/-! ### What the client keeps to -/

def Live (h : Heap) (cf : Ref) : Prop := h.objects cf ≠ none

/-- Null or a live object. -/
def Passable (h : Heap) (cf : Ref) : Prop := cf = K_CF_NULL ∨ Live h cf

def IsArray (h : Heap) (cf : Ref) : Prop :=
  cf = K_CF_NULL ∨ ∃ refcount values, h.objects cf = some ⟨refcount, .array values⟩

def IsDictionary (h : Heap) (cf : Ref) : Prop :=
  cf = K_CF_NULL ∨ ∃ refcount entries, h.objects cf = some ⟨refcount, .dictionary entries⟩

/-- The allocator gives an address that is not in use. -/
def IsFresh (h : Heap) (address : Ref) : Prop := address ≠ K_CF_NULL ∧ h.objects address = none

/-- The client passes live objects, of the type the call is for, and releases what it
owns. -/
def Passes (s : State) : Action → Prop
  | .createString address _ => IsFresh s.heap address
  | .createData address _ => IsFresh s.heap address
  | .createArray address values => IsFresh s.heap address ∧ ∀ v ∈ values, Passable s.heap v
  | .createDictionary address pairs => IsFresh s.heap address ∧ ∀ p ∈ pairs, Passable s.heap p.2
  | .retain cf => Passable s.heap cf
  | .release cf => cf = K_CF_NULL ∨ 0 < s.owned cf
  | .arrayAppendValue arr value => IsArray s.heap arr ∧ Passable s.heap value
  | .dictionarySetValue dict _ value => IsDictionary s.heap dict ∧ Passable s.heap value
  | .dictionaryRemoveValue dict _ => IsDictionary s.heap dict

/-- A call the client may make, after which no object has been retained 2^32 times. -/
structure Fair (e : CfEvent) : Prop where
  passes : Passes e.before e.action
  retains : ∀ x, e.after.heap.retains x < 2 ^ 32

end Grafted.Cf.Objects

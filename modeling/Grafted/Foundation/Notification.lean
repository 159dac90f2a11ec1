import Grafted.Base.Transition

/-! NSNotificationCenter: the table of observers and the posts in progress.

A post collects its matches under the lock and dispatches them one by one after the lock
is given back. Callbacks and other threads add, remove and post in between, so a run is
any order of the calls and of the dispatches of the posts in progress.

`Observer.number` and `Match.number` say which registration is meant; the source stores
neither. -/
namespace Grafted.Foundation.NotificationCenter
open Transition

abbrev Ptr := BitVec 64

/-- A name argument, with the bytes memory has there. -/
inductive NamePtr where
  | null
  | cfString (bytes : List UInt8)
  /-- Not a CFString: the bytes before the first zero. -/
  | cString (bytes : List UInt8)
  deriving DecidableEq

def readCfstring : NamePtr → Option String
  | .null => none
  | .cfString bytes => String.fromUTF8? ⟨bytes.toArray⟩
  | .cString bytes => String.fromUTF8? ⟨bytes.toArray⟩

structure Observer where
  number : Nat
  observer : Ptr
  selector : Ptr
  /-- Registered name, none for any. -/
  name : Option String
  /-- Registered object, null for any. -/
  object : Ptr
  deriving DecidableEq

structure Match where
  number : Nat
  observer : Ptr
  selector : Ptr
  deriving DecidableEq

def Observer.toMatch (o : Observer) : Match := ⟨o.number, o.observer, o.selector⟩

/-- A post that has collected its matches, and those it has not dispatched yet. -/
structure Post where
  name : NamePtr
  pending : List Match
  deriving DecidableEq

structure Center where
  observers : List Observer
  /-- How many registrations were made. -/
  registered : Nat
  posts : List Post
  deriving DecidableEq

structure Message where
  observer : Ptr
  selector : Ptr
  notification : NamePtr
  deriving DecidableEq

namespace Center

def new : Center := ⟨[], 0, []⟩

def addObserver (c : Center) (observer selector : Ptr) (name : NamePtr) (object : Ptr) : Center :=
  { c with
    observers := c.observers ++ [⟨c.registered, observer, selector, readCfstring name, object⟩]
    registered := c.registered + 1 }

def removeObserver (c : Center) (observer : Ptr) : Center :=
  {c with observers := c.observers.filter fun o => o.observer != observer}

def removeObserverNameObject (c : Center) (observer : Ptr) (name : NamePtr) (object : Ptr) : Center :=
  let nameStr := readCfstring name
  { c with
    observers := c.observers.filter fun o =>
      let observerMatch := o.observer == observer
      let nameMatch := nameStr.isNone || o.name == nameStr
      let objectMatch := object == 0 || o.object == object
      !(observerMatch && nameMatch && objectMatch) }

/-- The first half of `post_by_name`. -/
def postByName (c : Center) (name : NamePtr) (object : Ptr) : Center :=
  let nameStr := readCfstring name
  let found := c.observers.filter fun o =>
    let nameMatch := o.name.isNone || o.name == nameStr
    let objectMatch := o.object == 0 || object == 0 || o.object == object
    nameMatch && objectMatch
  {c with posts := c.posts ++ [⟨name, found.map Observer.toMatch⟩]}

end Center

/-- The callback a match invokes, if the runtime finds the method. -/
def dispatchOne (m : Match) (responds : Bool) (notification : NamePtr) : Option Message :=
  if m.observer = 0 ∨ m.selector = 0 then none
  else if responds then some ⟨m.observer, m.selector, notification⟩
  else none

inductive Action where
  | addObserver (observer selector : Ptr) (name : NamePtr) (object : Ptr)
  | removeObserver (observer : Ptr)
  | removeObserverNameObject (observer : Ptr) (name : NamePtr) (object : Ptr)
  | post (name : NamePtr) (object : Ptr)
  /-- The next match of a post in progress. The observer responds to its selector or
  does not. -/
  | dispatch (post : Nat) (responds : Bool)

inductive Answer where
  | done
  | dispatched (m : Match) (message : Option Message)
  deriving DecidableEq

def dispatch (c : Center) (post : Nat) (responds : Bool) : Center × Answer :=
  match c.posts[post]? with
  | some ⟨name, m :: rest⟩ =>
    ({c with posts := c.posts.set post ⟨name, rest⟩}, .dispatched m (dispatchOne m responds name))
  | _ => (c, .done)

def perform (c : Center) : Action → Center × Answer
  | .addObserver observer selector name object =>
    (c.addObserver observer selector name object, .done)
  | .removeObserver observer => (c.removeObserver observer, .done)
  | .removeObserverNameObject observer name object =>
    (c.removeObserverNameObject observer name object, .done)
  | .post name object => (c.postByName name object, .done)
  | .dispatch post responds => dispatch c post responds

def centerSystem : System Center Action Answer := ⟨perform⟩

abbrev CenterEvent := Event Center Action Answer

end Grafted.Foundation.NotificationCenter

import ProcessImage.Cache.State

/-!
# Caches with callbacks

A `Cache` is a state together with the callbacks that want to hear of its
changes.  After each change the callbacks that are registered at that moment
are called in the order of their registration, each with the same snapshot,
even if one of them removes another or changes the cache again.

What a callback does is data, a `Reaction`, so a run of a cache is a function of
its changes.  The run yields a history of all calls and of what they did.
-/

namespace ProcessImage

namespace Cache

/-- What a callback does when it is called. -/
inductive Reaction where
  /-- It only takes notice. -/
  | record
  /-- It reads the cache. -/
  | read
  /-- It removes itself. -/
  | removeSelf
  /-- It removes the callback of a number. -/
  | remove (target : Nat)
  /-- It registers a further callback, which only takes notice. -/
  | add
  /-- It drops the value of the cache, unless there was none in the snapshot. -/
  | clear
  /-- It writes to its variable, according to a plan with one entry a call. -/
  | write (plan : List (Option Value))

namespace Reaction

/-- The value that a callback writes when it is called next. -/
def planned? : Reaction → Option Value
  | write (entry :: _) => entry
  | _ => none

/-- The callback after one more call. -/
def advance : Reaction → Reaction
  | write plan => write plan.tail
  | reaction => reaction

/-- Number of calls that may still write. -/
def writesLeft : Reaction → Nat
  | write plan => plan.length
  | _ => 0

end Reaction

/-- All that can be read from a cache at one moment. -/
structure Reads where
  connected : Bool
  value : Value
  valid : Bool
  snapshot : Snapshot

/-- What can be seen of callbacks. -/
inductive Event where
  | called (callback : Nat) (snapshot : Snapshot)
  | hasRead (callback : Nat) (reads : Reads)
  | hasRemoved (callback : Nat) (done : Bool)
  | hasAdded (callback : Nat) (number : Nat)
  | hasCleared (callback : Nat)

/-- What happens while a cache changes. -/
abbrev History := List (Entry Event)

end Cache

/-- The state of a variable and its callbacks by number, in the order of their
registration. -/
structure Cache where
  state : Cache.State := {}
  callbacks : List (Nat × Cache.Reaction) := []
  /-- The number for the next callback. -/
  next : Nat := 0
deriving Inhabited

namespace Cache

/-- All that can be read now. -/
def reads (cache : Cache) : Reads where
  connected := cache.state.isConnected
  value := cache.state.value
  valid := cache.state.hasValidValue
  snapshot := cache.state.snapshot

/-! ## Registration -/

/-- Registers a callback and yields its number. -/
def subscribe (cache : Cache) (reaction : Reaction) : Cache × Nat :=
  ({ cache with callbacks := cache.callbacks ++ [(cache.next, reaction)], next := cache.next + 1 },
    cache.next)

/-- Whether a callback of a number is registered. -/
def isRegistered (cache : Cache) (number : Nat) : Bool :=
  cache.callbacks.any (·.1 == number)

/-- Removes a callback and tells whether it was registered. -/
def unsubscribe (cache : Cache) (number : Nat) : Cache × Bool :=
  ({ cache with callbacks := cache.callbacks.filter (·.1 != number) }, cache.isRegistered number)

/-! ## Planned writes -/

/-- The value that a registered callback writes when it is called next. -/
def planned? (cache : Cache) (number : Nat) : Option Value :=
  (cache.callbacks.lookup number).bind Reaction.planned?

/-- The cache after one more call of a callback. -/
def advance (cache : Cache) (number : Nat) : Cache :=
  { cache with
    callbacks := cache.callbacks.map fun (other, reaction) =>
      (other, if other = number then reaction.advance else reaction) }

/-- Number of calls that may still write. -/
def writesLeft (cache : Cache) : Nat :=
  cache.callbacks.foldr (fun callback total => callback.2.writesLeft + total) 0

/-! ## Changes -/

/-- What a callback does to its own cache.  Dropping the value is a change
again, so the way to do it is a parameter. -/
def react (clear : Cache → Cache × History) (snapshot : Snapshot) (number : Nat)
    (reaction : Reaction) (cache : Cache) : Cache × History :=
  match reaction with
  | .record | .write _ => (cache, [])
  | .read => (cache, [.event (.hasRead number cache.reads)])
  | .removeSelf =>
      let (cache, done) := cache.unsubscribe number
      (cache, [.event (.hasRemoved number done)])
  | .remove target =>
      let (cache, done) := cache.unsubscribe target
      (cache, [.event (.hasRemoved number done)])
  | .add =>
      let (cache, added) := cache.subscribe .record
      (cache, [.event (.hasAdded number added)])
  | .clear =>
      let (cache, history) := if snapshot.value.isEmpty then (cache, []) else clear cache
      (cache, history ++ [.event (.hasCleared number)])

/-- Calls one callback. -/
def call (clear : Cache → Cache × History) (snapshot : Snapshot) (callback : Nat × Reaction)
    (cache : Cache) : Cache × History :=
  let (cache, history) := cache.react clear snapshot callback.1 callback.2
  (cache, .event (.called callback.1 snapshot) :: history)

/-- Calls callbacks one after the other. -/
def callAll (clear : Cache → Cache × History) (snapshot : Snapshot) :
    List (Nat × Reaction) → Cache → Cache × History
  | [], cache => (cache, [])
  | callback :: rest, cache =>
      let (cache, first) := cache.call clear snapshot callback
      let (cache, others) := callAll clear snapshot rest cache
      (cache, first ++ others)

/-- The cache after a change and after all calls, for a way to drop the value
within a call. -/
def receiveWith (clear : Cache → Cache × History) (change : Change) (cache : Cache) :
    Cache × History :=
  let cache := { cache with state := cache.state.after change }
  let (after, history) := callAll clear cache.state.snapshot cache.callbacks cache
  (after, change.notes.map .note ++ history)

/-- Leaves a cache as it is. -/
def keep (cache : Cache) : Cache × History := (cache, [])

/-- The cache after a change and after all calls.  A value that is dropped
within a call leaves nothing to drop for the calls which that causes, so one
level within another is enough. -/
def receive (change : Change) (cache : Cache) : Cache × History :=
  receiveWith (receiveWith keep .cleared) change cache

end Cache

end ProcessImage

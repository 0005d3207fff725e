import Mathlib.Logic.Function.Basic
import Protocomm.Misc.Pool

/-!
# The completion queue

`c++/src/mpsc_queue.h`: an intrusive queue with many producers and one
consumer. Each producer runs one `push`, the consumer runs `pop` again and
again, and every atomic load, store or exchange is one step; `tail_` is touched
by the consumer only, so its accesses go with the atomic step before them. The
application hands every node to `push` at most once.
-/

namespace Protocomm.Cpp.MpscQueue

open Misc

/-- The address of a node: the embedded sentinel or a payload node. -/
inductive Ref (ν : Type) where
  | stub
  | node (n : ν)
  deriving DecidableEq, Repr

/-- The queue's memory (`mpsc_queue.h:60-62`) and what has happened to it:
    `pushed` are the nodes handed to `push`, `exchanged` those that reached
    `head_`, in the order of their exchanges, and `pops` the results of `pop`,
    `none` for `nullptr`. -/
structure Queue (ν : Type) where
  head : Ref ν
  tail : Ref ν
  next : Ref ν → Option (Ref ν)
  pushed : List ν
  exchanged : List ν
  pops : List (Option (Ref ν))

/-- Where a thread stands. A producer is about to clear its node's link, to
    exchange `head_`, or to link `prev` to its node; the consumer is between
    calls of `pop` or at one of its later accesses, with the local `tail`. -/
inductive Thread (ν : Type) where
  | app
  | pushStore (n : ν)
  | pushExchange (n : ν)
  | pushLink (n : ν) (prev : Ref ν)
  | pushDone
  | popStart
  | popNext (tail : Ref ν)
  | popHead (tail : Ref ν)
  | stubStore (tail : Ref ν)
  | stubExchange (tail : Ref ν)
  | stubLink (tail prev : Ref ν)
  | popRetry (tail : Ref ν)
  deriving DecidableEq, Repr

/-- What drives a step: the application starts a `push`, or a thread runs on. -/
inductive Action (ν : Type) where
  | start (n : ν)
  | run
  deriving DecidableEq, Repr

variable {ν : Type} [DecidableEq ν]

/-- `MpscQueue::MpscQueue` (`mpsc_queue.h:11-13`). -/
def Queue.empty : Queue ν :=
  { head := .stub, tail := .stub, next := fun _ => none, pushed := [], exchanged := [], pops := [] }

/-- `ref->mpsc_next.store(value)`. -/
def Queue.setNext (q : Queue ν) (ref : Ref ν) (value : Option (Ref ν)) : Queue ν :=
  { q with next := Function.update q.next ref value }

@[simp]
theorem setNext_next_self (q : Queue ν) (ref : Ref ν) (value : Option (Ref ν)) :
    (q.setNext ref value).next ref = value :=
  Function.update_self ..

theorem setNext_next_of_ne (q : Queue ν) {ref ref' : Ref ν} (value : Option (Ref ν))
    (hne : ref' ≠ ref) : (q.setNext ref value).next ref' = q.next ref' :=
  Function.update_of_ne hne ..

/-- `tail_ = next; return tail;` (`mpsc_queue.h:40-41`, `53-54`). -/
def Queue.advance (q : Queue ν) (tail next : Ref ν) : Queue ν :=
  { q with tail := next, pops := q.pops ++ [some tail] }

/-- `return nullptr;`. -/
def Queue.giveUp (q : Queue ν) : Queue ν := { q with pops := q.pops ++ [none] }

/-- `push` (`mpsc_queue.h:19-23`) as the producers run it. -/
def pushStep (q : Queue ν) : Thread ν → Option (Queue ν × Thread ν)
  | .pushStore n => some (q.setNext (.node n) none, .pushExchange n)
  | .pushExchange n =>
      some ({ q with head := .node n, exchanged := q.exchanged ++ [n] }, .pushLink n q.head)
  | .pushLink n prev => some (q.setNext prev (some (.node n)), .pushDone)
  | _ => none

/-- `pop` (`mpsc_queue.h:26-57`), with the `push(&stub_)` inside it. -/
def popStep (q : Queue ν) : Thread ν → Option (Queue ν × Thread ν)
  | .popStart =>
      match q.tail, q.next q.tail with
      | .stub, none => some (q.giveUp, .popStart)
      | .stub, some next => some ({ q with tail := next }, .popNext next)
      | .node n, some next => some (q.advance (.node n) next, .popStart)
      | .node n, none => some (q, .popHead (.node n))
  | .popNext tail =>
      match q.next tail with
      | some next => some (q.advance tail next, .popStart)
      | none => some (q, .popHead tail)
  | .popHead tail =>
      if tail ≠ q.head then some (q.giveUp, .popStart) else some (q, .stubStore tail)
  | .stubStore tail => some (q.setNext .stub none, .stubExchange tail)
  | .stubExchange tail => some ({ q with head := .stub }, .stubLink tail q.head)
  | .stubLink tail prev => some (q.setNext prev (some .stub), .popRetry tail)
  | .popRetry tail =>
      match q.next tail with
      | some next => some (q.advance tail next, .popStart)
      | none => some (q.giveUp, .popStart)
  | _ => none

/-- One atomic step of a thread. -/
def step (q : Queue ν) : Thread ν → Action ν → Option (Queue ν × Thread ν × List (Thread ν))
  | .app, .start n =>
      if n ∈ q.pushed then none
      else some ({ q with pushed := q.pushed ++ [n] }, .app, [.pushStore n])
  | t, .run =>
      match pushStep q t with
      | some (q', t') => some (q', t', [])
      | none => (popStep q t).map fun r => (r.1, r.2, [])
  | _, _ => none

/-- The producers and the consumer as a program. -/
def program (ν : Type) [DecidableEq ν] : Program (Queue ν) (Thread ν) (Action ν) := ⟨step⟩

/-- An empty queue, its consumer and the application. -/
def initial (ν : Type) [DecidableEq ν] : Pool (Queue ν) (Thread ν) := ⟨.empty, [.app, .popStart]⟩

/-- The interleavings of the consumer and any number of producers. -/
def machine (ν : Type) [DecidableEq ν] : Machine (Pool (Queue ν) (Thread ν)) (Nat × Action ν) :=
  (program ν).machine

/-- The payload nodes `pop` has returned so far, in order. -/
def Queue.returned (q : Queue ν) : List (Ref ν) := q.pops.filterMap id

/-- The link store a thread is about to make: `prev->mpsc_next.store(node)`. -/
def Thread.link? : Thread ν → Option (Ref ν × Ref ν)
  | .pushLink n prev => some (prev, .node n)
  | .stubLink _ prev => some (prev, .stub)
  | _ => none

/-- The thread is a producer between its exchange and its link store. -/
def Thread.between : Thread ν → Bool
  | .pushLink _ _ => true
  | _ => false

/-- The thread runs `push`. -/
def Thread.pushing : Thread ν → Bool
  | .pushStore _ => true
  | .pushExchange _ => true
  | .pushLink _ _ => true
  | _ => false

/-- The thread is the consumer, inside a call of `pop`. -/
def Thread.inPop : Thread ν → Bool
  | .popNext _ => true
  | .popHead _ => true
  | .stubStore _ => true
  | .stubExchange _ => true
  | .stubLink _ _ => true
  | .popRetry _ => true
  | _ => false

/-- The exchanged nodes that were not returned yet, oldest first. -/
def Queue.remaining (q : Queue ν) : List (Ref ν) :=
  (q.exchanged.map Ref.node).drop q.returned.length

/-- Every node that reached `head_` has been returned. -/
def AllReturned (q : Queue ν) : Prop := q.returned = q.exchanged.map Ref.node

instance (q : Queue ν) : Decidable (AllReturned q) :=
  inferInstanceAs (Decidable (q.returned = q.exchanged.map Ref.node))

/-- Some producer stands between its exchange and its link store. -/
def SomeBetween (threads : List (Thread ν)) : Prop := ∃ t ∈ threads, t.between = true

instance (threads : List (Thread ν)) : Decidable (SomeBetween threads) :=
  inferInstanceAs (Decidable (∃ t ∈ threads, t.between = true))

/-- No `push` is in progress. -/
def NoPush (threads : List (Thread ν)) : Prop := ∀ t ∈ threads, t.pushing = false

instance (threads : List (Thread ν)) : Decidable (NoPush threads) :=
  inferInstanceAs (Decidable (∀ t ∈ threads, t.pushing = false))

end Protocomm.Cpp.MpscQueue

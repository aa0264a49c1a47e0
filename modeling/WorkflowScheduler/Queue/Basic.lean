import WorkflowScheduler.Execution.Basic

/-!
# The dispatch queue

Executions wait for dispatch first in, first out. Beside the channel there is a counter of depth that
producers raise before they send and that the consumer lowers after it has taken an execution; each
of these is a step of its own. Once the consumer is gone nothing can be sent, and once all producers
are gone nothing can come any more.

## Main definitions

* `Queue`: the channel and the counter
* `Queue.raise`, `Queue.send`, `Queue.lower`, `Queue.take`: the single steps
* `Queue.push`, `Queue.receive`, `Queue.drain`, `Queue.close`: the operations put together from them
* `Queue.await`: what a consumer that waits gets
-/

namespace WorkflowScheduler

/-- The executions that wait, the oldest first; the counter of depth, a word of 64 bits; the number
of producers; and whether there is a consumer. -/
structure Queue where
  waiting : List Execution
  depth : UInt64
  producers : Nat
  hasConsumer : Bool
  deriving DecidableEq, Repr

namespace Queue

/-- A queue with nothing in it, and with one producer. -/
def empty : Queue := ⟨[], 0, 1, true⟩

/-! ## Single steps -/

/-- Raise the counter. -/
def raise (q : Queue) : Queue :=
  { q with depth := q.depth + 1 }

/-- Lower the counter. -/
def lower (q : Queue) : Queue :=
  { q with depth := q.depth - 1 }

/-- Append an execution to the channel, if there is a consumer. -/
def send (q : Queue) (e : Execution) : Bool × Queue :=
  if q.hasConsumer then (true, { q with waiting := q.waiting ++ [e] }) else (false, q)

/-- Take the oldest execution out of the channel. -/
def take (q : Queue) : Option Execution × Queue :=
  match q.waiting with
  | [] => (none, q)
  | e :: es => (some e, { q with waiting := es })

/-! ## Operations -/

/-- **Append an execution.** The answer is `false` once the consumer is gone. -/
def push (q : Queue) (e : Execution) : Bool × Queue :=
  let (sent, q) := q.raise.send e
  if sent then (true, q) else (false, q.lower)

/-- **Take the oldest execution**, if there is one. -/
def receive (q : Queue) : Option Execution × Queue :=
  match q.take with
  | (some e, q) => (some e, q.lower)
  | (none, q) => (none, q)

/-- Take as many executions as there are, up to a number. -/
def drainUpTo : Nat → Queue → List Execution × Queue
  | 0, q => ([], q)
  | n + 1, q =>
    match q.receive with
    | (none, q) => ([], q)
    | (some e, q) =>
      let (es, q) := drainUpTo n q
      (e :: es, q)

/-- **Take all that wait.** -/
def drain (q : Queue) : List Execution × Queue :=
  drainUpTo q.waiting.length q

/-- What a consumer that waits gets: an execution, the news that none can come any more, or nothing
for now. -/
inductive Receipt where
  | item (e : Execution)
  | ended
  | waiting
  deriving DecidableEq, Repr

/-- **Wait for the oldest execution.** -/
def await (q : Queue) : Receipt × Queue :=
  match q.receive with
  | (some e, q) => (.item e, q)
  | (none, q) => (if q.producers = 0 then .ended else .waiting, q)

/-- One more producer like those there are, if there are any. -/
def cloneProducer (q : Queue) : Queue :=
  if q.producers = 0 then q else { q with producers := q.producers + 1 }

/-- All producers go away. -/
def dropProducers (q : Queue) : Queue :=
  { q with producers := 0 }

/-- The consumer goes away. What waits is lost to it but stays counted. -/
def close (q : Queue) : Queue :=
  { q with waiting := [], hasConsumer := false }

end Queue

end WorkflowScheduler

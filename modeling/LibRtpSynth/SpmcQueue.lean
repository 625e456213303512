/-
The single-producer multiple-consumer queue (`src/SPMCQueue.c`).

A thread is the point it has reached in the function it executes, with the
local variables that are still needed; a step of the system is one access of
one thread to the shared memory, together with the local computation up to its
next access.  Any list of actions that are possible one after the other is an
interleaving.  Accesses are sequentially consistent, and a weak
compare-exchange may fail spuriously.

Memory that is not initialised holds arbitrary values: `create_queue` takes the
contents of the slots as an argument.
-/
import LibRtpSynth.CWords
import LibRtpSynth.Runs
import Mathlib.Logic.Function.Basic

open CWords

namespace Spmc

variable {ι α : Type}

/-- `struct SPMCQueue`. -/
structure SPMCQueue (α : Type) where
  capacity : ℕ
  mask : ℕ
  writeIdx : ℕ
  readIdxCache : ℕ
  readIdx : ℕ
  writeIdxCache : ℕ
  slots : ℕ → α

/-- `sizeof(SPMCQueue)`: five cache lines in front of the slots. -/
def sizeofSPMCQueue : ℕ := 320

/-- `sizeof(void *)`. -/
def sizeofVoidPtr : ℕ := 8

/-- `create_queue`; the allocation is taken to succeed. -/
def createQueue (capacity : ℕ) (slots : ℕ → α) : Option (SPMCQueue α) :=
  if capacity = 0 then none
  else if capacity &&& (capacity - 1) ≠ 0 then none
  else if capacity > (2 ^ 64 - 1 - sizeofSPMCQueue) / sizeofVoidPtr then none
  else
    some
      { capacity := capacity
        mask := capacity - 1
        writeIdx := 0
        readIdxCache := 0
        readIdx := 0
        writeIdxCache := 0
        slots := slots }

/-! ### Threads -/

/-- The next access of the producer, in `try_push(queue, value)` unless it is
idle. -/
inductive Producer (α : Type)
  | idle
  | loadWriteIdx (value : α)
  | checkSize (value : α) (writeIdx nextWriteIdx : ℕ)
  | loadReadIdx (value : α) (writeIdx nextWriteIdx : ℕ)
  | storeReadIdxCache (value : α) (writeIdx nextWriteIdx readIdx : ℕ)
  | recheckSize (value : α) (writeIdx nextWriteIdx : ℕ)
  | writeSlot (value : α) (writeIdx nextWriteIdx : ℕ)
  | storeWriteIdx (value : α) (nextWriteIdx : ℕ)

/-- The two functions a consumer calls. -/
inductive Pop
  | tryPop
  | tryPopMany (howmany : ℕ)
  deriving DecidableEq, Repr

/-- The next access of a consumer, in the call `op` unless it is idle; `values`
are the slots read so far in this turn of the loop. -/
inductive Consumer (α : Type)
  | idle
  | loadReadIdx (op : Pop)
  | loadWriteIdxCache (op : Pop) (readIdx : ℕ)
  | loadWriteIdx (op : Pop) (readIdx : ℕ)
  | storeWriteIdxCache (op : Pop) (readIdx writeIdxCache : ℕ)
  | readSlot (op : Pop) (readIdx newReadIdx i : ℕ) (values : List α)
  | updateReadIdx (op : Pop) (readIdx newReadIdx : ℕ) (values : List α)
  | aborted

/-- What a step shows to the outside: a call, an access inside a call, or the
access a function returns after, with what it returns. -/
inductive Event (ι α : Type)
  | call
  | access
  | pushed (value : α)
  | pushFull
  | popped (c : ι) (op : Pop) (values : List α) (rval : ℕ)
  | popEmpty (c : ι) (op : Pop)
  | assertFailed (c : ι)

/-- One access of `try_push`. -/
def tryPush (queue : SPMCQueue α) : Producer α → Option (SPMCQueue α × Producer α × Event ι α)
  | .idle => none
  | .loadWriteIdx value =>
    let writeIdx := queue.writeIdx
    some (queue, .checkSize value writeIdx (add64 writeIdx 1), .access)
  | .checkSize value writeIdx nextWriteIdx =>
    let newsize := sub64 nextWriteIdx queue.readIdxCache
    if newsize ≤ queue.capacity then some (queue, .writeSlot value writeIdx nextWriteIdx, .access)
    else some (queue, .loadReadIdx value writeIdx nextWriteIdx, .access)
  | .loadReadIdx value writeIdx nextWriteIdx =>
    some (queue, .storeReadIdxCache value writeIdx nextWriteIdx queue.readIdx, .access)
  | .storeReadIdxCache value writeIdx nextWriteIdx readIdx =>
    some ({ queue with readIdxCache := readIdx }, .recheckSize value writeIdx nextWriteIdx, .access)
  | .recheckSize value writeIdx nextWriteIdx =>
    let newsize := sub64 nextWriteIdx queue.readIdxCache
    if newsize ≤ queue.capacity then some (queue, .writeSlot value writeIdx nextWriteIdx, .access)
    else some (queue, .idle, .pushFull)
  | .writeSlot value writeIdx nextWriteIdx =>
    some ({ queue with slots := Function.update queue.slots (writeIdx &&& queue.mask) value },
      .storeWriteIdx value nextWriteIdx, .access)
  | .storeWriteIdx value nextWriteIdx =>
    some ({ queue with writeIdx := nextWriteIdx }, .idle, .pushed value)

/-- The loop of `try_pop_many` over the slots, at its test. -/
def manyLoop (howmany readIdx newReadIdx i : ℕ) (values : List α) : Consumer α :=
  if i < newReadIdx then .readSlot (.tryPopMany howmany) readIdx newReadIdx i values
  else .updateReadIdx (.tryPopMany howmany) readIdx newReadIdx values

/-- The loops of both functions from where the queue is known not to be empty. -/
def notEmpty : Pop → ℕ → ℕ → Consumer α
  | .tryPop, readIdx, _ => .readSlot .tryPop readIdx (add64 readIdx 1) readIdx []
  | .tryPopMany howmany, readIdx, writeIdxCache =>
    let newReadIdx := add64 readIdx howmany
    let newReadIdx := if newReadIdx > writeIdxCache then writeIdxCache else newReadIdx
    manyLoop howmany readIdx newReadIdx readIdx []

/-- One access of `try_pop` or `try_pop_many`, called by the consumer `c`. -/
def popStep (c : ι) (spurious : Bool) (queue : SPMCQueue α) :
    Consumer α → Option (SPMCQueue α × Consumer α × Event ι α)
  | .idle => none
  | .loadReadIdx op => some (queue, .loadWriteIdxCache op queue.readIdx, .access)
  | .loadWriteIdxCache op readIdx =>
    let writeIdxCache := queue.writeIdxCache
    if readIdx ≥ writeIdxCache then some (queue, .loadWriteIdx op readIdx, .access)
    else some (queue, notEmpty op readIdx writeIdxCache, .access)
  | .loadWriteIdx op readIdx =>
    some (queue, .storeWriteIdxCache op readIdx queue.writeIdx, .access)
  | .storeWriteIdxCache op readIdx writeIdxCache =>
    let queue := { queue with writeIdxCache := writeIdxCache }
    if readIdx = writeIdxCache then some (queue, .idle, .popEmpty c op)
    else if readIdx < writeIdxCache then some (queue, notEmpty op readIdx writeIdxCache, .access)
    else some (queue, .aborted, .assertFailed c)
  | .readSlot op readIdx newReadIdx i values =>
    let values := values ++ [queue.slots (i &&& queue.mask)]
    match op with
    | .tryPop => some (queue, .updateReadIdx .tryPop readIdx newReadIdx values, .access)
    | .tryPopMany howmany =>
      some (queue, manyLoop howmany readIdx newReadIdx (add64 i 1) values, .access)
  | .updateReadIdx op readIdx newReadIdx values =>
    if !spurious ∧ queue.readIdx = readIdx then
      some ({ queue with readIdx := newReadIdx }, .idle,
        .popped c op values (sub64 newReadIdx readIdx))
    else some (queue, .loadReadIdx op, .access)
  | .aborted => none

/-! ### The system -/

/-- One queue, its producer and its consumers. -/
structure Sys (ι α : Type) where
  queue : SPMCQueue α
  producer : Producer α
  consumers : ι → Consumer α

/-- A new queue; nobody has called anything. -/
def Sys.init (queue : SPMCQueue α) : Sys ι α := ⟨queue, .idle, fun _ => .idle⟩

/-- An action: a thread calls a function, or makes its next access. -/
inductive Action (ι α : Type)
  | callPush (value : α)
  | producer
  | callPop (c : ι) (op : Pop)
  | consumer (c : ι) (spurious : Bool)

/-- One step of the system; `none` when the action is not possible. -/
def sysStep [DecidableEq ι] (s : Sys ι α) : Action ι α → Option (Sys ι α × Event ι α)
  | .callPush value =>
    match s.producer with
    | .idle => some ({ s with producer := .loadWriteIdx value }, .call)
    | _ => none
  | .producer =>
    (tryPush s.queue s.producer).map fun (queue, producer, e) => ({ s with queue, producer }, e)
  | .callPop c op =>
    match s.consumers c with
    | .idle => some ({ s with consumers := Function.update s.consumers c (.loadReadIdx op) }, .call)
    | _ => none
  | .consumer c spurious =>
    (popStep c spurious s.queue (s.consumers c)).map fun (queue, consumer, e) =>
      ({ s with queue, consumers := Function.update s.consumers c consumer }, e)

end Spmc

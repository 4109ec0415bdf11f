/-
The asynchronous logger under every interleaving of its producers, its writer and those
who flush: the stack of pending events, the pool of events, and what is written.
-/
import TwistSim.Basic
import TwistSim.Trails
import TwistSim.Runs
import Mathlib.Algebra.Group.Nat.Defs

namespace TwistSim

namespace Logger

structure LogEvent where
  threadId : Nat
  location : SourceLocation
  scope : String
  message : String
  deriving DecidableEq, Repr

namespace LogEvent

/-- As in `new LogEvent{}`. -/
def blank : LogEvent := ⟨0, ⟨"", "", 0⟩, "", ""⟩

/-- `LogWriter::Format`. -/
def format (e : LogEvent) : String :=
  "T" ++ toString e.threadId ++ " -- " ++ e.scope ++ " -- " ++ e.message

/-- Events with an empty message are not written. -/
def written (e : LogEvent) : Bool := !e.message.isEmpty

end LogEvent

/-- Where a thread is that appends or flushes.  What is appended is what the filled
event will be; an event in memory is named by its number. -/
inductive Pc where
  | idle
  /-- In `EventPool::TryAcquire`, at the load of `pool_head_`. -/
  | acquiring (e : LogEvent)
  /-- At the load of `pool_head->next_`. -/
  | peeking (e : LogEvent) (head : Nat)
  /-- At `compare_exchange_weak`. -/
  | popping (e : LogEvent) (head : Nat) (next : Option Nat)
  /-- At `new LogEvent{}`. -/
  | allocating (e : LogEvent)
  | filling (e : LogEvent) (n : Nat)
  /-- In `EventQueue::Enqueue`, at the load of `top_`. -/
  | enqueueing (e : LogEvent) (n : Nat)
  /-- At the store to `event->next_`. -/
  | linking (e : LogEvent) (n : Nat) (top : Option Nat)
  /-- At `compare_exchange_weak`. -/
  | pushing (e : LogEvent) (n : Nat) (top : Option Nat)
  /-- In `AwaitFlush`, at the first load of `write_count_`; so many events were enqueued
  before the call. -/
  | flushing (before : Nat)
  /-- In the loop, with the number loaded; so many passes were over at that load. -/
  | awaiting (before count passes : Nat)
  deriving DecidableEq, Repr

/-- The event that the thread owns. -/
def Pc.event : Pc → Option Nat
  | filling _ n | enqueueing _ n | linking _ n _ | pushing _ n _ => some n
  | _ => none

/-- Where the writer thread is. -/
inductive Writer where
  /-- At `top_.exchange`. -/
  | dequeuing
  /-- In `RotateList`, at the load of `prev->next_`. -/
  | rotating (head : Nat)
  /-- At the load of `current->next_`. -/
  | stepping (head prev current : Nat)
  /-- At the store to `current->next_`. -/
  | turning (head prev current : Nat) (next : Option Nat)
  /-- At the store to `head->next_`. -/
  | closing (head prev : Nat)
  /-- In `DoWrite`, before `event` is written. -/
  | writing (events event : Nat)
  /-- At the load of `event->next_`. -/
  | advancing (events event : Nat)
  /-- In `FindTail`, at the load of `tail->next_`. -/
  | seeking (head tail : Nat)
  /-- In `EventPool::Release`, at the load of `pool_head_`. -/
  | loading (head tail : Nat)
  /-- At the store to `tail->next_`. -/
  | linking (head tail : Nat) (poolHead : Option Nat)
  /-- At `compare_exchange_weak`. -/
  | releasing (head tail : Nat) (poolHead : Option Nat)
  /-- At the increment of `write_count_`. -/
  | counting
  deriving DecidableEq, Repr

namespace Writer

/-- With what `DequeueAll` has exchanged. -/
def dequeued : Option Nat → Writer
  | none => counting
  | some head => rotating head

/-- The loop of `RotateList`. -/
def rotate (head prev : Nat) : Option Nat → Writer
  | none => closing head prev
  | some current => stepping head prev current

/-- The loop of `DoWrite`, and `Release`. -/
def doWrite (events : Nat) : Option Nat → Writer
  | none => seeking events events
  | some event => writing events event

/-- The loop of `FindTail`. -/
def findTail (head tail : Nat) : Option Nat → Writer
  | none => loading head tail
  | some next => seeking head next

end Writer

structure State where
  pc : Nat → Pc
  writer : Writer
  /-- `next_` of each event. -/
  next : Nat → Option Nat
  /-- The other fields of each event. -/
  event : Nat → LogEvent
  /-- So many events have been allocated. -/
  nodes : Nat
  top : Option Nat
  poolHead : Option Nat
  writeCount : Nat
  cout : List String
  /-- The events that were enqueued, as they were appended. -/
  enqueued : List LogEvent
  /-- So many of them have been dequeued, and so many before the last pass was over. -/
  dequeued : Nat
  settled : Nat
  /-- The passes of the writer that are over. -/
  passes : Nat
  /-- What `LogWriter::Write` has been called with. -/
  written : List LogEvent
  /-- For each flush that has returned, how many events were enqueued before it. -/
  flushed : List Nat

/-- Threads call `Append` and `SynchronousFlush` and go on in them, and the writer goes
on.  A `compare_exchange_weak` may fail for no reason. -/
inductive Event where
  | append (t : Nat) (scope : String) (location : SourceLocation) (message : String)
  | flush (t : Nat)
  | resume (t : Nat) (spurious : Bool)
  | write (spurious : Bool)
  deriving DecidableEq, Repr

namespace State

def start : State where
  pc _ := .idle
  writer := .dequeuing
  next _ := none
  event _ := .blank
  nodes := 0
  top := none
  poolHead := none
  writeCount := 0
  cout := []
  enqueued := []
  dequeued := 0
  settled := 0
  passes := 0
  written := []
  flushed := []

def goto (s : State) (t : Nat) (pc : Pc) : State :=
  { s with pc := Function.update s.pc t pc }

/-- `n->next_ = p`. -/
def link (s : State) (n : Nat) (p : Option Nat) : State :=
  { s with next := Function.update s.next n p }

def resume (s : State) (t : Nat) (spurious : Bool) : Option State :=
  match s.pc t with
  | .idle => none
  | .acquiring e =>
      match s.poolHead with
      | none => some (s.goto t (.allocating e))
      | some head => some (s.goto t (.peeking e head))
  | .peeking e head => some (s.goto t (.popping e head (s.next head)))
  | .popping e head next =>
      if s.poolHead = some head ∧ spurious = false then
        some { s.goto t (.filling e head) with poolHead := next }
      else some (s.goto t (.acquiring e))
  | .allocating e =>
      some { s.goto t (.filling e s.nodes) with
        next := Function.update s.next s.nodes none
        event := Function.update s.event s.nodes .blank
        nodes := s.nodes + 1 }
  | .filling e n =>
      -- fill log event
      some { s.goto t (.enqueueing e n) with event := Function.update s.event n e }
  | .enqueueing e n => some (s.goto t (.linking e n s.top))
  | .linking e n top => some ((s.goto t (.pushing e n top)).link n top)
  | .pushing e n top =>
      if s.top = top ∧ spurious = false then
        some { s.goto t .idle with top := some n, enqueued := s.enqueued ++ [e] }
      else some (s.goto t (.enqueueing e n))
  | .flushing before => some (s.goto t (.awaiting before s.writeCount s.passes))
  | .awaiting before count _ =>
      if s.writeCount < (count + 2) % 2 ^ 64 then some s
      else some { s.goto t .idle with flushed := s.flushed ++ [before] }

def write (s : State) (spurious : Bool) : State :=
  match s.writer with
  | .dequeuing =>
      { s with
        top := none
        dequeued := s.enqueued.length
        writer := .dequeued s.top }
  | .rotating head => { s with writer := .rotate head head (s.next head) }
  | .stepping head prev current =>
      { s with writer := .turning head prev current (s.next current) }
  | .turning head prev current next =>
      { s.link current (some prev) with writer := .rotate head current next }
  | .closing head prev => { s.link head none with writer := .writing prev prev }
  | .writing events event =>
      if (s.event event).written then
        { s with
          writer := .advancing events event
          cout := s.cout ++ [(s.event event).format]
          written := s.written ++ [s.event event] }
      else { s with writer := .advancing events event }
  | .advancing events event => { s with writer := .doWrite events (s.next event) }
  | .seeking head tail => { s with writer := .findTail head tail (s.next tail) }
  | .loading head tail => { s with writer := .linking head tail s.poolHead }
  | .linking head tail poolHead =>
      { s.link tail poolHead with writer := .releasing head tail poolHead }
  | .releasing head tail poolHead =>
      if s.poolHead = poolHead ∧ spurious = false then
        { s with poolHead := some head, writer := .counting }
      else { s with writer := .loading head tail }
  | .counting =>
      { s with
        writeCount := (s.writeCount + 1) % 2 ^ 64
        settled := s.dequeued
        passes := s.passes + 1
        writer := .dequeuing }

def step (s : State) : Event → Option State
  | .append t scope location message =>
      if s.pc t = .idle then some (s.goto t (.acquiring ⟨t, location, scope, message⟩))
      else none
  | .flush t =>
      if s.pc t = .idle then some (s.goto t (.flushing s.enqueued.length)) else none
  | .resume t spurious => s.resume t spurious
  | .write spurious => some (s.write spurious)

end State

/-- When `TryAcquire` exchanges `pool_head_`, the next event is still the one that it has
read; and no flush starts when `write_count_` is about to overflow. -/
def State.Undisturbed (s : State) (spurious : Bool) : Pc → Prop
  | .popping _ head next =>
      spurious = false → s.poolHead = some head → s.next head = next
  | .flushing _ => s.writeCount + 2 < 2 ^ 64
  | _ => True

instance (s : State) (spurious : Bool) (pc : Pc) : Decidable (s.Undisturbed spurious pc) :=
  match pc with
  | .popping _ head next =>
      inferInstanceAs
        (Decidable (spurious = false → s.poolHead = some head → s.next head = next))
  | .flushing _ => inferInstanceAs (Decidable (s.writeCount + 2 < 2 ^ 64))
  | .idle | .acquiring _ | .peeking .. | .allocating _ | .filling .. | .enqueueing ..
  | .linking .. | .pushing .. | .awaiting .. => isTrue trivial

def Calm (s : State) : Event → Prop
  | .resume t spurious => s.Undisturbed spurious (s.pc t)
  | _ => True

instance (s : State) (e : Event) : Decidable (Calm s e) :=
  match e with
  | .resume t spurious => inferInstanceAs (Decidable (s.Undisturbed spurious (s.pc t)))
  | .append .. | .flush _ | .write _ => isTrue trivial

abbrev Reached : State → Prop := Reach State.step Calm State.start

end Logger

end TwistSim

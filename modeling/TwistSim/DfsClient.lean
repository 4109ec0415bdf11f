/-
A set of terminating threads scheduled depth-first, and the thread orders that
preemption-bounded scheduling allows.  The abstract side knows neither the
sorted run queue nor the schedule vector.
-/
import TwistSim.DfsExploration
import Mathlib.Data.Multiset.UnionInter

namespace TwistSim

namespace Dfs

open Interaction DecisionTree

/-- How a thread gives control back: at a preemption point, or for good. -/
inductive Ending where
  | interrupt | yield | park | exit
  deriving DecidableEq, Repr

/-- What a running thread does before it gives control back: wake or spawn
threads, and ask the scheduler questions other than who runs next. -/
inductive Turn (P : Type) where
  | wake (thread : ThreadId) (next : Turn P)
  | ask (q : Question) (next : Nat → Turn P)
  | give (ending : Ending) (state : P)

variable {P : Type}

/-- With the given answers, the turn wakes `woken` and ends. -/
inductive Turn.Ends : Turn P → List Nat → List ThreadId → Ending → P → Prop
  | give {ending : Ending} {state : P} :
      Ends (.give ending state) [] [] ending state
  | wake {thread : ThreadId} {next : Turn P} {answers : List Nat}
      {woken : List ThreadId} {ending : Ending} {state : P}
      (h : Ends next answers woken ending state) :
      Ends (.wake thread next) answers (thread :: woken) ending state
  | ask {q : Question} {next : Nat → Turn P} {i : Nat} {answers : List Nat}
      {woken : List ThreadId} {ending : Ending} {state : P} (hi : i < q.alts)
      (h : Ends (next i) answers woken ending state) :
      Ends (.ask q next) (i :: answers) woken ending state

/-- Every question of the turn has an answer. -/
def Turn.Answerable : Turn P → Prop
  | .wake _ next => next.Answerable
  | .ask q next => 0 < q.alts ∧ ∀ i < q.alts, (next i).Answerable
  | .give _ _ => True

/-- Threads as a deterministic program.  A thread is ready while it may be
handed to the scheduler; `work` bounds the turns that are left. -/
structure Client (P : Type) where
  attrs : P → ThreadId → ThreadAttrs
  resume : P → ThreadId → Turn P
  ready : P → ThreadId → Prop
  work : P → Nat
  answerable : ∀ p t, (resume p t).Answerable
  work_lt : ∀ {p t answers woken ending p'}, ready p t →
    (resume p t).Ends answers woken ending p' → work p' < work p
  woken_nodup : ∀ {p t answers woken ending p'}, ready p t →
    (resume p t).Ends answers woken ending p' → woken.Nodup
  woken_unready : ∀ {p t answers woken ending p'}, ready p t →
    (resume p t).Ends answers woken ending p' → ∀ u ∈ woken, ¬ ready p u
  ready_next : ∀ {p t answers woken ending p'}, ready p t →
    (resume p t).Ends answers woken ending p' → ∀ u,
      (u ∈ woken ∨ (u ≠ t ∧ ready p u) ∨
        (u = t ∧ (ending = .interrupt ∨ ending = .yield))) → ready p' u

/-! ### The orders that are allowed -/

/-- The abstract state between turns: who may run, and who was interrupted. -/
structure Config (P : Type) where
  state : P
  runnable : Multiset ThreadId
  last : Option ThreadId
  preempts : Nat

/-- Thread `t` may run next, with at most `limit` preemptions. -/
inductive Picks (limit : Option Nat) (c : Client P) :
    Config P → ThreadId → Config P → Prop
  | fresh {p : P} {runnable : Multiset ThreadId} {preempts : Nat}
      {t : ThreadId} (ht : t ∈ runnable) :
      Picks limit c ⟨p, runnable, none, preempts⟩ t
        ⟨p, runnable.erase t, none, preempts⟩
  | stay {p : P} {runnable : Multiset ThreadId} {preempts : Nat}
      {t : ThreadId} :
      Picks limit c ⟨p, runnable, some t, preempts⟩ t
        ⟨p, runnable, none, preempts⟩
  | preempt {p : P} {runnable : Multiset ThreadId} {preempts : Nat}
      {last t : ThreadId} (ht : t ∈ runnable)
      (hpreemptive : (c.attrs p last).preemptive = true)
      (hlimit : ∀ k, limit = some k → preempts < k) :
      Picks limit c ⟨p, runnable, some last, preempts⟩ t
        ⟨p, last ::ₘ runnable.erase t, none, preempts + 1⟩

/-- The configuration after the turn of `t`. -/
def Config.after (cfg : Config P) (t : ThreadId) (woken : List ThreadId)
    (ending : Ending) (p : P) : Config P where
  state := p
  runnable := (if ending = .yield then {t} else 0) + (↑woken + cfg.runnable)
  last := if ending = .interrupt then some t else none
  preempts := cfg.preempts

/-- A complete execution: the order of the threads, the answers to the
questions they asked, turn by turn, and the number of preemptions. -/
inductive Executes (limit : Option Nat) (c : Client P) :
    Config P → List ThreadId → List (List Nat) → Nat → Prop
  | done {p : P} {preempts : Nat} :
      Executes limit c ⟨p, 0, none, preempts⟩ [] [] preempts
  | turn {cfg cfg' : Config P} {t : ThreadId} {answers : List Nat}
      {woken : List ThreadId} {ending : Ending} {p : P}
      {order : List ThreadId} {rest : List (List Nat)} {preempts : Nat}
      (hpick : Picks limit c cfg t cfg')
      (hends : (c.resume cfg'.state t).Ends answers woken ending p)
      (h : Executes limit c (cfg'.after t woken ending p) order rest preempts) :
      Executes limit c cfg (t :: order) (answers :: rest) preempts

/-! ### The same threads under the depth-first scheduler -/

/-- The record of one run. -/
structure Log where
  order : List ThreadId
  answers : List (List Nat)
  preempts : Nat
  deriving DecidableEq, Repr

section Scheduled

variable (params : Params)

/-- `Interrupt`, `Yield`, nothing, or `Exit`. -/
def handBack (t : ThreadId) : Ending → State → State
  | .interrupt, s => { s with active := some t }
  | .yield, s => s.push t
  | .park, s => s
  | .exit, s => (addStep params (some t) s).2

/-- Run a turn; the answers to its questions are part of the result. -/
def runTurn (t : ThreadId) : Turn P → State → Choosing (List Nat × P × State)
  | .wake u next, s => runTurn t next (s.push u)
  | .ask q next, s => .ask q fun i =>
      (runTurn t (next i) s).bind fun result => .ret (i :: result.1, result.2)
  | .give ending p, s => .ret ([], p, handBack params t ending s)

def Client.view (c : Client P) (p : P) : KernelView where
  currTick := 0
  attrs := c.attrs p
  action _ := none
  alive _ := true

/-- The scheduling loop: pick a thread, run its turn, until the scheduler is
idle. -/
def Client.loop (c : Client P) :
    Nat → P → State → Choosing (Except Panic (Except String Log))
  | 0, _, _ => .ret (.error (.undefined "out of work"))
  | n + 1, p, s =>
      if s.runQueue.isEmpty && s.active.isNone then
        .ret (.ok (.ok ⟨[], [], s.preempts⟩))
      else
        (pickNext params (c.view p) s).bind fun picked =>
          match picked with
          | .error e => .ret (.error e)
          | .ok (.error why, _) => .ret (.ok (.error why))
          | .ok (.ok t, s) =>
              (runTurn params t (c.resume p t) s).bind fun (answers, p, s) =>
                (c.loop n p s).bind fun log =>
                  .ret (log.map fun log => log.map fun log =>
                    ⟨t :: log.order, answers :: log.answers, log.preempts⟩)

end Scheduled

example (params : Params) (view : KernelView) (t : ThreadId) (s : State) :
    method params (view, .wake t) s = done () (s.push t) := rfl

end Dfs

end TwistSim

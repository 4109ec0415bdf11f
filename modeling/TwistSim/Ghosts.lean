/-
A thread that the scheduler does not have, counted among its threads.  While the simulator
serves calls, the scheduler keeps its contract with this thread too, so what is proved of
places holds beside it, and it is never handed in.
-/
import TwistSim.Questions
import TwistSim.Placement

namespace TwistSim

open Effect
open Interaction (Along Implements Spec wp_sound)

namespace Holdings

variable {a a' : Holdings} {t u : ThreadId} {q : QueueId} {w : Multiset ThreadId}

/-- One more thread is suspended. -/
def haunted (a : Holdings) (u : ThreadId) : Holdings :=
  { a with suspended := u ::ₘ a.suspended }

theorem owned_haunted (a : Holdings) (u : ThreadId) : (a.haunted u).owned = u ::ₘ a.owned :=
  Multiset.add_cons u a.held a.suspended

theorem Lacks.of_haunted (h : (a.haunted u).Lacks t) : a.Lacks t := by
  refine ⟨fun hmem => h.1 ?_, h.2⟩
  rw [owned_haunted]
  exact Multiset.mem_cons_of_mem hmem

theorem Unknown.of_haunted (h : (a.haunted u).Unknown t) : a.Unknown t :=
  ⟨h.1.of_haunted, h.2⟩

theorem Sound.of_haunted (h : (a.haunted u).Sound) : a.Sound := by
  have hle : a.owned ≤ (a.haunted u).owned := by
    rw [owned_haunted]
    exact Multiset.le_cons_self _ u
  exact ⟨Multiset.nodup_of_le hle h.owned, fun t ht => h.valid t (Multiset.mem_of_le hle ht),
    h.waiters, h.validWaiters⟩

theorem pre_of_haunted {call : Call} (h : (a.haunted u).pre call)
    (hserving : call.2.Serving) : a.pre call := by
  obtain ⟨view, q⟩ := call
  cases q with
  | start => exact absurd hserving id
  | isSuspended t => exact absurd hserving id
  | interrupt t => exact ⟨h.1.of_haunted, h.2⟩
  | switchTo t next => exact Lacks.of_haunted h
  | yield t => exact Lacks.of_haunted h
  | wake t => exact Lacks.of_haunted h
  | spawn t => exact Lacks.of_haunted h
  | pickNext => exact absurd hserving id
  | queuePush q t => exact ⟨h.1.of_haunted, h.2⟩
  | _ => exact h

theorem proper_of_haunted {call : Call} (h : (a.haunted u).Proper call)
    (hqueue : call.2.onQueue = true) : a.Proper call := by
  obtain ⟨view, q⟩ := call
  cases q with
  | queuePush q t => exact ⟨h.1.of_haunted, h.2⟩
  | newWaitQueue => exact h
  | queueIsEmpty q => exact h
  | queuePop q => exact h
  | queuePopAll q => exact h
  | queueRemove q t => exact h
  | _ => cases hqueue

theorem Takes.haunted (h : a.Takes a' t) (u : ThreadId) :
    (a.haunted u).Takes (a'.haunted u) t := by
  refine ⟨?_, h.same⟩
  rw [owned_haunted, owned_haunted, h.owned]
  exact Multiset.cons_swap u t a.owned

theorem Keeps.haunted (h : a.Keeps a') (u : ThreadId) : (a.haunted u).Keeps (a'.haunted u) := by
  refine ⟨?_, h.same, h.slot⟩
  rw [owned_haunted, owned_haunted, h.owned]

theorem QueueUpdate.haunted (h : a.QueueUpdate a' q w) (u : ThreadId) :
    (a.haunted u).QueueUpdate (a'.haunted u) q w :=
  ⟨h.waiters, h.held, congrArg (u ::ₘ ·) h.suspended, h.queues, h.slot⟩

theorem Pops.haunted {r : Option ThreadId} (h : a.Pops q r a') (u : ThreadId) :
    (a.haunted u).Pops q r (a'.haunted u) := by
  cases r with
  | none => exact congrArg (fun a : Holdings => a.haunted u) h
  | some t =>
      obtain ⟨rest, hwaiters, hupdate⟩ := h
      exact ⟨rest, hwaiters, hupdate.haunted u⟩

theorem post_haunted {call : Call} {r : call.Reply} (h : a.post call r a')
    (hserving : call.2.Serving) (u : ThreadId) : (a.haunted u).post call r (a'.haunted u) := by
  have hsame : a' = a → a'.haunted u = a.haunted u := fun heq => heq ▸ rfl
  obtain ⟨view, q⟩ := call
  cases q with
  | start => exact absurd hserving id
  | isSuspended t => exact absurd hserving id
  | remove t => exact absurd hserving id
  | interrupt t => exact Takes.haunted h u
  | switchTo t next => exact ⟨h.1.haunted u, h.2⟩
  | yield t => exact ⟨h.1.haunted u, h.2⟩
  | wake t => exact ⟨h.1.haunted u, h.2⟩
  | spawn t => exact ⟨h.1.haunted u, h.2⟩
  | pickNext => exact absurd hserving id
  | isIdle => exact ⟨h.1, hsame h.2⟩
  | newWaitQueue =>
      obtain ⟨hq, hempty, rfl⟩ := h
      exact ⟨hq, hempty, rfl⟩
  | queueIsEmpty q => exact ⟨h.1, hsame h.2⟩
  | queuePush q t => exact QueueUpdate.haunted h u
  | queuePop q => exact Pops.haunted h u
  | queuePopAll q => exact Pops.haunted h u
  | queueRemove q t => exact ⟨h.1, h.2.haunted u⟩
  | exit t => exact Keeps.haunted h u
  | lockFree t flag => exact Keeps.haunted h u
  | progress t => exact Keeps.haunted h u
  | newIter => exact hsame h
  | randomNumber => exact hsame h
  | randomChoice alts => exact hsame h
  | spuriousWakeup => exact hsame h
  | spuriousTryFailure => exact hsame h
  | isModelChecker => exact hsame h

theorem pruned_of_serving {call : Call} {r : call.Reply} (hserving : call.2.Serving) :
    a.Pruned call r a' := by
  obtain ⟨view, q⟩ := call
  cases q with
  | pickNext => exact absurd hserving id
  | _ => trivial

theorem exact_haunted {call : Call} {r : call.Reply} (h : a.Exact call r) (u : ThreadId) :
    (a.haunted u).Exact call r := by
  obtain ⟨view, q⟩ := call
  cases q with
  | queuePop q => exact h
  | queuePopAll q => exact h
  | randomChoice alts => exact h
  | _ => trivial

end Holdings

/-- The contract, as far as calls go. -/
def servingSpec (links : Links) : Spec Call Call.Reply Holdings :=
  { keeperSpec links with assume := fun _ call => call.2.Serving }

theorem serving_refines (links : Links) : (servingSpec links).Refines (keeperSpec links) := by
  refine fun a call hserving => ⟨fun _ => ?_, fun hpre => ⟨hpre, fun r a' hpost => hpost⟩⟩
  obtain ⟨view, q⟩ := call
  cases q with
  | remove t => exact absurd hserving id
  | _ => trivial

variable {σ : Type} {S : IScheduler σ} {WF : σ → Prop} {holdings : σ → Holdings}
  {links : Links}

/-- A scheduler that keeps its contract keeps it beside a ghost. -/
theorem keeps_haunted (hS : Keeps S WF holdings links) (hapart : links ≠ .shared)
    (u : ThreadId) :
    Implements S.answer WF (fun s => (holdings s).haunted u) (servingSpec links) := by
  intro call s hWF hserving hpre
  have hmisses : ∀ a : Holdings, ¬ a.Misses links call := by
    obtain ⟨view, q⟩ := call
    cases q with
    | queueRemove q t => exact fun a h => hapart h.1
    | _ => exact fun _ => id
  have hsnatches : ∀ a : Holdings, ¬ a.Snatches links call := fun a h => hapart h.1
  obtain ⟨hsound, hdue⟩ := hpre
  obtain ⟨hpre, hproper⟩ := hdue (hmisses _)
  have hassume := (serving_refines links (holdings s) call hserving).1
  have hstep := hS call s hWF hassume ⟨hsound.of_haunted, fun _ =>
    ⟨Holdings.pre_of_haunted hpre hserving, fun hqueue =>
      Holdings.proper_of_haunted (hproper hqueue) hqueue⟩⟩
  cases hanswer : S.answer call s with
  | error p => trivial
  | ok result =>
      rw [hanswer] at hstep
      obtain ⟨hWF', hgrants, -⟩ := hstep
      obtain ⟨hpost, hexact, -⟩ := hgrants (hsnatches _) (hmisses _)
      refine ⟨hWF', fun _ _ => ⟨Holdings.post_haunted hpost hserving u, fun hqueue =>
        Holdings.exact_haunted (hexact hqueue) u, Holdings.pruned_of_serving hserving⟩, ?_, ?_⟩
      · exact fun h => absurd h (hsnatches _)
      · exact fun h => absurd h (hmisses _)

namespace Kernel

variable {α : Type} {m : KernelM α} {stuck : Prop} {sim sim' : Sim} {s s' : σ} {x : α}
  {post : α → Sim → Holdings → Prop} {u : ThreadId}

/-- What a call ensures it ensures beside a ghost. -/
theorem Ensures.haunted (hS : Keeps S WF holdings links) (hapart : links ≠ .shared)
    (hWF : WF s) (hasks : Asks Query.Serving m)
    (h : Ensures links stuck m post sim ((holdings s).haunted u))
    (hrun : (m sim).interp S.answer s = .ok ((.ok x, sim'), s')) :
    post x sim' ((holdings s').haunted u) := by
  have hassume : (m sim).Along S.answer
      (fun s call => (servingSpec links).assume ((holdings s).haunted u) call) s :=
    (hasks sim).along
  have hsound := wp_sound (keeps_haunted hS hapart u) hWF hassume
    (wp_refines (serving_refines links) h)
  rw [hrun] at hsound
  exact hsound.2

end Kernel

namespace Sim

variable {sim : Sim} {a : Holdings} {u : ThreadId} {running : Option ThreadId}

/-- A thread that is gone can be a ghost. -/
theorem Placed.haunted (h : sim.Placed running none a) (hgone : u ∉ sim.alive)
    (hnot : u ∉ a.owned) (hpos : 0 < u) (hborn : u ≤ sim.memory.threadCount) :
    sim.Placed running none (a.haunted u) := by
  have hloose : Ledger.Loose (sim.waiters a) a.owned u :=
    ⟨⟨hpos, hborn.trans h.count⟩, hnot, (h.gone u hgone).1⟩
  have htakes : a.Takes (a.haunted u) u := ⟨a.owned_haunted u, rfl, rfl⟩
  have hmem : ∀ t, t ≠ u → (t ∈ (a.haunted u).owned ↔ t ∈ a.owned) := fun t ht => by
    rw [Holdings.owned_haunted, Multiset.mem_cons, or_iff_right ht]
  have hsame : ∀ t, t ≠ u → sim.Untouched a sim (a.haunted u) t := fun t ht =>
    ⟨Iff.rfl, rfl, hmem t ht, fun _ => Iff.rfl, Iff.rfl, rfl⟩
  have hother : ∀ t ∈ sim.alive, t ≠ u := fun t ht heq => hgone (heq ▸ ht)
  refine ⟨⟨h.filed.takes htakes hloose, h.indexed, h.nodup, h.known, h.count, fun t ht => ?_,
    h.futex, h.timer, h.gone⟩, fun t ht hrun hhand => ?_, fun t hrun => ?_⟩
  · rw [Holdings.owned_haunted, Multiset.mem_cons] at ht
    rcases ht with rfl | ht
    · exact hborn
    · exact h.born t ht
  · exact (hsame t (hother t ht)).place (h.place t ht hrun hhand)
  · have hruns := h.runs t hrun
    have howned := (hmem t (hother t hruns.alive)).not.mpr hruns.owned
    exact ⟨hruns.alive, howned, hruns.state, hruns.futex, hruns.timer, hruns.slot⟩

/-- Nobody else has the ghost. -/
theorem Placed.not_owned_of_haunted (h : sim.Placed running none (a.haunted u)) :
    u ∉ a.owned := by
  have hnodup := h.filed.sound.owned
  rw [Holdings.owned_haunted] at hnodup
  exact (Multiset.nodup_cons.mp hnodup).1

end Sim

end TwistSim

/-
`std::timed_mutex` as the standard specifies it: calls, the steps inside them, the
clocks, and the history of what its callers see.
-/
import TwistSim.Runs

namespace TwistSim

namespace StdTimedMutex

/-- The methods that try to acquire, with their timeouts and deadlines. -/
inductive Attempt where
  | lock
  | tryLock
  | tryLockFor (timeout : Int)
  | tryLockUntil (deadline : Int)
  deriving DecidableEq, Repr

inductive Call where
  | attempt (a : Attempt)
  | unlock
  deriving DecidableEq, Repr

/-- How a call returns: `lock` returns when it has acquired, the others say so. -/
inductive Reply where
  | acquired
  | refused
  | released
  deriving DecidableEq, Repr

/-- When an attempt may give up. -/
inductive Deadline where
  | never
  | atOnce
  /-- By the clock that is never set back. -/
  | steady (time : Int)
  /-- By the clock of the system. -/
  | system (time : Int)
  deriving DecidableEq, Repr

/-- What the callers see, and how the clocks go. -/
inductive Label where
  | call (t : Nat) (c : Call)
  | reply (t : Nat) (r : Reply)
  | clocks (steady system : Int)
  deriving DecidableEq, Repr

/-! ### Histories, the latest first -/

/-- The call of the thread that has not returned. -/
def pending : List Label → Nat → Option Call
  | [], _ => none
  | .call u c :: h, t => if u = t then some c else pending h t
  | .reply u _ :: h, t => if u = t then none else pending h t
  | .clocks .. :: h, t => pending h t

/-- Does the thread own the mutex, as far as its callers know? -/
def holds : List Label → Nat → Bool
  | [], _ => false
  | .call u .unlock :: h, t => if u = t then false else holds h t
  | .reply u .acquired :: h, t => if u = t then true else holds h t
  | _ :: h, t => holds h t

section Histories

variable {h : List Label} {t : Nat}

theorem acquired_of_holds (hholds : holds h t = true) : .reply t .acquired ∈ h := by
  induction h with
  | nil => cases hholds
  | cons l h ih =>
      have hrest : holds h t = true → .reply t .acquired ∈ l :: h := fun hrest =>
        List.mem_cons_of_mem l (ih hrest)
      cases l with
      | call u c =>
          cases c with
          | attempt a => exact hrest hholds
          | unlock =>
              rw [holds] at hholds
              split at hholds
              · cases hholds
              · exact hrest hholds
      | reply u r =>
          cases r with
          | acquired =>
              rw [holds] at hholds
              split at hholds
              · rename_i hu
                rw [hu]
                exact List.mem_cons_self
              · exact hrest hholds
          | refused => exact hrest hholds
          | released => exact hrest hholds
      | clocks steady system => exact hrest hholds

/-- Who has acquired holds, as long as nobody unlocks. -/
theorem holds_of_acquired (hacquired : .reply t .acquired ∈ h)
    (hnever : ∀ u, .call u .unlock ∉ h) : holds h t = true := by
  induction h with
  | nil => cases hacquired
  | cons l h ih =>
      have hnever' : ∀ u, .call u .unlock ∉ h := fun u hu =>
        hnever u (List.mem_cons_of_mem l hu)
      cases hacquired with
      | head => exact if_pos rfl
      | tail _ hacquired =>
          have hrest := ih hacquired hnever'
          cases l with
          | call u c =>
              cases c with
              | attempt a => exact hrest
              | unlock => exact absurd List.mem_cons_self (hnever u)
          | reply u r =>
              cases r with
              | acquired =>
                  rw [holds, hrest, ite_self]
              | refused => exact hrest
              | released => exact hrest
          | clocks steady system => exact hrest

end Histories

/-- What the standard demands of the callers: a thread is in one call at a time, only a
thread that does not own the mutex tries to acquire it, and only its owner unlocks. -/
def MayCall (h : List Label) (t : Nat) : Call → Prop
  | .attempt _ => pending h t = none ∧ holds h t = false
  | .unlock => pending h t = none ∧ holds h t = true

instance (h : List Label) (t : Nat) (c : Call) : Decidable (MayCall h t c) := by
  cases c <;> unfold MayCall <;> infer_instance

/-! ### The mutex -/

/-- Where a thread is in a call. -/
inductive Phase where
  | idle
  /-- The call has begun and not yet got to the mutex. -/
  | called (c : Call)
  | waiting (deadline : Deadline)
  | returning (r : Reply)
  /-- The call was not allowed: its behaviour is undefined. -/
  | undefined
  deriving DecidableEq, Repr

structure State where
  owner : Option Nat
  phase : Nat → Phase
  steady : Int
  system : Int
  history : List Label

inductive Event where
  | call (t : Nat) (c : Call)
  /-- The thread gets to the mutex: an attempt begins to wait, `unlock` releases. -/
  | arrive (t : Nat)
  | take (t : Nat)
  | giveUp (t : Nat)
  | reply (t : Nat)
  | clocks (steady system : Int)
  deriving DecidableEq, Repr

def Attempt.deadline (steady : Int) : Attempt → Deadline
  | .lock => .never
  | .tryLock => .atOnce
  | .tryLockFor timeout => .steady (steady + timeout)
  | .tryLockUntil deadline => .system deadline

namespace State

def start : State where
  owner := none
  phase _ := .idle
  steady := 0
  system := 0
  history := []

def goto (s : State) (t : Nat) (phase : Phase) : State :=
  { s with phase := Function.update s.phase t phase }

def note (s : State) (l : Label) : State := { s with history := l :: s.history }

/-- The precondition of a call. -/
def permits (s : State) (t : Nat) : Call → Bool
  | .attempt _ => s.owner != some t
  | .unlock => s.owner == some t

def expired (s : State) : Deadline → Bool
  | .never => false
  | .atOnce => true
  | .steady time => decide (time ≤ s.steady)
  | .system time => decide (time ≤ s.system)

def next (s : State) : Event → Option State
  | .call t c =>
      if s.phase t = .idle then
        some ((s.goto t (if s.permits t c then .called c else .undefined)).note (.call t c))
      else none
  | .arrive t =>
      match s.phase t with
      | .called (.attempt a) => some (s.goto t (.waiting (a.deadline s.steady)))
      | .called .unlock => some { s.goto t (.returning .released) with owner := none }
      | _ => none
  | .take t =>
      match s.phase t with
      | .waiting _ =>
          if s.owner = none then
            some { s.goto t (.returning .acquired) with owner := some t }
          else none
      | _ => none
  | .giveUp t =>
      -- `try_lock` may fail although nobody owns the mutex.
      match s.phase t with
      | .waiting deadline =>
          if s.expired deadline then some (s.goto t (.returning .refused)) else none
      | _ => none
  | .reply t =>
      match s.phase t with
      | .returning r => some ((s.goto t .idle).note (.reply t r))
      | _ => none
  | .clocks steady system =>
      if s.steady ≤ steady then
        some { s with
          steady
          system
          history := .clocks steady system :: s.history }
      else none

/-- The thread waits, and nothing it can do ends the wait. -/
def Blocked (s : State) (t : Nat) : Prop :=
  ∃ deadline, s.phase t = .waiting deadline ∧ s.owner ≠ none ∧
    s.expired deadline = false

end State

/-- The states that some run of some threads can reach. -/
abbrev Reached : State → Prop := Reach State.next (fun _ _ => True) State.start

/-- The history of calls, and who is blocked after it, are ones of a
`std::timed_mutex`. -/
def Allows (h : List Label) (blocked : Nat → Prop) : Prop :=
  ∃ s, Reached s ∧ s.history = h ∧ ∀ t, s.Blocked t ↔ blocked t

/-! ### Whom a thread waits for -/

/-- Where the owner may be: in the code of its caller, on its way out of the attempt, or
on its way into `unlock`. -/
def Owning (h : List Label) (t : Nat) : Phase → Prop
  | .idle => holds h t = true
  | .returning .acquired | .called .unlock | .undefined => True
  | _ => False

structure Tracked (s : State) : Prop where
  idle : ∀ t, pending s.history t = none → s.phase t = .idle
  owner : ∀ t, s.owner = some t → Owning s.history t (s.phase t)

variable {s s' : State} {e : Event}

/-- What is to be shown when thread `t` moves. -/
theorem Tracked.move {t : Nat} {phase : Phase} (h : Tracked s)
    (hphase : s'.phase = Function.update s.phase t phase)
    (hothers : ∀ u, u ≠ t → pending s'.history u = pending s.history u ∧
      holds s'.history u = holds s.history u)
    (hidle : pending s'.history t = none → phase = .idle)
    (howner : ∀ u, u ≠ t → s'.owner = some u → s.owner = some u)
    (howning : s'.owner = some t → Owning s'.history t phase) : Tracked s' where
  idle u hu := by
    by_cases hut : u = t
    · subst hut
      rw [hphase, Function.update_self]
      exact hidle hu
    · rw [hphase, Function.update_of_ne hut]
      exact h.idle u ((hothers u hut).1 ▸ hu)
  owner u hu := by
    by_cases hut : u = t
    · subst hut
      rw [hphase, Function.update_self]
      exact howning hu
    · have hold := h.owner u (howner u hut hu)
      rw [hphase, Function.update_of_ne hut]
      unfold Owning at hold ⊢
      rw [(hothers u hut).2]
      exact hold

/-- A thread in a call has not returned. -/
theorem Tracked.busy {t : Nat} (h : Tracked s) (hphase : s.phase t ≠ .idle) :
    pending s.history t ≠ none :=
  fun hpending => hphase (h.idle t hpending)

theorem Tracked.step (h : Tracked s) (hnext : s.next e = some s') : Tracked s' := by
  cases e with
  | call t c =>
      simp only [State.next] at hnext
      split at hnext
      · cases hnext
        refine h.move (t := t) rfl (fun u hu => ⟨if_neg (Ne.symm hu), ?_⟩)
          (fun hpending => ?_) (fun _ _ hu => hu) fun howner => ?_
        · cases c with
          | attempt a => rfl
          | unlock => exact if_neg (Ne.symm hu)
        · exact absurd ((if_pos rfl).symm.trans hpending) fun h => by cases h
        · change s.owner = some t at howner
          cases c with
          | attempt a => simp [State.permits, howner, Owning]
          | unlock => simp [State.permits, howner, Owning]
      · cases hnext
  | arrive t =>
      simp only [State.next] at hnext
      split at hnext
      · rename_i a hphase
        cases hnext
        have hbusy := h.busy (t := t) (by rw [hphase]; exact fun h => by cases h)
        refine h.move (t := t) rfl (fun _ _ => ⟨rfl, rfl⟩)
          (fun hpending => absurd hpending hbusy) (fun _ _ hu => hu) fun howner => ?_
        have howning := h.owner t howner
        rw [hphase] at howning
        exact howning.elim
      · rename_i hphase
        cases hnext
        have hbusy := h.busy (t := t) (by rw [hphase]; exact fun h => by cases h)
        exact h.move (t := t) rfl (fun _ _ => ⟨rfl, rfl⟩)
          (fun hpending => absurd hpending hbusy) (fun _ _ hu => by cases hu)
          fun howner => by cases howner
      · cases hnext
  | take t =>
      simp only [State.next] at hnext
      split at hnext
      · rename_i deadline hphase
        split at hnext
        · cases hnext
          have hbusy := h.busy (t := t) (by rw [hphase]; exact fun h => by cases h)
          refine h.move (t := t) rfl (fun _ _ => ⟨rfl, rfl⟩)
            (fun hpending => absurd hpending hbusy) (fun u hu howner => ?_)
            fun _ => trivial
          cases howner
          exact absurd rfl hu
        · cases hnext
      · cases hnext
  | giveUp t =>
      simp only [State.next] at hnext
      split at hnext
      · rename_i deadline hphase
        split at hnext
        · cases hnext
          have hbusy := h.busy (t := t) (by rw [hphase]; exact fun h => by cases h)
          refine h.move (t := t) rfl (fun _ _ => ⟨rfl, rfl⟩)
            (fun hpending => absurd hpending hbusy) (fun _ _ hu => hu) fun howner => ?_
          have howning := h.owner t howner
          rw [hphase] at howning
          exact howning.elim
        · cases hnext
      · cases hnext
  | reply t =>
      simp only [State.next] at hnext
      split at hnext
      · rename_i r hphase
        cases hnext
        refine h.move (t := t) rfl (fun u hu => ⟨if_neg (Ne.symm hu), ?_⟩) (fun _ => rfl)
          (fun _ _ hu => hu) fun howner => ?_
        · cases r with
          | acquired => exact if_neg (Ne.symm hu)
          | refused => rfl
          | released => rfl
        · have howning := h.owner t howner
          rw [hphase] at howning
          cases r with
          | acquired => exact if_pos rfl
          | refused => exact howning.elim
          | released => exact howning.elim
      · cases hnext
  | clocks steady system =>
      simp only [State.next] at hnext
      split at hnext
      · cases hnext
        exact ⟨h.idle, h.owner⟩
      · cases hnext

theorem reach_tracked (h : Reached s) : Tracked s :=
  h.invariant ⟨fun _ _ => rfl, fun _ h => by cases h⟩ fun _ _ _ hI _ hnext => hI.step hnext

/-- Whoever is blocked waits for another thread, which is in a call or owns the mutex. -/
theorem blocked_owned {t : Nat} (hreach : Reached s) (h : s.Blocked t) :
    ∃ u, u ≠ t ∧ (pending s.history u ≠ none ∨ holds s.history u = true) := by
  obtain ⟨deadline, hphase, howned, -⟩ := h
  have htracked := reach_tracked hreach
  obtain ⟨u, howner⟩ := Option.ne_none_iff_exists'.mp howned
  have howning := htracked.owner u howner
  refine ⟨u, ?_, ?_⟩
  · rintro rfl
    rw [hphase] at howning
    exact howning
  · by_cases hpending : pending s.history u = none
    · rw [htracked.idle u hpending] at howning
      exact Or.inr howning
    · exact Or.inl hpending

end StdTimedMutex

end TwistSim

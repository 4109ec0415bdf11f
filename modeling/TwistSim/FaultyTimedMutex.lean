/-
`FaultyTimedMutex` against the `std::timed_mutex` it wraps: whatever the faults and the
order of the threads, it is a timed mutex until somebody unlocks it.
-/
import TwistSim.StdTimedMutex

namespace TwistSim

namespace FaultyTimedMutex

open StdTimedMutex (Attempt Reply Deadline Label Phase MayCall)

/-! ### The methods -/

/-- Which method of `impl_` is called between `InjectFaultBefore` and
`InjectFaultAfter`, if any. -/
abbrev Body : Type := Option StdTimedMutex.Call

def lock : Body := some (.attempt .lock)

def tryLock : Body := some (.attempt .tryLock)

def tryLockFor (timeout : Int) : Body := some (.attempt (.tryLockFor timeout))

def tryLockUntil (deadline : Int) : Body := some (.attempt (.tryLockUntil deadline))

/-- The body is empty. -/
def unlock : Body := none

def body : StdTimedMutex.Call → Body
  | .attempt .lock => lock
  | .attempt .tryLock => tryLock
  | .attempt (.tryLockFor timeout) => tryLockFor timeout
  | .attempt (.tryLockUntil deadline) => tryLockUntil deadline
  | .unlock => unlock

/-- Where a thread is in a method.  A fault yields or suspends the thread: it goes on
whenever the scheduler lets it. -/
inductive Pc where
  | outside
  /-- In `InjectFaultBefore`. -/
  | before (c : StdTimedMutex.Call)
  /-- In the method of `impl_`. -/
  | inside
  /-- In `InjectFaultAfter`. -/
  | after (r : Reply)
  deriving DecidableEq, Repr

structure State where
  impl : StdTimedMutex.State
  pc : Nat → Pc
  history : List Label

inductive Event where
  | call (t : Nat) (c : StdTimedMutex.Call)
  | enter (t : Nat)
  | arrive (t : Nat)
  | take (t : Nat)
  | giveUp (t : Nat)
  | leave (t : Nat)
  | reply (t : Nat)
  | clocks (steady system : Int)
  deriving DecidableEq, Repr

namespace State

def start : State where
  impl := .start
  pc _ := .outside
  history := []

def goto (s : State) (t : Nat) (pc : Pc) : State :=
  { s with pc := Function.update s.pc t pc }

/-- A step of a thread that is in a method of `impl_`. -/
def inner (s : State) (t : Nat) (e : StdTimedMutex.Event) : Option State :=
  if s.pc t = .inside then (s.impl.next e).map fun impl => { s with impl } else none

def next (s : State) : Event → Option State
  | .call t c =>
      if s.pc t = .outside ∧ MayCall s.history t c then
        some
          { s.goto t (match body c with
              | some c => .before c
              | none => .after .released) with
            history := .call t c :: s.history }
      else none
  | .enter t =>
      match s.pc t with
      | .before c =>
          (s.impl.next (.call t c)).map fun impl => { s.goto t .inside with impl }
      | _ => none
  | .arrive t => s.inner t (.arrive t)
  | .take t => s.inner t (.take t)
  | .giveUp t => s.inner t (.giveUp t)
  | .leave t =>
      match s.pc t, s.impl.phase t with
      | .inside, .returning r =>
          (s.impl.next (.reply t)).map fun impl => { s.goto t (.after r) with impl }
      | _, _ => none
  | .reply t =>
      match s.pc t with
      | .after r => some { s.goto t .outside with history := .reply t r :: s.history }
      | _ => none
  | .clocks steady system =>
      (s.impl.next (.clocks steady system)).map fun impl =>
        { s with impl, history := .clocks steady system :: s.history }

/-- The thread is blocked in a method of `impl_`. -/
def Blocked (s : State) (t : Nat) : Prop := s.pc t = .inside ∧ s.impl.Blocked t

/-- Somebody has called `unlock`. -/
def Unlocked (s : State) : Prop := ∃ t, .call t .unlock ∈ s.history

end State

/-- The states that some run of some threads can reach. -/
abbrev Reached : State → Prop := Reach State.next (fun _ _ => True) State.start

/-- What is expected of a timed mutex: results and blocked threads are ones that
`std::timed_mutex` allows for the same calls, no call of `impl_` is undefined, and after
the owner's `unlock` some later attempt can succeed. -/
structure IsTimedMutex (s : State) : Prop where
  allowed : StdTimedMutex.Allows s.history s.Blocked
  defined : ∀ t, s.impl.phase t ≠ .undefined
  recovers : s.Unlocked → ∃ s' later t, Reach State.next (fun _ _ => True) s s' ∧
    s'.history = later ++ s.history ∧ .reply t .acquired ∈ later

variable {s s' : State} {t u : Nat}

/-! ### What a step can do -/

inductive Step (s : State) : State → Prop where
  | attempt {t : Nat} {a : Attempt} (hpc : s.pc t = .outside)
      (hcall : MayCall s.history t (.attempt a)) :
      Step s
        { s.goto t (.before (.attempt a)) with
          history := .call t (.attempt a) :: s.history }
  | unlock {t : Nat} (hpc : s.pc t = .outside) (hcall : MayCall s.history t .unlock) :
      Step s
        { s.goto t (.after .released) with history := .call t .unlock :: s.history }
  | enter {t : Nat} {c : StdTimedMutex.Call} {phase : Phase} (hpc : s.pc t = .before c)
      (hphase : phase = if s.impl.permits t c then .called c else .undefined) :
      Step s { s.goto t .inside with impl := (s.impl.goto t phase).note (.call t c) }
  | arrive {t : Nat} {a : Attempt} (hpc : s.pc t = .inside)
      (hphase : s.impl.phase t = .called (.attempt a)) :
      Step s { s with impl := s.impl.goto t (.waiting (a.deadline s.impl.steady)) }
  | release {t : Nat} (hpc : s.pc t = .inside)
      (hphase : s.impl.phase t = .called .unlock) :
      Step s { s with impl := { s.impl.goto t (.returning .released) with owner := none } }
  | take {t : Nat} {deadline : Deadline} (hpc : s.pc t = .inside)
      (hphase : s.impl.phase t = .waiting deadline) (howner : s.impl.owner = none) :
      Step s { s with impl := { s.impl.goto t (.returning .acquired) with owner := some t } }
  | giveUp {t : Nat} {deadline : Deadline} (hpc : s.pc t = .inside)
      (hphase : s.impl.phase t = .waiting deadline)
      (hexpired : s.impl.expired deadline = true) :
      Step s { s with impl := s.impl.goto t (.returning .refused) }
  | leave {t : Nat} {r : Reply} (hpc : s.pc t = .inside)
      (hphase : s.impl.phase t = .returning r) :
      Step s { s.goto t (.after r) with impl := (s.impl.goto t .idle).note (.reply t r) }
  | reply {t : Nat} {r : Reply} (hpc : s.pc t = .after r) :
      Step s { s.goto t .outside with history := .reply t r :: s.history }
  | clocks {steady system : Int} (hsteady : s.impl.steady ≤ steady) :
      Step s
        { s with
          impl := { s.impl with
            steady, system, history := .clocks steady system :: s.impl.history }
          history := .clocks steady system :: s.history }

theorem step_of_next {e : Event} (h : s.next e = some s') : Step s s' := by
  cases e with
  | call t c =>
      simp only [State.next] at h
      split at h
      · rename_i hcond
        cases h
        cases c with
        | attempt a =>
            have hbody : body (.attempt a) = some (.attempt a) := by cases a <;> rfl
            rw [hbody]
            exact Step.attempt hcond.1 hcond.2
        | unlock => exact Step.unlock hcond.1 hcond.2
      · cases h
  | enter t =>
      simp only [State.next] at h
      split at h
      · rename_i c hpc
        obtain ⟨impl, hcall, rfl⟩ := Option.map_eq_some_iff.mp h
        simp only [StdTimedMutex.State.next] at hcall
        split at hcall
        · cases hcall
          exact Step.enter hpc rfl
        · cases hcall
      · cases h
  | arrive t =>
      simp only [State.next, State.inner] at h
      split at h
      · rename_i hpc
        obtain ⟨impl, harrive, rfl⟩ := Option.map_eq_some_iff.mp h
        simp only [StdTimedMutex.State.next] at harrive
        split at harrive
        · rename_i hphase
          cases harrive
          exact Step.arrive hpc hphase
        · rename_i hphase
          cases harrive
          exact Step.release hpc hphase
        · cases harrive
      · cases h
  | take t =>
      simp only [State.next, State.inner] at h
      split at h
      · rename_i hpc
        obtain ⟨impl, htake, rfl⟩ := Option.map_eq_some_iff.mp h
        simp only [StdTimedMutex.State.next] at htake
        split at htake
        · rename_i hphase
          split at htake
          · rename_i howner
            cases htake
            exact Step.take hpc hphase howner
          · cases htake
        · cases htake
      · cases h
  | giveUp t =>
      simp only [State.next, State.inner] at h
      split at h
      · rename_i hpc
        obtain ⟨impl, hgives, rfl⟩ := Option.map_eq_some_iff.mp h
        simp only [StdTimedMutex.State.next] at hgives
        split at hgives
        · rename_i hphase
          split at hgives
          · rename_i hexpired
            cases hgives
            exact Step.giveUp hpc hphase hexpired
          · cases hgives
        · cases hgives
      · cases h
  | leave t =>
      simp only [State.next] at h
      split at h
      · rename_i r hpc hphase
        obtain ⟨impl, hreply, rfl⟩ := Option.map_eq_some_iff.mp h
        simp only [StdTimedMutex.State.next, hphase] at hreply
        cases hreply
        exact Step.leave hpc hphase
      · cases h
  | reply t =>
      simp only [State.next] at h
      split at h
      · rename_i r hpc
        cases h
        exact Step.reply hpc
      · cases h
  | clocks steady system =>
      obtain ⟨impl, hclocks, rfl⟩ := Option.map_eq_some_iff.mp h
      simp only [StdTimedMutex.State.next] at hclocks
      split at hclocks
      · rename_i hsteady
        cases hclocks
        exact Step.clocks hsteady
      · cases hclocks

/-! ### Who has the mutex -/

/-- The thread is not about to return from a successful attempt. -/
def Quiet (s : State) (t : Nat) : Prop :=
  s.pc t ≠ .after .acquired ∧ s.impl.phase t ≠ .returning .acquired

/-- `impl_` is acquired once, by a thread whose attempt succeeds, and never again. -/
inductive Stage (s : State) : Prop where
  | free (howner : s.impl.owner = none) (hquiet : ∀ u, Quiet s u)
      (hnone : ∀ u, .reply u .acquired ∉ s.history)
  | winning {t : Nat} (howner : s.impl.owner = some t)
      (hpc : s.pc t = .inside ∧ s.impl.phase t = .returning .acquired ∨
        s.pc t = .after .acquired)
      (hothers : ∀ u, u ≠ t → Quiet s u) (hnone : ∀ u, .reply u .acquired ∉ s.history)
  | taken {t : Nat} (howner : s.impl.owner = some t) (hquiet : ∀ u, Quiet s u)
      (hreply : .reply t .acquired ∈ s.history)

structure Sound (s : State) : Prop where
  idle : ∀ t, s.pc t ≠ .inside → s.impl.phase t = .idle
  forwards : ∀ t c, s.pc t = .before c → ∃ a, c = .attempt a
  locks : ∀ t, s.impl.phase t ≠ .called .unlock
  unheld : ∀ t, s.pc t ≠ .outside → StdTimedMutex.holds s.history t = false
  stage : Stage s
  /-- Only a thread that has acquired unlocks. -/
  acquired : s.Unlocked → ∃ t, .reply t .acquired ∈ s.history

theorem Stage.keep (h : Stage s) (howner : s'.impl.owner = s.impl.owner)
    (hhistory : ∀ u, .reply u .acquired ∈ s'.history ↔ .reply u .acquired ∈ s.history)
    (hmove : ∀ u, s'.pc u = s.pc u ∧ s'.impl.phase u = s.impl.phase u ∨
      Quiet s u ∧ Quiet s' u) : Stage s' := by
  have hquiet : ∀ u, Quiet s u → Quiet s' u := by
    intro u hu
    rcases hmove u with ⟨hpc, hphase⟩ | ⟨-, hu'⟩
    · rw [Quiet, hpc, hphase]
      exact hu
    · exact hu'
  cases h with
  | free hfree hall hnone =>
      exact Stage.free (howner.trans hfree) (fun u => hquiet u (hall u))
        fun u hu => hnone u ((hhistory u).mp hu)
  | @winning t howned hpc hothers hnone =>
      refine Stage.winning (howner.trans howned) ?_ (fun u hu => hquiet u (hothers u hu))
        fun u hu => hnone u ((hhistory u).mp hu)
      rcases hmove t with ⟨hsame, hphase⟩ | ⟨hnot, -⟩
      · rw [hsame, hphase]
        exact hpc
      · rcases hpc with ⟨-, hphase⟩ | hpc
        · exact absurd hphase hnot.2
        · exact absurd hpc hnot.1
  | taken howned hall hreply =>
      exact Stage.taken (howner.trans howned) (fun u => hquiet u (hall u))
        ((hhistory _).mpr hreply)

/-- Who wins has the mutex, and nobody had it before. -/
theorem Stage.winner (h : Stage s) (hnot : ¬ Quiet s t) :
    s.impl.owner = some t ∧ (∀ u, u ≠ t → Quiet s u) ∧
      ∀ u, .reply u .acquired ∉ s.history := by
  cases h with
  | free _ hquiet _ => exact absurd (hquiet t) hnot
  | @winning t' howner _ hothers hnone =>
      by_cases ht : t = t'
      · subst ht
        exact ⟨howner, hothers, hnone⟩
      · exact absurd (hothers t ht) hnot
  | taken _ hquiet _ => exact absurd (hquiet t) hnot

section Move

variable (pc : Pc) (phase : Phase)

/-- A thread moves that neither wins the mutex nor returns from winning it. -/
theorem Stage.move (h : Stage s) (hpc : s'.pc = Function.update s.pc t pc)
    (hphase : s'.impl.phase = Function.update s.impl.phase t phase)
    (howner : s'.impl.owner = s.impl.owner)
    (hhistory : ∀ u, .reply u .acquired ∈ s'.history ↔ .reply u .acquired ∈ s.history)
    (hbefore : Quiet s t) (hafter : pc ≠ .after .acquired ∧ phase ≠ .returning .acquired) :
    Stage s' := by
  refine h.keep howner hhistory fun u => ?_
  by_cases hu : u = t
  · subst hu
    refine Or.inr ⟨hbefore, ?_⟩
    rw [Quiet, hpc, hphase, Function.update_self, Function.update_self]
    exact hafter
  · refine Or.inl ⟨?_, ?_⟩
    · rw [hpc, Function.update_of_ne hu]
    · rw [hphase, Function.update_of_ne hu]

/-- What is to be shown for a thread that moves. -/
theorem Sound.move (h : Sound s) (hpc : s'.pc = Function.update s.pc t pc)
    (hphase : s'.impl.phase = Function.update s.impl.phase t phase)
    (hidle : pc ≠ .inside → phase = .idle)
    (hforwards : ∀ c, pc = .before c → ∃ a, c = .attempt a)
    (hlocks : phase ≠ .called .unlock)
    (hunheld : pc ≠ .outside → StdTimedMutex.holds s'.history t = false)
    (hothers : ∀ u, u ≠ t →
      StdTimedMutex.holds s'.history u = StdTimedMutex.holds s.history u)
    (hstage : Stage s') (hacquired : s'.Unlocked → ∃ u, .reply u .acquired ∈ s'.history) :
    Sound s' where
  idle := by
    rw [hpc, hphase]
    intro u
    by_cases hu : u = t
    · subst hu
      rw [Function.update_self, Function.update_self]
      exact hidle
    · rw [Function.update_of_ne hu, Function.update_of_ne hu]
      exact h.idle u
  forwards := by
    rw [hpc]
    exact update_cases (P := fun _ pc => ∀ c, pc = Pc.before c → ∃ a, c = .attempt a)
      hforwards fun u _ => h.forwards u
  locks := by
    rw [hphase]
    exact update_cases (P := fun _ phase => phase ≠ Phase.called .unlock) hlocks
      fun u _ => h.locks u
  unheld := by
    rw [hpc]
    intro u
    by_cases hu : u = t
    · subst hu
      rw [Function.update_self]
      exact hunheld
    · rw [Function.update_of_ne hu, hothers u hu]
      exact h.unheld u
  stage := hstage
  acquired := hacquired

end Move

theorem Sound.start : Sound .start where
  idle _ _ := rfl
  forwards _ _ h := by cases h
  locks _ h := by cases h
  unheld _ h := absurd rfl h
  stage := Stage.free rfl (fun _ => ⟨fun h => (by cases h), fun h => (by cases h)⟩)
    fun _ h => (by cases h)
  acquired h := by
    obtain ⟨_, h⟩ := h
    cases h

/-- A thread that is not in the middle of a successful attempt. -/
theorem Sound.quiet (h : Sound s) (hin : s.pc t ≠ .inside)
    (hafter : s.pc t ≠ .after .acquired) : Quiet s t :=
  ⟨hafter, by
    rw [h.idle t hin]
    exact fun h => by cases h⟩

theorem Sound.quiet_inside {phase : Phase} (hpc : s.pc t = .inside)
    (hphase : s.impl.phase t = phase) (hne : phase ≠ .returning .acquired) : Quiet s t :=
  ⟨by rw [hpc]; exact fun h => (by cases h), by rw [hphase]; exact hne⟩

theorem update_idle (h : Sound s) (hin : s.pc t ≠ .inside) :
    s.impl.phase = Function.update s.impl.phase t .idle :=
  (Function.update_eq_self_iff.mpr (h.idle t hin).symm).symm

theorem update_pc {pc : Pc} (hpc : s.pc t = pc) : s.pc = Function.update s.pc t pc :=
  (Function.update_eq_self_iff.mpr hpc.symm).symm

/-- What is to be shown for a thread that goes on in a method of `impl_`. -/
theorem Sound.within {impl : StdTimedMutex.State} {phase : Phase} (h : Sound s)
    (hpc : s.pc t = .inside) (hphase : impl.phase = Function.update s.impl.phase t phase)
    (hlocks : phase ≠ .called .unlock) (hstage : Stage { s with impl }) :
    Sound { s with impl } :=
  h.move .inside phase (update_pc hpc) hphase (fun h => absurd rfl h) (fun c hc => by cases hc)
    hlocks (fun _ => h.unheld t (by rw [hpc]; exact fun h => by cases h)) (fun _ _ => rfl)
    hstage h.acquired

/-- A thread that neither wins the mutex nor has won it goes on in a method of `impl_`. -/
theorem Sound.quietly {impl : StdTimedMutex.State} {phase phase' : Phase} (h : Sound s)
    (hpc : s.pc t = .inside) (hold : s.impl.phase t = phase)
    (hquiet : phase ≠ .returning .acquired)
    (hphase : impl.phase = Function.update s.impl.phase t phase')
    (howner : impl.owner = s.impl.owner) (hlocks : phase' ≠ .called .unlock)
    (hquiet' : phase' ≠ .returning .acquired) : Sound { s with impl } :=
  h.within hpc hphase hlocks (h.stage.move .inside phase' (update_pc hpc) hphase howner
    (fun _ => Iff.rfl) (Sound.quiet_inside hpc hold hquiet) ⟨fun h => (by cases h), hquiet'⟩)

/-- A label that is no call of `unlock` changes nothing about who has unlocked. -/
theorem Sound.acquired_cons {l : Label} (h : Sound s) (hl : ∀ u, l ≠ .call u .unlock)
    (hunlocked : ∃ u, .call u .unlock ∈ l :: s.history) :
    ∃ u, .reply u .acquired ∈ l :: s.history := by
  obtain ⟨u, hu⟩ := hunlocked
  cases hu with
  | head => exact absurd rfl (hl u)
  | tail _ hu =>
      obtain ⟨v, hv⟩ := h.acquired ⟨u, hu⟩
      exact ⟨v, List.mem_cons_of_mem l hv⟩

theorem Sound.step (h : Sound s) (hstep : Step s s') : Sound s' := by
  cases hstep with
  | @attempt t a hpc hcall =>
      have hin : s.pc t ≠ .inside := by rw [hpc]; exact fun h => by cases h
      have hphase := update_idle h hin
      have hquiet := h.quiet hin (by rw [hpc]; exact fun h => by cases h)
      refine h.move (.before (.attempt a)) .idle rfl hphase (fun _ => rfl)
        (fun c hc => ?_) (fun h => by cases h) (fun _ => hcall.2) (fun _ _ => rfl) ?_
        (h.acquired_cons fun u h => by cases h)
      · cases hc
        exact ⟨a, rfl⟩
      · exact h.stage.move (.before (.attempt a)) .idle rfl hphase rfl
          (fun u => by simp) hquiet ⟨fun h => (by cases h), fun h => (by cases h)⟩
  | @unlock t hpc hcall =>
      have hin : s.pc t ≠ .inside := by rw [hpc]; exact fun h => by cases h
      have hphase := update_idle h hin
      have hquiet := h.quiet hin (by rw [hpc]; exact fun h => by cases h)
      have hacquired := StdTimedMutex.acquired_of_holds hcall.2
      refine h.move (.after .released) .idle rfl hphase (fun _ => rfl)
        (fun c hc => by cases hc) (fun h => by cases h) (fun _ => if_pos rfl)
        (fun u hu => if_neg (Ne.symm hu)) ?_ fun _ => ⟨t, List.mem_cons_of_mem _ hacquired⟩
      exact h.stage.move (.after .released) .idle rfl hphase rfl
        (fun u => by simp) hquiet ⟨fun h => (by cases h), fun h => (by cases h)⟩
  | @enter t c phase hpc hphase =>
      have hin : s.pc t ≠ .inside := by rw [hpc]; exact fun h => by cases h
      have hquiet := h.quiet hin (by rw [hpc]; exact fun h => by cases h)
      obtain ⟨a, rfl⟩ := h.forwards t c hpc
      have hcalled : phase ≠ .called .unlock ∧ phase ≠ .returning .acquired := by
        rw [hphase]
        split <;> exact ⟨fun h => (by cases h), fun h => (by cases h)⟩
      refine h.move .inside phase rfl rfl (fun h => absurd rfl h)
        (fun c hc => by cases hc) hcalled.1
        (fun _ => h.unheld t (by rw [hpc]; exact fun h => by cases h)) (fun _ _ => rfl) ?_
        h.acquired
      exact h.stage.move .inside phase rfl rfl rfl (fun _ => Iff.rfl) hquiet
        ⟨fun h => (by cases h), hcalled.2⟩
  | @arrive t a hpc hphase =>
      exact h.quietly hpc hphase (fun h => by cases h) rfl rfl (fun h => by cases h)
        fun h => by cases h
  | @release t hpc hphase => exact absurd hphase (h.locks t)
  | @take t deadline hpc hphase howner =>
      refine h.within hpc rfl (fun h => by cases h) ?_
      cases h.stage with
      | free _ hquiet hnone =>
          refine Stage.winning (t := t) rfl (Or.inl ⟨hpc, Function.update_self _ _ _⟩)
            (fun u hu => ⟨(hquiet u).1, ?_⟩) hnone
          simp only [StdTimedMutex.State.goto, Function.update_of_ne hu]
          exact (hquiet u).2
      | winning howned => rw [howner] at howned; cases howned
      | taken howned => rw [howner] at howned; cases howned
  | @giveUp t deadline hpc hphase hexpired =>
      exact h.quietly hpc hphase (fun h => by cases h) rfl rfl (fun h => by cases h)
        fun h => by cases h
  | @leave t r hpc hphase =>
      refine h.move (.after r) .idle rfl rfl (fun _ => rfl) (fun c hc => by cases hc)
        (fun h => by cases h)
        (fun _ => h.unheld t (by rw [hpc]; exact fun h => by cases h)) (fun _ _ => rfl) ?_
        h.acquired
      by_cases hr : r = .acquired
      · subst hr
        obtain ⟨howner, hothers, hnone⟩ := h.stage.winner fun hquiet => hquiet.2 hphase
        refine Stage.winning (t := t) howner (Or.inr (Function.update_self _ _ _))
          (fun u hu => ⟨?_, ?_⟩) hnone
        · simp only [State.goto, Function.update_of_ne hu]
          exact (hothers u hu).1
        · simp only [StdTimedMutex.State.goto, StdTimedMutex.State.note,
            Function.update_of_ne hu]
          exact (hothers u hu).2
      · have hquiet := Sound.quiet_inside hpc hphase fun h => hr (by cases h; rfl)
        exact h.stage.move (.after r) .idle rfl rfl rfl (fun _ => Iff.rfl) hquiet
          ⟨fun h => hr (by cases h; rfl), fun h => by cases h⟩
  | @reply t r hpc =>
      have hin : s.pc t ≠ .inside := by rw [hpc]; exact fun h => by cases h
      have hphase := update_idle h hin
      refine h.move .outside .idle rfl hphase (fun _ => rfl) (fun c hc => by cases hc)
        (fun h => by cases h) (fun h => absurd rfl h) (fun u hu => ?_) ?_
        (h.acquired_cons fun u h => by cases h)
      · cases r with
        | acquired => exact if_neg (Ne.symm hu)
        | refused => rfl
        | released => rfl
      · by_cases hr : r = .acquired
        · subst hr
          obtain ⟨howner, hothers, -⟩ := h.stage.winner fun hquiet => hquiet.1 hpc
          refine Stage.taken howner (fun u => ?_) List.mem_cons_self
          by_cases hu : u = t
          · subst hu
            refine ⟨?_, ?_⟩
            · simp only [State.goto, Function.update_self]
              exact fun h => by cases h
            · simp only [State.goto, h.idle u hin]
              exact fun h => by cases h
          · refine ⟨?_, (hothers u hu).2⟩
            simp only [State.goto, Function.update_of_ne hu]
            exact (hothers u hu).1
        · have hquiet := h.quiet hin fun h => hr (by rw [hpc] at h; cases h; rfl)
          refine h.stage.move .outside .idle rfl hphase rfl (fun u => ?_) hquiet
            ⟨fun h => (by cases h), fun h => (by cases h)⟩
          simp only [List.mem_cons, Label.reply.injEq, or_iff_right_iff_imp, and_imp]
          rintro - rfl
          exact absurd rfl hr
  | @clocks steady system hsteady =>
      refine ⟨h.idle, h.forwards, h.locks, h.unheld, ?_, h.acquired_cons fun u h => by cases h⟩
      exact h.stage.keep rfl (fun u => by simp) fun u => Or.inl ⟨rfl, rfl⟩

theorem reach_sound (h : Reached s) : Sound s :=
  h.invariant Sound.start fun _ _ _ hI _ hnext => hI.step (step_of_next hnext)

/-! ### Nobody unlocks: the specification is followed -/

/-- Where the callers think a thread is. -/
def view (phase : Phase) : Pc → Phase
  | .outside => .idle
  | .before c => .called c
  | .inside => phase
  | .after r => .returning r

/-- The state of a `std::timed_mutex` whose calls are the ones of the methods. -/
def mirror (s : State) : StdTimedMutex.State where
  owner := s.impl.owner
  phase t := view (s.impl.phase t) (s.pc t)
  steady := s.impl.steady
  system := s.impl.system
  history := s.history

theorem blocked_mirror : (mirror s).Blocked t ↔ s.Blocked t := by
  unfold StdTimedMutex.State.Blocked State.Blocked
  simp only [mirror]
  constructor
  · rintro ⟨deadline, hphase, hrest⟩
    cases hpc : s.pc t with
    | inside =>
        rw [hpc] at hphase
        exact ⟨rfl, deadline, hphase, hrest⟩
    | outside => rw [hpc] at hphase; cases hphase
    | before c => rw [hpc] at hphase; cases hphase
    | after r => rw [hpc] at hphase; cases hphase
  · rintro ⟨hpc, deadline, hphase, hrest⟩
    exact ⟨deadline, by rw [hpc]; exact hphase, hrest⟩

theorem mirror_phase {pc : Pc} {phase : Phase} (hpc : s'.pc = Function.update s.pc t pc)
    (hphase : s'.impl.phase = Function.update s.impl.phase t phase) :
    (mirror s').phase = Function.update (mirror s).phase t (view phase pc) := by
  funext u
  simp only [mirror, hpc, hphase]
  by_cases hu : u = t
  · subst hu
    simp only [Function.update_self]
  · simp only [Function.update_of_ne hu]

/-- What the callers do not see is no step. -/
theorem mirror_stays {pc : Pc} {phase : Phase} (hpc : s'.pc = Function.update s.pc t pc)
    (hphase : s'.impl.phase = Function.update s.impl.phase t phase)
    (hview : view phase pc = view (s.impl.phase t) (s.pc t))
    (howner : s'.impl.owner = s.impl.owner) (hsteady : s'.impl.steady = s.impl.steady)
    (hsystem : s'.impl.system = s.impl.system) (hhistory : s'.history = s.history) :
    mirror s' = mirror s := by
  have hsame : (mirror s').phase = (mirror s).phase := by
    rw [mirror_phase hpc hphase]
    exact Function.update_eq_self_iff.mpr hview
  unfold mirror at hsame ⊢
  rw [StdTimedMutex.State.mk.injEq]
  exact ⟨howner, hsame, hsteady, hsystem, hhistory⟩

theorem mirror_moves {pc : Pc} {phase : Phase} {e : StdTimedMutex.Event}
    (hpc : s'.pc = Function.update s.pc t pc)
    (hphase : s'.impl.phase = Function.update s.impl.phase t phase)
    (hsteady : s'.impl.steady = s.impl.steady)
    (hsystem : s'.impl.system = s.impl.system)
    (hnext : (mirror s).next e = some
      { (mirror s).goto t (view phase pc) with
        owner := s'.impl.owner
        history := s'.history }) : (mirror s).next e = some (mirror s') := by
  have hmoved := mirror_phase hpc hphase
  rw [hnext]
  unfold StdTimedMutex.State.goto
  rw [← hmoved]
  unfold mirror
  rw [Option.some.injEq, StdTimedMutex.State.mk.injEq]
  exact ⟨rfl, rfl, hsteady.symm, hsystem.symm, rfl⟩

/-- As long as nobody has called `unlock`, `impl_` may be called. -/
theorem Sound.permits (h : Sound s) (hnever : ¬ s.Unlocked) (hin : s.pc t ≠ .inside)
    (hafter : s.pc t ≠ .after .acquired)
    (hunheld : StdTimedMutex.holds s.history t = false) (a : Attempt) :
    s.impl.permits t (.attempt a) = true := by
  have hne : s.impl.owner ≠ some t := by
    intro howner
    cases h.stage with
    | free hfree => rw [howner] at hfree; cases hfree
    | winning howned hpc =>
        rw [howner] at howned
        cases howned
        rcases hpc with ⟨hpc, -⟩ | hpc
        · exact hin hpc
        · exact hafter hpc
    | taken howned _ hreply =>
        rw [howner] at howned
        cases howned
        have hholds := StdTimedMutex.holds_of_acquired hreply fun u hu => hnever ⟨u, hu⟩
        rw [hunheld] at hholds
        cases hholds
  simpa [StdTimedMutex.State.permits] using hne

theorem mirror_step (h : Sound s) (hnever : ¬ s.Unlocked) (hstep : Step s s')
    (hnever' : ¬ s'.Unlocked) :
    mirror s' = mirror s ∨ ∃ e, (mirror s).next e = some (mirror s') := by
  cases hstep with
  | @attempt t a hpc hcall =>
      have hin : s.pc t ≠ .inside := by rw [hpc]; exact fun h => by cases h
      have hphase := update_idle h hin
      have hpermits := h.permits hnever hin (by rw [hpc]; exact fun h => by cases h) hcall.2 a
      have hidle : (mirror s).phase t = .idle := by simp only [mirror, hpc, view]
      refine Or.inr ⟨.call t (.attempt a), mirror_moves (t := t) rfl hphase rfl rfl ?_⟩
      rw [StdTimedMutex.State.next, if_pos hidle,
        show (mirror s).permits t (.attempt a) = true from hpermits, if_pos rfl]
      rfl
  | @unlock t hpc hcall => exact absurd ⟨t, List.mem_cons_self⟩ hnever'
  | @enter t c phase hpc hphase =>
      have hin : s.pc t ≠ .inside := by rw [hpc]; exact fun h => by cases h
      have hunheld := h.unheld t (by rw [hpc]; exact fun h => by cases h)
      obtain ⟨a, rfl⟩ := h.forwards t c hpc
      have hpermits := h.permits hnever hin (by rw [hpc]; exact fun h => by cases h) hunheld a
      refine Or.inl (mirror_stays (t := t) rfl rfl ?_ rfl rfl rfl rfl)
      rw [hpc, hphase, hpermits, if_pos rfl]
      rfl
  | @arrive t a hpc hphase =>
      have hcalled : (mirror s).phase t = .called (.attempt a) := by
        simp only [mirror, hpc, hphase, view]
      refine Or.inr ⟨.arrive t, mirror_moves (update_pc hpc) rfl rfl rfl ?_⟩
      simp only [StdTimedMutex.State.next, hcalled]
      rfl
  | @release t hpc hphase => exact absurd hphase (h.locks t)
  | @take t deadline hpc hphase howner =>
      have hwaiting : (mirror s).phase t = .waiting deadline := by
        simp only [mirror, hpc, hphase, view]
      refine Or.inr ⟨.take t, mirror_moves (update_pc hpc) rfl rfl rfl ?_⟩
      simp only [StdTimedMutex.State.next, hwaiting]
      rw [if_pos (show (mirror s).owner = none from howner)]
      rfl
  | @giveUp t deadline hpc hphase hexpired =>
      have hwaiting : (mirror s).phase t = .waiting deadline := by
        simp only [mirror, hpc, hphase, view]
      have hexpired' : (mirror s).expired deadline = true := by
        cases deadline <;> exact hexpired
      refine Or.inr ⟨.giveUp t, mirror_moves (update_pc hpc) rfl rfl rfl ?_⟩
      simp only [StdTimedMutex.State.next, hwaiting]
      rw [if_pos hexpired']
      rfl
  | @leave t r hpc hphase =>
      refine Or.inl (mirror_stays (t := t) rfl rfl ?_ rfl rfl rfl rfl)
      rw [hpc, hphase]
      rfl
  | @reply t r hpc =>
      have hin : s.pc t ≠ .inside := by rw [hpc]; exact fun h => by cases h
      have hphase := update_idle h hin
      have hreturning : (mirror s).phase t = .returning r := by
        simp only [mirror, hpc, view]
      refine Or.inr ⟨.reply t, mirror_moves (t := t) rfl hphase rfl rfl ?_⟩
      simp only [StdTimedMutex.State.next, hreturning]
      rfl
  | @clocks steady system hsteady =>
      refine Or.inr ⟨.clocks steady system, ?_⟩
      rw [StdTimedMutex.State.next, if_pos (show (mirror s).steady ≤ steady from hsteady)]
      rfl

/-- Undefined behaviour takes a call that is not permitted. -/
theorem defined_step (h : Sound s) (hnever : ¬ s.Unlocked)
    (hdefined : ∀ u, s.impl.phase u ≠ .undefined) (hstep : Step s s') :
    ∀ u, s'.impl.phase u ≠ .undefined := by
  have hmove : ∀ (t : Nat) (phase : Phase), phase ≠ .undefined →
      ∀ u, Function.update s.impl.phase t phase u ≠ .undefined := fun t phase hphase =>
    update_cases (P := fun _ phase => phase ≠ Phase.undefined) hphase fun u _ => hdefined u
  cases hstep with
  | attempt => exact hdefined
  | unlock => exact hdefined
  | @enter t c phase hpc hphase =>
      have hin : s.pc t ≠ .inside := by rw [hpc]; exact fun h => by cases h
      have hunheld := h.unheld t (by rw [hpc]; exact fun h => by cases h)
      obtain ⟨a, rfl⟩ := h.forwards t c hpc
      have hpermits := h.permits hnever hin (by rw [hpc]; exact fun h => by cases h) hunheld a
      rw [hpermits, if_pos rfl] at hphase
      subst hphase
      exact hmove t _ fun h => by cases h
  | arrive => exact hmove _ _ fun h => by cases h
  | release => exact hmove _ _ fun h => by cases h
  | take => exact hmove _ _ fun h => by cases h
  | giveUp => exact hmove _ _ fun h => by cases h
  | leave => exact hmove _ _ fun h => by cases h
  | reply => exact hdefined
  | clocks => exact hdefined

/-- The labels of a step come on top. -/
theorem step_history (hstep : Step s s') :
    s'.history = s.history ∨ ∃ l, s'.history = l :: s.history ∧
      ∀ t, l = .reply t .acquired → s.pc t = .after .acquired := by
  cases hstep with
  | attempt => exact Or.inr ⟨_, rfl, fun t h => by cases h⟩
  | unlock => exact Or.inr ⟨_, rfl, fun t h => by cases h⟩
  | enter => exact Or.inl rfl
  | arrive => exact Or.inl rfl
  | release => exact Or.inl rfl
  | take => exact Or.inl rfl
  | giveUp => exact Or.inl rfl
  | leave => exact Or.inl rfl
  | reply hpc =>
      refine Or.inr ⟨_, rfl, fun t h => ?_⟩
      cases h
      exact hpc
  | clocks => exact Or.inr ⟨_, rfl, fun t h => by cases h⟩

theorem unlocked_mono (hstep : Step s s') (h : s.Unlocked) : s'.Unlocked := by
  obtain ⟨t, ht⟩ := h
  rcases step_history hstep with hsame | ⟨l, hl, -⟩
  · exact ⟨t, hsame ▸ ht⟩
  · exact ⟨t, hl ▸ List.mem_cons_of_mem l ht⟩

theorem refines (h : Reached s) (hnever : ¬ s.Unlocked) :
    StdTimedMutex.Reached (mirror s) ∧ ∀ u, s.impl.phase u ≠ .undefined := by
  induction h with
  | start => exact ⟨Reach.start, fun u h => by cases h⟩
  | @step s s' e hreach _ hnext ih =>
      have hstep := step_of_next hnext
      have hbefore : ¬ s.Unlocked := fun h => hnever (unlocked_mono hstep h)
      obtain ⟨hspec, hdefined⟩ := ih hbefore
      have hsound := reach_sound hreach
      refine ⟨?_, defined_step hsound hbefore hdefined hstep⟩
      rcases mirror_step hsound hbefore hstep hnever with hsame | ⟨e, hnext⟩
      · rw [hsame]
        exact hspec
      · exact hspec.step trivial hnext

/-! ### Somebody unlocks: nobody acquires any more -/

/-- `impl_` is held for good. -/
theorem taken_forever {u : Nat} (h : Reach State.next (fun _ _ => True) s s')
    (hreach : Reached s) (hacquired : .reply u .acquired ∈ s.history) :
    Reached s' ∧ .reply u .acquired ∈ s'.history ∧
      ∃ later, s'.history = later ++ s.history ∧ ∀ t, .reply t .acquired ∉ later := by
  induction h with
  | start => exact ⟨hreach, hacquired, [], rfl, fun t h => by cases h⟩
  | @step s₁ s₂ e _ _ hnext ih =>
      obtain ⟨hreach₁, hacquired₁, later, hlater, hnone⟩ := ih
      refine ⟨hreach₁.step trivial hnext, ?_⟩
      have hquiet : ∀ t, Quiet s₁ t := by
        cases (reach_sound hreach₁).stage with
        | free _ hquiet _ => exact hquiet
        | winning _ _ _ hnot => exact absurd hacquired₁ (hnot u)
        | taken _ hquiet _ => exact hquiet
      rcases step_history (step_of_next hnext) with hsame | ⟨l, hl, hwins⟩
      · exact ⟨hsame ▸ hacquired₁, later, hsame.trans hlater, hnone⟩
      · refine ⟨hl ▸ List.mem_cons_of_mem l hacquired₁, l :: later, ?_, fun t ht => ?_⟩
        · rw [hl, hlater, List.cons_append]
        · cases ht with
          | head => exact (hquiet t).1 (hwins t rfl)
          | tail _ ht => exact hnone t ht

theorem not_recovers (hreach : Reached s) (hunlocked : s.Unlocked) :
    ¬ ∃ s' later t, Reach State.next (fun _ _ => True) s s' ∧
      s'.history = later ++ s.history ∧ .reply t .acquired ∈ later := by
  rintro ⟨s', later, t, hrun, hlater, ht⟩
  obtain ⟨u, hacquired⟩ := (reach_sound hreach).acquired hunlocked
  obtain ⟨-, -, later', hlater', hnone⟩ := taken_forever hrun hreach hacquired
  have heq : later' = later := List.append_cancel_right (hlater'.symm.trans hlater)
  exact hnone t (heq ▸ ht)

/-- The wrapper is a timed mutex exactly as long as nobody has called `unlock`. -/
theorem timedMutex_iff (hreach : Reached s) : IsTimedMutex s ↔ ¬ s.Unlocked := by
  constructor
  · intro h hunlocked
    exact not_recovers hreach hunlocked (h.recovers hunlocked)
  · intro hnever
    obtain ⟨hspec, hdefined⟩ := refines hreach hnever
    exact ⟨⟨mirror s, hspec, rfl, fun _ => blocked_mirror⟩, hdefined,
      fun hunlocked => absurd hunlocked hnever⟩

/-- Thread 2 waits for thread 1. -/
theorem timedMutex_iff_twoThreads :
    ∃ s, Reached s ∧ s.impl.owner = some 1 ∧ s.impl.phase 2 = .waiting .never ∧
      IsTimedMutex s := by
  obtain ⟨s, hreach, howner, hphase, hhistory⟩ :=
    @exists_reach _ _ State.next (fun _ _ => True) State.start _
      [.call 1 (.attempt .lock), .enter 1, .arrive 1, .take 1, .leave 1, .reply 1,
        .call 2 (.attempt .lock), .enter 2, .arrive 2]
      (fun s => s.impl.owner = some 1 ∧ s.impl.phase 2 = .waiting .never ∧
        s.history = [.call 2 (.attempt .lock), .reply 1 .acquired,
          .call 1 (.attempt .lock)]) _ (by decide)
  refine ⟨s, hreach, howner, hphase, (timedMutex_iff hreach).mpr ?_⟩
  rintro ⟨u, hu⟩
  rw [hhistory] at hu
  simp at hu

/-- Thread 1 has unlocked, and thread 2 is blocked although nobody else is there. -/
theorem unlock_forgotten :
    ∃ s, Reached s ∧ s.history = [.call 2 (.attempt .lock), .reply 1 .released,
        .call 1 .unlock, .reply 1 .acquired, .call 1 (.attempt .lock)] ∧
      s.Blocked 2 ∧ ¬ StdTimedMutex.Allows s.history s.Blocked := by
  obtain ⟨s, hreach, hpc, howner, hphase, hhistory⟩ :=
    @exists_reach _ _ State.next (fun _ _ => True) State.start _
      [.call 1 (.attempt .lock), .enter 1, .arrive 1, .take 1, .leave 1, .reply 1,
        .call 1 .unlock, .reply 1, .call 2 (.attempt .lock), .enter 2, .arrive 2]
      (fun s => s.pc 2 = .inside ∧ s.impl.owner = some 1 ∧
        s.impl.phase 2 = .waiting .never ∧
        s.history = [.call 2 (.attempt .lock), .reply 1 .released,
          .call 1 .unlock, .reply 1 .acquired, .call 1 (.attempt .lock)]) _ (by decide)
  have hblocked : s.Blocked 2 :=
    ⟨hpc, .never, hphase, by rw [howner]; exact fun h => (by cases h), rfl⟩
  refine ⟨s, hreach, hhistory, hblocked, ?_⟩
  rintro ⟨spec, hspec, hsame, hboth⟩
  obtain ⟨u, hu, hbusy⟩ := StdTimedMutex.blocked_owned hspec ((hboth 2).mpr hblocked)
  rw [hsame, hhistory] at hbusy
  by_cases hone : 1 = u
  · subst hone
    simp [StdTimedMutex.pending, StdTimedMutex.holds] at hbusy
  · simp [StdTimedMutex.pending, StdTimedMutex.holds, Ne.symm hu, hone] at hbusy

end FaultyTimedMutex

end TwistSim

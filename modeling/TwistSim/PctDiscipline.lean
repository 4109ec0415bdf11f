/-
Runs of a program under the scheduler of probabilistic concurrency testing: which
threads it picks, whose priority changes, and how often a running thread is dropped.
-/
import TwistSim.PctPriorities

namespace TwistSim

namespace Pct

variable {params : Params} {fuel : Nat} {s s' : State}

/-- A run of a program under the scheduler: which threads are alive, which one is
running, and what was counted since `Start`. -/
structure Run where
  sched : State
  alive : ThreadId → Bool
  running : Option ThreadId
  picks : Nat
  /-- New priorities that were drawn. -/
  drawn : Nat
  /-- New priorities that were drawn in `PickNext`. -/
  drops : Nat

namespace Run

def new (s : State) : Run := ⟨s, fun _ => false, none, 0, 0, 0⟩

/-- A call of the scheduler, or the running thread blocks. -/
inductive Event where
  | call (call : Call)
  | park

/-- The protocol: ids are not shared, and a thread is handed to the scheduler by
whoever holds it. -/
def Conforms (r : Run) : Event → Prop
  | .park => r.running.isSome = true
  | .call (_, .spawn t) => 1 ≤ t ∧ r.alive t = false
  | .call (_, .wake t) => r.alive t = true ∧ r.running ≠ some t ∧ t ∉ r.sched.runnable
  | .call (_, .yield t) | .call (_, .interrupt t) | .call (_, .exit t) => r.running = some t
  | .call (_, .pickNext) => r.running = none ∧ r.sched.runnable ≠ []
  | .call (_, .start) | .call (_, .remove _) => False
  | .call _ => True

instance (r : Run) (e : Event) : Decidable (r.Conforms e) := by
  unfold Conforms
  split <;> infer_instance

/-- Whether a priority was drawn. -/
def draws (s s' : State) : Nat := if s'.nextPrior = s.nextPrior then 0 else 1

/-- The run after the scheduler has answered a call. -/
def after (r : Run) (s : State) : (call : Call) → call.Reply → Run
  | (_, .spawn t), _ =>
      { r with
        sched := s
        alive := Function.update r.alive t true
        drawn := r.drawn + draws r.sched s }
  | (_, .exit t), _ =>
      { r with sched := s, alive := Function.update r.alive t false, running := none }
  | (_, .yield _), _ =>
      { r with sched := s, running := none, drawn := r.drawn + draws r.sched s }
  | (_, .interrupt _), _ => { r with sched := s, running := none }
  | (_, .pickNext), .ok t =>
      { r with
        sched := s
        running := some t
        picks := r.picks + 1
        drawn := r.drawn + draws r.sched s
        drops := r.drops + draws r.sched s }
  | _, _ => { r with sched := s }

def next (params : Params) (fuel : Nat) (r : Run) : Event → Option Run
  | .park => some { r with running := none }
  | .call call =>
      ((scheduler params fuel).exec call r.sched).toOption.map fun (reply, s) =>
        r.after s call reply

/-- Fewer than 2^31 priorities were drawn, and no iteration has the number that
guards the change points. -/
def Within (r : Run) : Prop := r.drawn < 2 ^ 31 ∧ r.picks < 2 ^ 64 - 1

/-! ### What a step can do -/

/-- The calls that hand threads over. -/
def hands : Query → Bool
  | .start | .interrupt _ | .switchTo _ _ | .yield _ | .wake _ | .spawn _ | .exit _
  | .pickNext => true
  | _ => false

/-- Everything but wait queues, counters of runs and random numbers is the same. -/
structure Still (s s' : State) : Prop where
  counters : SameCounters s s'
  priorities : SamePriorities s s'
  active : s'.active = s.active
  queue : s'.runQueue = s.runQueue

theorem Still.refl (s : State) : Still s s := ⟨⟨rfl, rfl, rfl⟩, ⟨rfl, rfl⟩, rfl, rfl⟩

theorem reseeded_still (s : State) (random : WyRand) : Still s { s with random } :=
  ⟨⟨rfl, rfl, rfl⟩, ⟨rfl, rfl⟩, rfl, rfl⟩

theorem exec_still {call : Call} {reply : call.Reply} (hands : hands call.2 = false)
    (h : (scheduler params fuel).exec call s = .ok (reply, s')) : Still s s' := by
  obtain ⟨view, q⟩ := call
  cases q with
  | start | interrupt _ | switchTo _ _ | yield _ | wake _ | spawn _ | exit _ | pickNext =>
      cases hands
  | queuePush q t =>
      obtain ⟨waitLists, -, heq⟩ := map_eq_ok h
      cases heq
      exact ⟨⟨rfl, rfl, rfl⟩, ⟨rfl, rfl⟩, rfl, rfl⟩
  | randomNumber =>
      have hs' : (randomNumber s).2 = s' := congrArg Prod.snd (Except.ok.inj h)
      exact hs' ▸ reseeded_still s _
  | randomChoice alts =>
      have hs' : (randomNumber s).2 = s' := congrArg Prod.snd (Except.ok.inj h)
      exact hs' ▸ reseeded_still s _
  | newWaitQueue | queuePop _ | queuePopAll _ | queueRemove _ _ =>
      cases h
      exact ⟨⟨rfl, rfl, rfl⟩, ⟨rfl, rfl⟩, rfl, rfl⟩
  | _ =>
      cases h
      exact Still.refl _

/-- A new thread has its initial priority, or the next one. -/
def Spawned (t : ThreadId) (s s' : State) : Prop :=
  (∃ p, s.initPrior[t]? = some p ∧ s'.priority = Function.update s.priority t p ∧
    s'.nextPrior = s.nextPrior) ∨ Demoted t s s'

/-- The steps of a run that conforms to the protocol. -/
inductive Step (r : Run) : Event → Run → Prop
  | park : Step r .park { r with running := none }
  | spawn {view : KernelView} {t : ThreadId} {s : State} :
      SameCounters r.sched s → s.active = r.sched.active →
      s.runQueue = r.sched.runQueue ++ [t] → Spawned t r.sched s →
      Step r (.call (view, .spawn t)) (r.after s (view, .spawn t) ())
  | wake {view : KernelView} {t : ThreadId} :
      Step r (.call (view, .wake t)) { r with sched := enqueue t r.sched }
  | yield {view : KernelView} {t : ThreadId} {s : State} :
      SameCounters r.sched s → s.active = r.sched.active →
      s.runQueue = r.sched.runQueue ++ [t] → Demoted t r.sched s →
      Step r (.call (view, .yield t)) (r.after s (view, .yield t) ())
  | interrupt {view : KernelView} {t : ThreadId} :
      Step r (.call (view, .interrupt t))
        { r with sched := { r.sched with active := some t }, running := none }
  | exit {view : KernelView} {t : ThreadId} :
      Step r (.call (view, .exit t))
        { r with alive := Function.update r.alive t false, running := none }
  | pick {view : KernelView} {t : ThreadId} {s : State} :
      Picked view r.sched t s →
      Step r (.call (view, .pickNext)) (r.after s (view, .pickNext) (.ok t))
  | still {call : Call} {s : State} :
      hands call.2 = false → Still r.sched s → Step r (.call call) { r with sched := s }

theorem spawn_spawned (t : ThreadId) (s : State) :
    SameCounters s (Pct.spawn t s) ∧ (Pct.spawn t s).active = s.active ∧
      (Pct.spawn t s).runQueue = s.runQueue ++ [t] ∧ Spawned t s (Pct.spawn t s) := by
  unfold Pct.spawn
  split
  · rename_i p hp
    exact ⟨⟨rfl, rfl, rfl⟩, rfl, rfl, Or.inl ⟨p, hp, rfl, rfl⟩⟩
  · exact ⟨⟨rfl, rfl, rfl⟩, rfl, rfl, Or.inr ⟨rfl, rfl⟩⟩

variable {r r' : Run} {e : Event}

theorem step_of_next (hconforms : r.Conforms e) (h : next params fuel r e = some r') :
    Step r e r' := by
  cases e with
  | park =>
      cases h
      exact Step.park
  | call call =>
      obtain ⟨⟨reply, s⟩, hsome, rfl⟩ := Option.map_eq_some_iff.mp h
      have hexec : (scheduler params fuel).exec call r.sched = .ok (reply, s) := by
        cases hresult : (scheduler params fuel).exec call r.sched with
        | error e =>
            rw [hresult] at hsome
            cases hsome
        | ok result =>
            rw [hresult] at hsome
            cases hsome
            rfl
      obtain ⟨view, q⟩ := call
      cases q with
      | start => exact hconforms.elim
      | switchTo t next => cases hexec
      | spawn t =>
          obtain ⟨hcounters, hactive, hqueue, hspawned⟩ := spawn_spawned t r.sched
          cases hexec
          exact Step.spawn hcounters hactive hqueue hspawned
      | wake t =>
          cases hexec
          exact Step.wake
      | yield t =>
          cases hexec
          exact Step.yield ⟨rfl, rfl, rfl⟩ rfl rfl ⟨rfl, rfl⟩
      | interrupt t =>
          cases hexec
          exact Step.interrupt
      | exit t =>
          cases hexec
          exact Step.exit
      | pickNext =>
          obtain ⟨t, s', hpick, hpicked⟩ := pickNext_picked hconforms.2
          have heq : Except.ok (.ok t, s') = Except.ok (reply, s) := hpick.symm.trans hexec
          cases heq
          exact Step.pick hpicked
      | _ => exact Step.still rfl (exec_still rfl hexec)

/-! ### Where the threads are -/

/-- The running thread, and those that may be picked. -/
def held (r : Run) : List ThreadId := r.running.toList ++ r.sched.runnable

/-- Nobody is held twice, and those held are alive. -/
structure Placed (r : Run) : Prop where
  nodup : r.held.Nodup
  live : ∀ t ∈ r.held, r.alive t = true
  vacant : r.running.isSome = true → r.sched.active = none

theorem Placed.perm (h : r.Placed) (hperm : r'.held.Perm r.held)
    (halive : r'.alive = r.alive) (hvacant : r'.running.isSome = true → r'.sched.active = none) :
    r'.Placed := by
  refine ⟨hperm.nodup_iff.mpr h.nodup, fun t ht => ?_, hvacant⟩
  rw [halive]
  exact h.live t (hperm.mem_iff.mp ht)

/-- One more thread is held. -/
theorem Placed.cons {t : ThreadId} (h : r.Placed) (hperm : r'.held.Perm (t :: r.held))
    (hnew : t ∉ r.held) (ht : r'.alive t = true)
    (halive : ∀ u, r.alive u = true → r'.alive u = true)
    (hvacant : r'.running.isSome = true → r'.sched.active = none) : r'.Placed := by
  refine ⟨hperm.nodup_iff.mpr (List.nodup_cons.mpr ⟨hnew, h.nodup⟩), fun u hu => ?_, hvacant⟩
  rcases List.mem_cons.mp (hperm.mem_iff.mp hu) with rfl | hu
  · exact ht
  · exact halive u (h.live u hu)

theorem held_of_running {t : ThreadId} (h : r.running = some t) :
    r.held = t :: r.sched.runnable := by
  rw [held, h]
  rfl

theorem pushed_perm {t : ThreadId} (hactive : s'.active = s.active)
    (hqueue : s'.runQueue = s.runQueue ++ [t]) (front : List ThreadId) :
    (front ++ s'.runnable).Perm (t :: (front ++ s.runnable)) := by
  have hrunnable : s'.runnable = s.runnable ++ [t] := by
    rw [State.runnable, State.runnable, hactive, hqueue, List.append_assoc]
  rw [hrunnable, ← List.append_assoc]
  exact List.perm_append_singleton t _

theorem Placed.step (h : r.Placed) (hconforms : r.Conforms e) (hstep : Step r e r') :
    r'.Placed := by
  cases hstep with
  | park =>
      refine ⟨h.nodup.sublist (List.sublist_append_right _ _), fun t ht => ?_, by simp⟩
      exact h.live t (List.mem_append_right _ ht)
  | @spawn view t s hcounters hactive hqueue hspawned =>
      have hdead : r.alive t = false := hconforms.2
      refine h.cons (pushed_perm hactive hqueue _) (fun hold => ?_)
        (Function.update_self ..) (fun u hu => ?_) fun hsome => hactive.trans (h.vacant hsome)
      · exact absurd (hdead.symm.trans (h.live t hold)) (by decide)
      · change Function.update r.alive t true u = true
        by_cases hut : u = t
        · rw [hut, Function.update_self]
        · rw [Function.update_of_ne hut, hu]
  | @wake view t =>
      obtain ⟨halive, hrunning, hrunnable⟩ := hconforms
      refine h.cons (@pushed_perm r.sched (enqueue t r.sched) t rfl rfl _) (fun hold => ?_) halive (fun u hu => hu) h.vacant
      rcases List.mem_append.mp hold with hin | hin
      · exact hrunning (Option.mem_toList.mp hin)
      · exact hrunnable hin
  | @yield view t s hcounters hactive hqueue hdemoted =>
      refine h.perm ?_ rfl fun hsome => by cases hsome
      rw [held_of_running hconforms]
      exact pushed_perm hactive hqueue []
  | @interrupt view t =>
      have hvacant : r.sched.active = none := h.vacant (by rw [hconforms]; rfl)
      have hrunnable : r.sched.runnable = r.sched.runQueue := by
        rw [State.runnable, hvacant]
        rfl
      refine h.perm ?_ rfl fun hsome => by cases hsome
      rw [held_of_running hconforms, hrunnable]
      exact List.Perm.refl _
  | @exit view t =>
      have hheld := held_of_running hconforms
      have hnodup := h.nodup
      rw [hheld] at hnodup
      refine ⟨(List.nodup_cons.mp hnodup).2, fun u hu => ?_, by simp⟩
      change Function.update r.alive t false u = true
      have hut : u ≠ t := fun heq => (List.nodup_cons.mp hnodup).1 (heq ▸ hu)
      rw [Function.update_of_ne hut]
      refine h.live u ?_
      rw [hheld]
      exact List.mem_cons_of_mem _ hu
  | @pick view t s hpicked =>
      refine h.perm ?_ rfl fun _ => hpicked.vacant
      have hrunnable : s.runnable = s.runQueue := by
        rw [State.runnable, hpicked.vacant]
        rfl
      have hold : r.held = r.sched.runnable := by
        rw [held, hconforms.1]
        rfl
      change (t :: s.runnable).Perm r.held
      rw [hold, hrunnable]
      exact hpicked.perm.symm
  | @still call s hhands hstill =>
      have hrunnable : s.runnable = r.sched.runnable := by
        rw [State.runnable, State.runnable, hstill.active, hstill.queue]
      refine h.perm ?_ rfl fun hsome => hstill.active.trans (h.vacant hsome)
      change (r.running.toList ++ s.runnable).Perm r.held
      rw [hrunnable]
      exact List.Perm.refl _

/-! ### What is counted -/

/-- Every drop used up a change point. -/
structure Counted (points : List Nat) (r : Run) : Prop where
  iter : r.sched.iter = r.picks
  guarded : r.sched.changePoints = points ++ [noChangePoint]
  drops : r.drops ≤ points.countP (· ≤ r.picks)

theorem Counted.same {points : List Nat} (h : Counted points r)
    (hcounters : SameCounters r.sched r'.sched) (hpicks : r'.picks = r.picks)
    (hdrops : r'.drops = r.drops) : Counted points r' := by
  refine ⟨?_, hcounters.points.trans h.guarded, ?_⟩
  · rw [hcounters.iter, hpicks]
    exact h.iter
  · rw [hpicks, hdrops]
    exact h.drops

theorem countP_succ_of_mem {points : List Nat} {n : Nat} (h : n + 1 ∈ points) :
    points.countP (· ≤ n) + 1 ≤ points.countP (· ≤ n + 1) := by
  induction points with
  | nil => cases h
  | cons p points ih =>
      have hrest : points.countP (· ≤ n) ≤ points.countP (· ≤ n + 1) :=
        List.countP_mono_left fun x _ hx =>
          decide_eq_true (Nat.le_succ_of_le (of_decide_eq_true hx))
      rw [List.countP_cons, List.countP_cons]
      rcases List.mem_cons.mp h with rfl | hin
      · simp only [decide_eq_true_eq, Nat.not_succ_le_self, if_false, Nat.le_refl, if_true]
        omega
      · have := ih hin
        by_cases hp : p ≤ n
        · simp only [decide_eq_true_eq, hp, Nat.le_succ_of_le hp, if_true]
          omega
        · simp only [decide_eq_true_eq, hp, if_false]
          omega

/-- What is drawn, step by step. -/
theorem draws_of_same (h : SamePriorities s s') : draws s s' = 0 := if_pos h.2

theorem draws_le (s s' : State) : draws s s' ≤ 1 := by
  unfold draws
  split
  · exact Nat.zero_le 1
  · exact Nat.le_refl 1

theorem Counted.step {points : List Nat} (h : Counted points r) (hbound : r'.Within)
    (hstep : Step r e r') : Counted points r' := by
  cases hstep with
  | park => exact ⟨h.iter, h.guarded, h.drops⟩
  | spawn hcounters => exact h.same hcounters rfl rfl
  | wake => exact ⟨h.iter, h.guarded, h.drops⟩
  | yield hcounters => exact h.same hcounters rfl rfl
  | interrupt => exact ⟨h.iter, h.guarded, h.drops⟩
  | exit => exact ⟨h.iter, h.guarded, h.drops⟩
  | @pick view t s hpicked =>
      have hsmall : r.picks + 1 < 2 ^ 64 - 1 := hbound.2
      have hiter : s.iter = r.picks + 1 := by
        rw [hpicked.iter, h.iter]
        exact Nat.mod_eq_of_lt (by omega)
      refine ⟨hiter, hpicked.points.trans h.guarded, ?_⟩
      change r.drops + draws r.sched s ≤ points.countP (· ≤ r.picks + 1)
      have hdrops := h.drops
      obtain hsame | ⟨a, -, -, hpoint, -⟩ := hpicked.priorities
      · rw [draws_of_same hsame]
        refine Nat.le_trans hdrops (List.countP_mono_left fun x _ hx => ?_)
        exact decide_eq_true (Nat.le_succ_of_le (of_decide_eq_true hx))
      · have hmem : r.picks + 1 ∈ points := by
          rw [h.guarded, hiter] at hpoint
          refine (List.mem_append.mp hpoint).resolve_right fun hguard => ?_
          rw [List.mem_singleton, noChangePoint] at hguard
          omega
        have hmore := countP_succ_of_mem hmem
        have hone := draws_le r.sched s
        omega
  | still _ hstill => exact h.same hstill.counters rfl rfl

theorem drawn_mono (hstep : Step r e r') : r.drawn ≤ r'.drawn ∧ r.picks ≤ r'.picks := by
  cases hstep with
  | spawn | yield => exact ⟨Nat.le_add_right _ _, Nat.le_refl _⟩
  | pick => exact ⟨Nat.le_add_right _ _, Nat.le_succ _⟩
  | _ => exact ⟨Nat.le_refl _, Nat.le_refl _⟩

theorem Within.before (h : r'.Within) (hstep : Step r e r') : r.Within :=
  ⟨Nat.lt_of_le_of_lt (drawn_mono hstep).1 h.1, Nat.lt_of_le_of_lt (drawn_mono hstep).2 h.2⟩

theorem draws_of_demoted {alive : ThreadId → Bool} {drawn : Nat} {t : ThreadId}
    (h : Ranked alive drawn s) (hdrawn : drawn < 2 ^ 31) (hdemoted : Demoted t s s') :
    draws s s' = 1 := by
  refine if_neg fun hsame => ?_
  rw [hdemoted.2, h.next, decrement_eq hdrawn] at hsame
  omega

theorem ranked_step (h : Ranked r.alive r.drawn r.sched) (hbound : r.drawn < 2 ^ 31)
    (hconforms : r.Conforms e) (hstep : Step r e r') :
    Ranked r'.alive r'.drawn r'.sched := by
  have hkept : ∀ t, ∀ u, u ≠ t → Function.update r.alive t true u = true →
      r.alive u = true := fun t u hu hlive => by
    rwa [Function.update_of_ne hu] at hlive
  cases hstep with
  | park => exact h
  | @spawn view t s hcounters hactive hqueue hspawned =>
      change Ranked (Function.update r.alive t true) (r.drawn + draws r.sched s) s
      obtain ⟨p, hp, hpriority, hnext⟩ | hdemoted := hspawned
      · rw [draws, if_pos hnext]
        exact h.assigned hconforms.1 hp hcounters.initial hpriority hnext (hkept t)
      · rw [draws_of_demoted h hbound hdemoted]
        exact h.demoted hbound hcounters.initial hdemoted (hkept t)
  | wake => exact h.congr rfl ⟨rfl, rfl⟩ fun _ hlive => hlive
  | @yield view t s hcounters hactive hqueue hdemoted =>
      change Ranked r.alive (r.drawn + draws r.sched s) s
      rw [draws_of_demoted h hbound hdemoted]
      exact h.demoted hbound hcounters.initial hdemoted fun _ _ hlive => hlive
  | interrupt => exact h.congr rfl ⟨rfl, rfl⟩ fun _ hlive => hlive
  | @exit view t =>
      refine h.congr rfl ⟨rfl, rfl⟩ fun u hlive => ?_
      by_cases hu : u = t
      · rw [hu] at hlive
        dsimp only at hlive
        rw [Function.update_self] at hlive
        cases hlive
      · dsimp only at hlive
        rwa [Function.update_of_ne hu] at hlive
  | @pick view t s hpicked =>
      change Ranked r.alive (r.drawn + draws r.sched s) s
      obtain hsame | ⟨a, -, -, -, hdemoted⟩ := hpicked.priorities
      · rw [draws_of_same hsame]
        exact h.congr hpicked.initial hsame fun _ hlive => hlive
      · rw [draws_of_demoted h hbound hdemoted]
        exact h.demoted hbound hpicked.initial hdemoted fun _ _ hlive => hlive
  | still _ hstill =>
      exact h.congr hstill.counters.initial hstill.priorities fun _ hlive => hlive

/-! ### The discipline -/

/-- What a step does to the priorities of the threads, and which one it picks. -/
structure Disciplined (r : Run) (e : Event) (r' : Run) : Prop where
  held : ∀ view a, e = .call (view, .pickNext) → r.sched.active = some a →
    (view.attrs a).preemptive = false → r'.running = some a
  highest : ∀ view, e = .call (view, .pickNext) →
    (∀ a, r.sched.active = some a → (view.attrs a).preemptive = true) →
    ∃ t ∈ r.sched.runnable, r'.running = some t ∧
      ∀ u ∈ r.sched.runnable, u ≠ t → r'.sched.priority u < r'.sched.priority t
  changes : ∀ t, r.alive t = true → r'.sched.priority t ≠ r.sched.priority t →
    ((∃ view, e = .call (view, .yield t)) ∨
      ∃ view, e = .call (view, .pickNext) ∧ r.sched.active = some t ∧
        (view.attrs t).preemptive = true ∧ r'.sched.iter ∈ r.sched.changePoints.dropLast) ∧
    ∀ u, u ≠ t → r'.alive u = true → r'.sched.priority t < r'.sched.priority u
  queued : ∀ t ∈ r.sched.runQueue, r'.sched.priority t = r.sched.priority t

/-- Whoever is demoted falls below all others. -/
theorem demoted_below {alive : ThreadId → Bool} {drawn : Nat} {t u : ThreadId}
    (h : Ranked alive drawn s) (hdemoted : Demoted t s s') (hu : u ≠ t)
    (hlive : alive u = true) : s'.priority t < s'.priority u := by
  rw [hdemoted.1, Function.update_self, Function.update_of_ne hu]
  exact h.above hlive

/-- A step that picks nobody and changes no priority of the threads alive. -/
theorem Disciplined.same (hpick : ∀ view, e ≠ .call (view, .pickNext))
    (hplaced : r.Placed)
    (hsame : ∀ t, r.alive t = true → r'.sched.priority t = r.sched.priority t) :
    Disciplined r e r' where
  held view _ he := absurd he (hpick view)
  highest view he := absurd he (hpick view)
  changes t ht hne := absurd (hsame t ht) hne
  queued t ht := hsame t (hplaced.live t
    (List.mem_append_right _ (List.mem_append_right _ ht)))

theorem disciplined_of_step {points : List Nat} (hplaced : r.Placed)
    (hranked : Ranked r.alive r.drawn r.sched) (hcounted : Counted points r)
    (hbound : r'.Within) (hconforms : r.Conforms e) (hstep : Step r e r') :
    Disciplined r e r' := by
  have hbefore := hbound.before hstep
  have hranked' := ranked_step hranked hbefore.1 hconforms hstep
  have hcounted' := hcounted.step hbound hstep
  cases hstep with
  | park => exact Disciplined.same nofun hplaced fun _ _ => rfl
  | @spawn view t s hcounters hactive hqueue hspawned =>
      refine Disciplined.same nofun hplaced fun u hu => ?_
      have hut : u ≠ t := fun heq => by
        have hdead : r.alive t = false := hconforms.2
        exact absurd (hdead.symm.trans (heq ▸ hu)) (by decide)
      change s.priority u = r.sched.priority u
      obtain ⟨p, -, hpriority, -⟩ | ⟨hpriority, -⟩ := hspawned
      · rw [hpriority, Function.update_of_ne hut]
      · rw [hpriority, Function.update_of_ne hut]
  | wake => exact Disciplined.same nofun hplaced fun _ _ => rfl
  | @yield view t s hcounters hactive hqueue hdemoted =>
      have hother : ∀ u, u ≠ t → s.priority u = r.sched.priority u := fun u hu => by
        rw [hdemoted.1, Function.update_of_ne hu]
      refine ⟨nofun, nofun, fun u hu hne => ?_, fun u hu => hother u fun heq => ?_⟩
      · obtain rfl : u = t := not_imp_comm.mp (hother u) hne
        exact ⟨Or.inl ⟨view, rfl⟩, fun v hv hlive => demoted_below hranked hdemoted hv hlive⟩
      · have hnodup := hplaced.nodup
        rw [held_of_running hconforms] at hnodup
        exact (List.nodup_cons.mp hnodup).1 (heq ▸ List.mem_append_right _ hu)
  | interrupt => exact Disciplined.same nofun hplaced fun _ _ => rfl
  | exit => exact Disciplined.same nofun hplaced fun _ _ => rfl
  | @pick view t s hpicked =>
      have hlive : ∀ u ∈ r.sched.runnable, r.alive u = true := fun u hu =>
        hplaced.live u (List.mem_append_right _ hu)
      have hmem : ∀ u, u = t ∨ u ∈ s.runQueue → u ∈ r.sched.runnable := fun u hu =>
        hpicked.perm.mem_iff.mpr (List.mem_cons.mpr hu)
      refine ⟨fun view' a he ha hoff => ?_, fun view' he hon => ?_, fun u hu hne => ?_,
        fun u hu => ?_⟩
      · cases he
        exact congrArg some (hpicked.held a ha hoff)
      · cases he
        refine ⟨t, hmem t (Or.inl rfl), rfl, fun u hu hut => ?_⟩
        -- The greatest is strictly the greatest, since no two are the same.
        refine lt_of_le_of_ne (hpicked.highest hon u hu) fun heq => hut ?_
        exact hranked'.distinct u t (hlive u hu) (hlive t (hmem t (Or.inl rfl))) heq
      · obtain hsame | ⟨a, hactive, hon, hpoint, hdemoted⟩ := hpicked.priorities
        · exact absurd (congrFun hsame.1 u) hne
        · have hua : u = a := by
            by_contra hua
            refine hne ?_
            change s.priority u = _
            rw [hdemoted.1, Function.update_of_ne hua]
          subst hua
          refine ⟨Or.inr ⟨view, rfl, hactive, hon, ?_⟩, fun v hv hlive =>
            demoted_below hranked hdemoted hv hlive⟩
          rw [hcounted.guarded] at hpoint ⊢
          rw [List.dropLast_concat]
          refine (List.mem_append.mp hpoint).resolve_right fun hguard => ?_
          have hiter : s.iter = r.picks + 1 := hcounted'.iter
          have hsmall : r.picks + 1 < 2 ^ 64 - 1 := hbound.2
          rw [List.mem_singleton, noChangePoint] at hguard
          omega
      · change s.priority u = _
        obtain hsame | ⟨a, hactive, -, -, hdemoted⟩ := hpicked.priorities
        · rw [hsame.1]
        · have hua : u ≠ a := fun heq => by
            have hnodup := (List.nodup_append'.mp hplaced.nodup).2.1
            rw [State.runnable, hactive] at hnodup
            exact (List.nodup_cons.mp hnodup).1 (heq ▸ hu)
          rw [hdemoted.1, Function.update_of_ne hua]
  | @still call s hhands hstill =>
      refine Disciplined.same (fun view heq => ?_) hplaced fun u _ => ?_
      · cases heq
        cases hhands
      · exact congrFun hstill.priorities.1 u

/-- What holds of every run within the bounds. -/
theorem reach_ranked {points : List Nat} (hinitial : Initial s.initPrior)
    (hnext : s.nextPrior = 0) (hiter : s.iter = 0) (hrunnable : s.runnable = [])
    (hpoints : s.changePoints = points ++ [noChangePoint])
    (h : Reach (next params fuel) Conforms (Run.new s) r) :
    r.Placed ∧ (r.Within → Counted points r ∧ Ranked r.alive r.drawn r.sched) := by
  have hplaced : (Run.new s).Placed := by
    have hheld : (Run.new s).held = [] := hrunnable
    refine ⟨?_, fun t ht => ?_, nofun⟩
    · rw [hheld]
      exact List.nodup_nil
    · rw [hheld] at ht
      cases ht
  refine @Reach.invariant _ _ _ _ _
    (fun r => r.Placed ∧ (r.Within → Counted points r ∧ Ranked r.alive r.drawn r.sched)) _ h
    ⟨hplaced, fun _ => ⟨⟨hiter, hpoints, Nat.zero_le _⟩, hinitial, hnext, nofun, nofun⟩⟩ ?_
  · rintro r e r' ⟨hplaced, hrest⟩ hconforms hr'
    have hstep := step_of_next hconforms hr'
    refine ⟨hplaced.step hconforms hstep, fun hbound => ?_⟩
    have hbefore := hbound.before hstep
    obtain ⟨hcounted, hranked⟩ := hrest hbefore
    exact ⟨hcounted.step hbound hstep, ranked_step hranked hbefore.1 hconforms hstep⟩

/-- While fewer than 2^31 priorities are drawn and fewer than 2^64 - 1 iterations
made, the threads alive have different priorities, `PickNext` takes the one that is
highest, and at most `depth - 1` (a `size_t`) drops happen at change points. -/
theorem priorities_respected {seed : UInt64}
    (hs : Reach (Pct.next params) (fun _ _ => True) (State.new seed) s)
    (hstart : start params fuel s = .ok s')
    (h : Reach (next params fuel) Conforms (Run.new s') r) (hbound : r.Within) :
    (∀ t u, r.alive t = true → r.alive u = true →
        r.sched.priority t = r.sched.priority u → t = u) ∧
      r.drops ≤ (params.depth + noChangePoint) % 2 ^ 64 ∧
      (∀ view, r.Conforms (.call (view, .pickNext)) →
        (next params fuel r (.call (view, .pickNext))).isSome = true) ∧
      ∀ e r', r.Conforms e → next params fuel r e = some r' → r'.Within →
        Disciplined r e r' := by
  have hsteps : 0 < s.estimates.steps := Nat.lt_of_lt_of_le (by decide) (reach_guarded hs).steps
  obtain ⟨points, hpoints, hlength⟩ := start_points hstart hsteps
  obtain ⟨hinitial, hnext, hiter, hqueue, hactive⟩ := start_counters hstart
  have hrunnable : s'.runnable = [] := by
    rw [State.runnable, hqueue, hactive]
    rfl
  obtain ⟨hplaced, hrest⟩ := reach_ranked hinitial hnext hiter hrunnable hpoints h
  obtain ⟨hcounted, hranked⟩ := hrest hbound
  refine ⟨hranked.distinct, ?_, fun view hconforms => ?_, fun e r' hconforms hr' hr'bound =>
    disciplined_of_step hplaced hranked hcounted hr'bound hconforms
      (step_of_next hconforms hr')⟩
  · rw [← hlength]
    exact Nat.le_trans hcounted.drops List.countP_le_length
  · obtain ⟨t, s₁, hpick, -⟩ := @pickNext_picked r.sched view hconforms.2
    have hexec : (scheduler params fuel).exec (view, .pickNext) r.sched = .ok (.ok t, s₁) :=
      hpick
    rw [next, hexec]
    rfl

/-- Two threads; the first one is interrupted, and goes on. -/
def twoThreads : List Event :=
  [.call (idleView, .spawn 1), .call (idleView, .pickNext), .call (idleView, .spawn 2),
    .call (idleView, .interrupt 1), .call (idleView, .pickNext),
    .call (idleView, .yield 1), .call (idleView, .pickNext)]

theorem priorities_respected_two :
    ∃ r : Run, r.alive 1 = true ∧ r.alive 2 = true ∧
      r.sched.priority 1 ≠ r.sched.priority 2 ∧ r.drops ≤ 2 := by
  have hrun : (((start ⟨3, none⟩ 100 (State.new 7)).toOption.bind fun s =>
      runEvents (next ⟨3, none⟩ 100) Conforms twoThreads (Run.new s)).any fun r =>
        decide (r.alive 1 = true ∧ r.alive 2 = true ∧ r.drawn < 3 ∧ r.picks < 4)) = true := by
    decide +kernel
  obtain ⟨r, hsome, htrue⟩ := Option.any_eq_true _ _ |>.mp hrun
  obtain ⟨s', hs', hevents⟩ := Option.bind_eq_some_iff.mp hsome
  obtain ⟨hone, htwo, hdrawn, hpicks⟩ := of_decide_eq_true htrue
  have hstart : start ⟨3, none⟩ 100 (State.new 7) = .ok s' := by
    cases hresult : start ⟨3, none⟩ 100 (State.new 7) with
    | error e =>
        rw [hresult] at hs'
        cases hs'
    | ok s₁ =>
        rw [hresult] at hs'
        cases hs'
        rfl
  obtain ⟨hdistinct, hdrops, -, -⟩ := priorities_respected Reach.start hstart
    (reach_of_run Reach.start hevents) ⟨by omega, by omega⟩
  exact ⟨r, hone, htwo, fun heq => absurd (hdistinct 1 2 hone htwo heq) (by decide), hdrops⟩

/-! ### The guard as a change point -/

/-- Thread 1 runs alone, `n` iterations have been made, and none of them is a change
point. -/
structure Alone (n : Nat) (r : Run) : Prop where
  points : r.sched.changePoints = [noChangePoint]
  index : r.sched.nextChangePoint = 0
  queue : r.sched.runQueue = []
  iter : r.sched.iter = n
  nextPrior : r.sched.nextPrior = 0
  running : r.running = some 1
  drawn : r.drawn = 0
  drops : r.drops = 0

theorem skip_guard (hpoints : s.changePoints = [noChangePoint]) (hindex : s.nextChangePoint = 0)
    (hiter : s.iter ≤ noChangePoint) : skipChangePoints s = s := by
  have hnone : (s.changePoints.drop s.nextChangePoint).takeWhile (· < s.iter) = [] := by
    rw [hpoints, hindex, List.drop_zero, List.takeWhile_cons,
      decide_eq_false (Nat.not_lt.mpr hiter)]
    rfl
  rw [skipChangePoints, hnone]
  rfl

theorem preempt_alone (hpoints : s.changePoints = [noChangePoint])
    (hindex : s.nextChangePoint = 0) (hqueue : s.runQueue = [])
    (hiter : s.iter ≤ noChangePoint) :
    preempt idleView 1 s =
      if s.iter = noChangePoint then (true, demote 1 s) else (false, s) := by
  have hpoint : s.changePoints[s.nextChangePoint]? = some noChangePoint := by
    rw [hpoints, hindex]
    rfl
  have hon : (!(idleView.attrs 1).preemptive) = false := rfl
  rw [preempt, hon, if_neg Bool.false_ne_true, skip_guard hpoints hindex hiter]
  dsimp only
  rw [hpoint, hqueue]
  by_cases hguard : s.iter = noChangePoint
  · rw [if_pos (congrArg some hguard.symm), if_pos hguard]
  · rw [if_neg fun heq => hguard (Option.some.inj heq).symm, if_neg hguard]
    rfl

theorem pickNext_alone (hactive : s.active = some 1)
    (hpoints : s.changePoints = [noChangePoint]) (hindex : s.nextChangePoint = 0)
    (hqueue : s.runQueue = []) (hiter : (s.iter + 1) % 2 ^ 64 ≤ noChangePoint) :
    pickNext idleView s =
      if (s.iter + 1) % 2 ^ 64 = noChangePoint then
        popMaxPriority (enqueue 1 (demote 1 (counted s)))
      else .ok (.ok 1, counted s) := by
  have hpreempt := @preempt_alone (counted s) hpoints hindex hqueue hiter
  have hcounted : (counted s).iter = (s.iter + 1) % 2 ^ 64 := rfl
  rw [hcounted] at hpreempt
  rw [pickNext_eq, hactive]
  dsimp only
  rw [hpreempt]
  by_cases hguard : (s.iter + 1) % 2 ^ 64 = noChangePoint
  · rw [if_pos hguard, if_pos hguard]
  · rw [if_neg hguard, if_neg hguard]

/-- The thread is interrupted. -/
def waiting (r : Run) : Run :=
  { r with sched := { r.sched with active := some 1 }, running := none }

section Again

variable {n : Nat}

theorem Alone.waiting (hr : r.Alone n)
    (h : Reach (next params fuel) Conforms (Run.new s) r) :
    Reach (next params fuel) Conforms (Run.new s) r.waiting := by
  have hconforms : r.Conforms (.call (idleView, .interrupt 1)) := hr.running
  exact h.step hconforms rfl

/-- Before the guard, the thread is picked again. -/
theorem Alone.again (hr : r.Alone n) (hlt : n + 1 < noChangePoint)
    (h : Reach (next params fuel) Conforms (Run.new s) r) :
    ∃ r', Reach (next params fuel) Conforms (Run.new s) r' ∧ r'.Alone (n + 1) := by
  have hmod : (r.sched.iter + 1) % 2 ^ 64 = n + 1 := by
    rw [hr.iter]
    unfold noChangePoint at hlt
    exact Nat.mod_eq_of_lt (by omega)
  have hpick := @pickNext_alone r.waiting.sched rfl hr.points hr.index hr.queue
    (hmod.trans_le (Nat.le_of_lt hlt))
  have hne : ¬ (r.waiting.sched.iter + 1) % 2 ^ 64 = noChangePoint := fun heq =>
    absurd (hmod.symm.trans heq) (Nat.ne_of_lt hlt)
  rw [if_neg hne] at hpick
  have hexec : (scheduler params fuel).exec (idleView, .pickNext) r.waiting.sched =
      .ok (.ok 1, counted r.waiting.sched) := hpick
  have hnext : next params fuel r.waiting (.call (idleView, .pickNext)) =
      some (r.waiting.after (counted r.waiting.sched) (idleView, .pickNext) (.ok 1)) := by
    rw [next, hexec]
    rfl
  have hconforms : r.waiting.Conforms (.call (idleView, .pickNext)) := ⟨rfl, nofun⟩
  have hdraws : draws r.waiting.sched (counted r.waiting.sched) = 0 := if_pos rfl
  refine ⟨_, (hr.waiting h).step hconforms hnext, hr.points, hr.index, hr.queue, hmod,
    hr.nextPrior, rfl, ?_, ?_⟩
  · change r.drawn + draws r.waiting.sched (counted r.waiting.sched) = 0
    rw [hdraws, hr.drawn]
  · change r.drops + draws r.waiting.sched (counted r.waiting.sched) = 0
    rw [hdraws, hr.drops]

/-- At the guard, its priority changes. -/
theorem Alone.dropped (hr : r.Alone n) (heq : n + 1 = noChangePoint)
    (h : Reach (next params fuel) Conforms (Run.new s) r) :
    ∃ r', Reach (next params fuel) Conforms (Run.new s) r' ∧ r'.drops = 1 ∧ r'.drawn = 1 := by
  have hmod : (r.sched.iter + 1) % 2 ^ 64 = noChangePoint := by
    rw [hr.iter, heq]
    rfl
  have hpick := @pickNext_alone r.waiting.sched rfl hr.points hr.index hr.queue
    (Nat.le_of_eq hmod)
  rw [if_pos (show (r.waiting.sched.iter + 1) % 2 ^ 64 = noChangePoint from hmod)] at hpick
  generalize hdemoted : enqueue 1 (demote 1 (counted r.waiting.sched)) = demoted at hpick
  have hqueue : demoted.runQueue = [1] := by
    rw [← hdemoted]
    change r.sched.runQueue ++ [1] = [1]
    rw [hr.queue]
    rfl
  have hprior : demoted.nextPrior = decrement r.sched.nextPrior := by
    rw [← hdemoted]
    rfl
  have hpop : popMaxPriority demoted =
      .ok (.ok 1, { demoted with runQueue := demoted.runQueue.erase 1 }) := by
    rw [popMaxPriority, hqueue]
    rfl
  have hexec : (scheduler params fuel).exec (idleView, .pickNext) r.waiting.sched =
      .ok (.ok 1, { demoted with runQueue := demoted.runQueue.erase 1 }) := hpick.trans hpop
  have hnext : next params fuel r.waiting (.call (idleView, .pickNext)) =
      some (r.waiting.after { demoted with runQueue := demoted.runQueue.erase 1 }
        (idleView, .pickNext) (.ok 1)) := by
    rw [next, hexec]
    rfl
  have hconforms : r.waiting.Conforms (.call (idleView, .pickNext)) := ⟨rfl, fun hnil => by cases hnil⟩
  have hdraws : draws r.waiting.sched
      { demoted with runQueue := demoted.runQueue.erase 1 } = 1 := by
    refine if_neg fun hsame => ?_
    change demoted.nextPrior = r.sched.nextPrior at hsame
    rw [hprior, hr.nextPrior] at hsame
    exact absurd hsame (by decide)
  refine ⟨_, (hr.waiting h).step hconforms hnext, ?_, ?_⟩
  · change r.drops + draws r.waiting.sched _ = 1
    rw [hdraws, hr.drops]
  · change r.drawn + draws r.waiting.sched _ = 1
    rw [hdraws, hr.drawn]

/-- The thread runs alone for as long as it likes. -/
theorem Alone.long (hr : r.Alone 1) (h : Reach (next params fuel) Conforms (Run.new s) r)
    (hn : n + 1 < noChangePoint) :
    ∃ r', Reach (next params fuel) Conforms (Run.new s) r' ∧ r'.Alone (n + 1) := by
  induction n with
  | zero => exact ⟨r, h, hr⟩
  | succ n ih =>
      obtain ⟨r₁, hreach, halone⟩ := ih (by omega)
      exact halone.again hn hreach

end Again

/-- Depth 1 leaves no change points, yet in iteration 2^64 - 1 the guard is one. -/
theorem guard_drops : ¬ ∀ (params : Params) (fuel : Nat) (seed : UInt64) (s s' : State) (r : Run),
    Reach (Pct.next params) (fun _ _ => True) (State.new seed) s →
    start params fuel s = .ok s' → Reach (next params fuel) Conforms (Run.new s') r →
    r.drawn < 2 ^ 31 → r.drops ≤ (params.depth + noChangePoint) % 2 ^ 64 := by
  intro hclaim
  obtain ⟨s', hstart⟩ : ∃ s', start ⟨1, none⟩ 1 (State.new 42) = .ok s' := ⟨_, rfl⟩
  have halone : ∃ r, Reach (next ⟨1, none⟩ 1) Conforms (Run.new s') r ∧ r.Alone 1 := by
    cases hstart
    exact ⟨_, (Reach.start.step (e := .call (idleView, .spawn 1)) ⟨Nat.le_refl 1, rfl⟩ rfl).step
      (e := .call (idleView, .pickNext)) ⟨rfl, nofun⟩ rfl,
      ⟨rfl, rfl, rfl, rfl, rfl, rfl, rfl, rfl⟩⟩
  obtain ⟨r₁, hreach₁, halone₁⟩ := halone
  obtain ⟨r₂, hreach₂, halone₂⟩ := halone₁.long hreach₁ (n := noChangePoint - 2) (by decide)
  obtain ⟨r, hreach, hdrops, hdrawn⟩ := halone₂.dropped (by decide) hreach₂
  have hle := hclaim ⟨1, none⟩ 1 42 (State.new 42) s' r Reach.start hstart hreach
    (by rw [hdrawn]; decide)
  rw [hdrops] at hle
  exact absurd hle (by decide)

end Run

end Pct

end TwistSim

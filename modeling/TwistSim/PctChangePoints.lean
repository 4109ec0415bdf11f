/-
The change points of the scheduler of probabilistic concurrency testing: when they
can be generated, and where the index into them may be.
-/
import TwistSim.Runs
import TwistSim.Rejection
import TwistSim.PctScheduler
import Mathlib.Data.List.TakeWhile

namespace TwistSim

namespace Pct

open Rejection

/-- `GenerateChangePoints` with any generator; `depth - 1` is computed in `size_t`. -/
def generateChangePoints {G : Type} (next : G → Nat × G) (length depth fuel : Nat)
    (g : G) : Option (List Nat × G) :=
  (collect next length ((depth + noChangePoint) % 2 ^ 64) fuel [] g).map
    fun (points, g) => (points ++ [noChangePoint], g)

theorem drawChangePoints_eq (length count fuel : Nat) (points : List Nat)
    (random : WyRand) :
    drawChangePoints length count fuel points random =
      collect WyRand.next length count fuel points random := by
  induction fuel generalizing points random with
  | zero => rfl
  | succ fuel ih =>
      rw [drawChangePoints, collect]
      split
      · rfl
      · exact ih _ _

variable {params : Params} {fuel : Nat} {s s' : State}

/-- `Start` loops for ever if the change points cannot be generated. -/
theorem start_generates (h : start params fuel s = .ok s') :
    ∃ random, generateChangePoints WyRand.next s.estimates.steps params.depth fuel
      (generateInitPriorities s.estimates.threads s.seed).2 =
        some (s'.changePoints, random) := by
  unfold start at h
  dsimp only at h
  rw [drawChangePoints_eq] at h
  unfold generateChangePoints
  cases hcollect : collect WyRand.next s.estimates.steps
      ((params.depth + noChangePoint) % 2 ^ 64) fuel []
      (generateInitPriorities s.estimates.threads s.seed).2 with
  | none =>
      rw [hcollect] at h
      cases h
  | some result =>
      rw [hcollect] at h
      dsimp only at h
      split at h
      · cases h
        exact ⟨_, rfl⟩
      · cases h

/-- What is expected of `GenerateChangePoints` when `Start` is called: a way out of
the loop, which a fair generator takes, and points in order before the guard. -/
structure State.Generates (params : Params) (s : State) : Prop where
  exit : ∃ (G : Type) (next : G → Nat × G) (g : G) (fuel : Nat),
    (generateChangePoints next s.estimates.steps params.depth fuel g).isSome = true
  fair : ∀ (G : Type) (next : G → Nat × G) (g : G), Fair next s.estimates.steps →
    ∃ fuel, (generateChangePoints next s.estimates.steps params.depth fuel g).isSome = true
  shape : ∀ (G : Type) (next : G → Nat × G) (g g' : G) (fuel : Nat) (list : List Nat),
    generateChangePoints next s.estimates.steps params.depth fuel g = some (list, g') →
    ∃ points, list = points ++ [noChangePoint] ∧ points.length = params.depth - 1 ∧
      points.Pairwise (· < ·) ∧ ∀ p ∈ points, 1 ≤ p ∧ p ≤ s.estimates.steps

theorem pointCount_eq (hdepth : 1 ≤ params.depth) (hsize : params.depth < 2 ^ 64) :
    (params.depth + noChangePoint) % 2 ^ 64 = params.depth - 1 := by
  unfold noChangePoint
  omega

theorem generates_iff (hdepth : 1 ≤ params.depth) (hsize : params.depth < 2 ^ 64)
    (hsteps : 0 < s.estimates.steps) :
    s.Generates params ↔ params.depth - 1 ≤ s.estimates.steps := by
  have hcount := pointCount_eq hdepth hsize
  constructor
  · rintro ⟨⟨G, next, g, fuel, hsome⟩, -, -⟩
    rw [generateChangePoints, hcount, Option.isSome_map] at hsome
    exact count_le_of_collect hsteps hsome
  · intro hle
    have hfair : ∀ (G : Type) (next : G → Nat × G) (g : G), Fair next s.estimates.steps →
        ∃ fuel, (generateChangePoints next s.estimates.steps params.depth fuel g).isSome =
          true := by
      intro G next g hfair
      obtain ⟨fuel, hsome⟩ := collect_terminates hfair hle Distinct.nil g
      refine ⟨fuel, ?_⟩
      rwa [generateChangePoints, hcount, Option.isSome_map]
    refine ⟨?_, hfair, fun G next g g' fuel list h => ?_⟩
    · -- Counting is fair.
      obtain ⟨fuel, hsome⟩ := hfair Nat (fun n => (n, n + 1)) 0 fun n r hr => by
        have hiterate : ∀ k, (fun n => n + 1)^[k] n = n + k := by
          intro k
          induction k with
          | zero => rfl
          | succ k ih => rw [Function.iterate_succ_apply', ih, Nat.add_assoc]
        refine ⟨r + s.estimates.steps * (n + 1) - n, ?_⟩
        have hpos : n ≤ s.estimates.steps * (n + 1) :=
          Nat.le_trans (Nat.le_succ n) (Nat.le_mul_of_pos_left _ hsteps)
        rw [hiterate, Nat.add_sub_cancel' (by omega), Nat.add_mul_mod_self_left]
        exact Nat.mod_eq_of_lt hr
      exact ⟨Nat, _, 0, fuel, hsome⟩
    · rw [generateChangePoints, hcount] at h
      obtain ⟨⟨points, g''⟩, hcollect, heq⟩ := Option.map_eq_some_iff.mp h
      cases heq
      obtain ⟨hdistinct, hlength⟩ :=
        collect_spec hsteps Distinct.nil (Nat.zero_le _) hcollect
      exact ⟨points, rfl, hlength, hdistinct.sorted, hdistinct.range⟩

/-! ### Runs -/

/-- Calls of the scheduler, in any order, over any number of runs. -/
inductive Event where
  | nextSchedule
  | call (call : Call) (fuel : Nat)

def next (params : Params) (s : State) : Event → Option State
  | .nextSchedule => some (nextSchedule params s).2
  | .call call fuel => ((scheduler params fuel).exec call s).toOption.map Prod.snd

/-- The counters are in range, and the guard is ahead of the index. -/
structure State.Guarded (s : State) : Prop where
  iter : s.iter < 2 ^ 64
  steps : 7 ≤ s.estimates.steps
  index : s.changePoints = [] ∨
    s.nextChangePoint < s.changePoints.length ∧ s.changePoints.getLast? = some noChangePoint

theorem State.Guarded.new (seed : UInt64) : (State.new seed).Guarded :=
  ⟨Nat.two_pow_pos 64, Nat.le_refl 7, Or.inl rfl⟩

/-- Nothing that the guard depends on changes. -/
def SamePoints (s s' : State) : Prop :=
  s'.iter = s.iter ∧ s.estimates.steps ≤ s'.estimates.steps ∧
    s'.changePoints = s.changePoints ∧ s'.nextChangePoint = s.nextChangePoint

theorem SamePoints.guarded (h : SamePoints s s') (hs : s.Guarded) : s'.Guarded := by
  obtain ⟨hiter, hsteps, hpoints, hnext⟩ := h
  refine ⟨hiter ▸ hs.iter, Nat.le_trans hs.steps hsteps, ?_⟩
  rw [hpoints, hnext]
  exact hs.index

/-- The loop that skips change points stops at the guard. -/
theorem skipChangePoints_guarded (h : s.Guarded) : (skipChangePoints s).Guarded := by
  refine ⟨h.iter, h.steps, ?_⟩
  rcases h.index with hnone | ⟨hlt, hlast⟩
  · exact Or.inl hnone
  · refine Or.inr ⟨?_, hlast⟩
    change s.nextChangePoint + ((s.changePoints.drop s.nextChangePoint).takeWhile
      (· < s.iter)).length < s.changePoints.length
    have hguard : noChangePoint ∈ s.changePoints.drop s.nextChangePoint := by
      refine List.mem_of_getLast? ?_
      rw [List.getLast?_drop, if_neg (Nat.not_le.mpr hlt)]
      exact hlast
    have hinit := List.takeWhile_prefix (l := s.changePoints.drop s.nextChangePoint)
      (p := (· < s.iter))
    have hshort : ((s.changePoints.drop s.nextChangePoint).takeWhile
        (· < s.iter)).length < (s.changePoints.drop s.nextChangePoint).length := by
      refine Nat.lt_of_le_of_ne hinit.length_le fun heq => ?_
      have hall := List.takeWhile_eq_self_iff.mp (hinit.eq_of_length heq)
      have hless := of_decide_eq_true (hall noChangePoint hguard)
      have hsmall := h.iter
      unfold noChangePoint at hless
      omega
    rw [List.length_drop] at hshort
    omega

theorem demote_points (t : ThreadId) (s : State) : SamePoints s (demote t s) :=
  ⟨rfl, Nat.le_refl _, rfl, rfl⟩

theorem enqueue_points (t : ThreadId) (s : State) : SamePoints s (enqueue t s) :=
  ⟨rfl, Nat.le_refl _, rfl, rfl⟩

theorem reseeded_points (s : State) (random : WyRand) :
    SamePoints s { s with random } :=
  ⟨rfl, Nat.le_refl _, rfl, rfl⟩

theorem randomNumber_points (s : State) : SamePoints s (randomNumber s).2 :=
  reseeded_points s _

theorem popMaxPriority_points {r : Except String ThreadId}
    (h : popMaxPriority s = .ok (r, s')) : SamePoints s s' := by
  unfold popMaxPriority at h
  split at h
  · cases h
    exact ⟨rfl, Nat.le_refl _, rfl, rfl⟩
  · cases h

theorem preempt_guarded {view : KernelView} {active : ThreadId} (hs : s.Guarded) :
    (preempt view active s).2.Guarded := by
  unfold preempt
  split
  · exact hs
  · dsimp only
    split
    · exact (demote_points active _).guarded (skipChangePoints_guarded hs)
    · split
      · exact skipChangePoints_guarded hs
      · exact skipChangePoints_guarded hs

theorem pickNext_guarded {view : KernelView} {r : Except String ThreadId}
    (hs : s.Guarded) (h : pickNext view s = .ok (r, s')) : s'.Guarded := by
  unfold pickNext at h
  dsimp only at h
  generalize hcounted : ({ s with
    active := none
    iter := (s.iter + 1) % 2 ^ 64
    estimates := { s.estimates with
      steps := max s.estimates.steps ((s.iter + 1) % 2 ^ 64) } } : State) = counted at h
  have hguarded : counted.Guarded := by
    rw [← hcounted]
    exact ⟨Nat.mod_lt _ (Nat.two_pow_pos 64), Nat.le_trans hs.steps (Nat.le_max_left _ _),
      hs.index⟩
  split at h
  · exact (popMaxPriority_points h).guarded hguarded
  · rename_i active _
    have hpreempt := @preempt_guarded counted view active hguarded
    split at h
    · rename_i s₁ heq
      rw [heq] at hpreempt
      cases h
      exact hpreempt
    · rename_i s₁ heq
      rw [heq] at hpreempt
      exact (popMaxPriority_points h).guarded ((enqueue_points active s₁).guarded hpreempt)

theorem start_guarded (hs : s.Guarded) (h : start params fuel s = .ok s') :
    s'.Guarded := by
  obtain ⟨random, hgenerate⟩ := start_generates h
  obtain ⟨⟨points, g⟩, -, heq⟩ := Option.map_eq_some_iff.mp hgenerate
  have hpoints : s'.changePoints = points ++ [noChangePoint] := (congrArg Prod.fst heq).symm
  have hrest : s'.iter = 0 ∧ s'.estimates = s.estimates ∧ s'.nextChangePoint = 0 := by
    unfold start at h
    dsimp only at h
    split at h
    · cases h
    · split at h
      · cases h
        exact ⟨rfl, rfl, rfl⟩
      · cases h
  obtain ⟨hiter, hestimates, hindex⟩ := hrest
  refine ⟨?_, hestimates ▸ hs.steps, Or.inr ⟨?_, ?_⟩⟩
  · rw [hiter]
    exact Nat.two_pow_pos 64
  · rw [hindex, hpoints, List.length_append]
    exact Nat.succ_pos _
  · rw [hpoints, List.getLast?_append]
    rfl

theorem exec_guarded {call : Call} {r : call.Reply} (hs : s.Guarded)
    (h : (scheduler params fuel).exec call s = .ok (r, s')) : s'.Guarded := by
  obtain ⟨view, q⟩ := call
  have hsame : SamePoints s s' → s'.Guarded := fun hsame => hsame.guarded hs
  cases q with
  | start =>
      obtain ⟨s₁, hstart, heq⟩ := map_eq_ok h
      cases heq
      exact start_guarded hs hstart
  | pickNext => exact pickNext_guarded hs h
  | switchTo t next => cases h
  | spawn t =>
      cases h
      refine hsame ?_
      unfold spawn
      split
      · exact ⟨rfl, Nat.le_refl _, rfl, rfl⟩
      · exact ⟨rfl, Nat.le_refl _, rfl, rfl⟩
  | queuePush q t =>
      obtain ⟨waitLists, -, heq⟩ := map_eq_ok h
      cases heq
      exact hsame ⟨rfl, Nat.le_refl _, rfl, rfl⟩
  | randomNumber =>
      have hs' : (randomNumber s).2 = s' := congrArg Prod.snd (Except.ok.inj h)
      exact hsame (hs' ▸ randomNumber_points s)
  | randomChoice alts =>
      have hs' : (randomNumber s).2 = s' := congrArg Prod.snd (Except.ok.inj h)
      exact hsame (hs' ▸ randomNumber_points s)
  | _ =>
      cases h
      exact hsame ⟨rfl, Nat.le_refl _, rfl, rfl⟩

theorem reach_guarded {seed : UInt64}
    (h : Reach (next params) (fun _ _ => True) (State.new seed) s) : s.Guarded := by
  refine h.invariant (State.Guarded.new seed) fun s e s' hs _ hnext => ?_
  cases e with
  | nextSchedule =>
      cases hnext
      unfold nextSchedule
      split
      · exact hs
      · exact ⟨hs.iter, hs.steps, hs.index⟩
  | call call fuel =>
      obtain ⟨⟨r, s₁⟩, hexec, rfl⟩ := Option.map_eq_some_iff.mp hnext
      refine @exec_guarded params fuel s s₁ call r hs ?_
      cases hcall : (scheduler params fuel).exec call s with
      | error e =>
          rw [hcall] at hexec
          cases hexec
      | ok result =>
          rw [hcall] at hexec
          cases hexec
          rfl

/-- Change points can be generated in a reachable state exactly if the estimated
number of steps leaves room for them; the index never passes the guard. -/
theorem changePoints_generated {seed : UInt64} (hdepth : 1 ≤ params.depth)
    (hsize : params.depth < 2 ^ 64)
    (h : Reach (next params) (fun _ _ => True) (State.new seed) s) :
    (s.Generates params ↔ params.depth - 1 ≤ s.estimates.steps) ∧
      (s.changePoints ≠ [] → s.nextChangePoint < s.changePoints.length ∧
        s.changePoints.getLast? = some noChangePoint) := by
  have hguarded := reach_guarded h
  refine ⟨generates_iff hdepth hsize (Nat.lt_of_lt_of_le (by decide) hguarded.steps),
    fun hsome => hguarded.index.resolve_left hsome⟩

/-- A kernel in which nothing has happened. -/
def idleView : KernelView := ⟨0, fun _ => ⟨true, false⟩, fun _ => none, fun _ => true⟩

theorem changePoints_generated_three :
    ∃ s, Reach (next ⟨3, none⟩) (fun _ _ => True) (State.new 7) s ∧
      s.changePoints.length = 3 ∧ s.Generates ⟨3, none⟩ ∧ s.nextChangePoint < 3 := by
  obtain ⟨s, hreach, hlength⟩ := @exists_reach _ _ (next ⟨3, none⟩) (fun _ _ => True)
    (State.new 7) _ [.call (idleView, .start) 100]
    (fun s => s.changePoints.length = 3) _ (by decide +kernel)
  have hcorrect := @changePoints_generated ⟨3, none⟩ s 7 (by decide) (by decide) hreach
  have hsteps := (reach_guarded hreach).steps
  refine ⟨s, hreach, hlength, hcorrect.1.mpr (Nat.le_trans (by decide) hsteps), ?_⟩
  rw [← hlength]
  exact (hcorrect.2 fun hnone => by rw [hnone] at hlength; cases hlength).1

/-- Depth 9 wants eight change points in the seven steps of the first run. -/
theorem changePoints_missing : ¬ (State.new 42).Generates ⟨9, none⟩ := by
  intro hgenerates
  exact absurd ((generates_iff (by decide) (by decide) (by decide)).mp hgenerates) (by decide)

end Pct

end TwistSim

/-
Debugger mode: a simulation that is started, run for some iterations at a time, and
drained at last.
-/
import TwistSim.Pace
import TwistSim.Restart
import TwistSim.Turns

namespace TwistSim

/-! ### The same program with another result -/

namespace Effect

open Interaction

variable {Q : Type} {R : Q → Type} {S E α β γ : Type}

def map (g : α → β) (m : Effect Q R S E α) : Effect Q R S E β := fun s =>
  (m s).bind fun
    | (.ok x, s) => .ret (.ok (g x), s)
    | (.error e, s) => .ret (.error e, s)

theorem map_bind (g : β → γ) (m : Effect Q R S E α) (f : α → Effect Q R S E β) :
    map g (m >>= f) = m >>= fun x => map g (f x) := by
  funext s
  refine (bind_assoc (m s) _ _).trans (congrArg _ (funext fun r => ?_))
  obtain ⟨x | x, s'⟩ := r
  · rfl
  · rfl

theorem bind_map (g : α → β) (m : Effect Q R S E α) (f : β → Effect Q R S E γ) :
    map g m >>= f = m >>= fun x => f (g x) := by
  funext s
  refine (bind_assoc (m s) _ _).trans (congrArg _ (funext fun r => ?_))
  obtain ⟨x | x, s'⟩ := r
  · rfl
  · rfl

theorem map_handle (g : α → β) (m : Effect Q R S E α)
    (handler : E → Effect Q R S E α) :
    map g (m.handle handler) = (map g m).handle fun e => map g (handler e) := by
  funext s
  refine (bind_assoc (m s) _ _).trans (Eq.trans ?_ (bind_assoc (m s) _ _).symm)
  refine congrArg _ (funext fun r => ?_)
  obtain ⟨x | x, s'⟩ := r
  · rfl
  · rfl

theorem interp_map {σ ε : Type} {h : (q : Q) → σ → Except ε (R q × σ)} (g : α → β)
    (m : Effect Q R S E α) (s : S) (a : σ) :
    (map g m s).interp h a =
      ((m s).interp h a).map fun ((r, s'), a') => ((r.map g, s'), a') := by
  rw [map, interp_bind]
  cases (m s).interp h a with
  | error e => rfl
  | ok result =>
      obtain ⟨⟨x | x, s'⟩, a'⟩ := result
      · rfl
      · rfl

/-- A sequence goes on where its first part has returned. -/
theorem interp_then {σ ε : Type} {h : (q : Q) → σ → Except ε (R q × σ)}
    {m : Effect Q R S E α} {f : α → Effect Q R S E β} {s s' : S} {a a' : σ} {x : α}
    (hm : (m s).interp h a = .ok ((.ok x, s'), a')) :
    ((m >>= f) s).interp h a = (f x s').interp h a' := by
  have hbind : (m >>= f) s = (m s).bind fun r =>
      match r with
      | (.ok x, s) => f x s
      | (.error e, s) => .ret (.error e, s) := rfl
  rw [hbind, interp_bind, hm]

theorem interp_handle {σ ε : Type} {h : (q : Q) → σ → Except ε (R q × σ)}
    {m : Effect Q R S E α} {handler : E → Effect Q R S E α} {s s' : S} {a a' : σ} {x : α}
    (hm : (m s).interp h a = .ok ((.ok x, s'), a')) :
    ((m.handle handler) s).interp h a = .ok ((.ok x, s'), a') := by
  rw [handle, interp_bind, hm]
  rfl

end Effect

open Interaction Effect

/-! ### Debugger mode -/

namespace Kernel

variable {U : Type}

/-- `RunFor`: the number of iterations; it is missing when the loop is still running
after `fuel` steps. -/
def runFor (program : Program U) (fuel budget : Nat) (space : UserSpace U) :
    KernelM (Option Nat × UserSpace U) := do
  let start ← get
  let (control, space) ← runLoop program fuel budget space
  match control with
  | .finished => do
      let sim ← get
      pure (some (sim.iter - start.iter), space)
  | _ => pure (none, space)

def drain (program : Program U) (fuel : Nat) (space : UserSpace U) :
    KernelM (Option Result × UserSpace U) := do
  let (control, space) ← runLoop program fuel unlimitedIterBudget space
  match control with
  | .finished => do
      stopLoop
      let result ← result
      pure (some result, space)
  | _ => pure (none, space)

/-- A `RunFor` for each of the budgets, and `Drain`. -/
def stepThrough (program : Program U) (fuel : Nat) :
    List Nat → UserSpace U → KernelM (Option Result × UserSpace U)
  | [], space => drain program fuel space
  | budget :: rest, space => do
      let (iters, space) ← runFor program fuel budget space
      match iters with
      | some _ => stepThrough program fuel rest space
      | none => pure (none, space)

/-- `Start`, and then the session. -/
def debug (program : Program U) (fuel : Nat) (budgets : List Nat)
    (space : UserSpace U) : KernelM (Option Result × UserSpace U) := do
  startLoop
  stepThrough program fuel budgets space

theorem run_eq (program : Program U) (fuel : Nat) (space : UserSpace U) :
    run program fuel space = debug program fuel [] space := rfl

end Kernel

/-- `IsIdle`, a constant method: it changes no state. -/
def IScheduler.SaysIdle {σ : Type} (scheduler : IScheduler σ) (idle : σ → Bool) :
    Prop :=
  ∀ view s, scheduler.answer (view, .isIdle) s = .ok (idle s, s)

/-! ### A larger budget -/

/-- A larger budget, at the same place of the loop. -/
def Control.extend (extra : Nat) : Control → Control
  | .head budget => .head (budget + extra)
  | .run t resumption budget => .run t resumption (budget + extra)
  | .finished => .finished

/-- The loop has an iteration to start, or is in one. -/
def Control.Funded : Control → Prop
  | .head budget => 0 < budget
  | .run _ _ budget => 0 < budget
  | .finished => False

/-- How many iterations the loop can still start. -/
def Control.left : Control → Nat
  | .head budget => budget
  | .run _ _ budget => budget - 1
  | .finished => 0

namespace Kernel

variable {U : Type}

theorem stepHead_extend {budget : Nat} (extra : Nat) (h : 0 < budget) :
    stepHead (budget + extra) = map (Control.extend extra) (stepHead budget) := by
  have h' : 0 < budget + extra := Nat.add_pos_left h extra
  unfold stepHead
  rw [map_bind]
  refine congrArg _ (funext fun isIdle => ?_)
  cases isIdle with
  | true =>
      simp only [Bool.not_true, Bool.false_and, Bool.false_eq_true, if_false, h, h', if_true,
        map_bind]
      refine congrArg _ (funext fun again => ?_)
      cases again with
      | true => rfl
      | false => rfl
  | false =>
      simp only [Bool.not_false, Bool.true_and, decide_eq_true h, decide_eq_true h', if_true,
        map_bind]
      rfl

theorem stepSys_extend {budget : Nat} (extra : Nat) (h : 0 < budget) (t : ThreadId)
    (stat : HeapStat) (call : SysCall) :
    stepSys t stat call (budget + extra) =
      map (Control.extend extra) (stepSys t stat call budget) := by
  unfold stepSys
  rw [map_bind]
  refine congrArg _ (funext fun answer => ?_)
  cases answer with
  | some answer => rfl
  | none =>
      have hsub : budget + extra - 1 = budget - 1 + extra := by omega
      rw [hsub]
      rfl

/-- The place in the loop with a larger budget, and user space. -/
def extendFirst (extra : Nat) (x : Control × UserSpace U) : Control × UserSpace U :=
  (x.1.extend extra, x.2)

theorem guardedStep_extend {program : Program U} {control : Control}
    {space : UserSpace U} (extra : Nat) (h : control.Funded) :
    guardedStep program (control.extend extra) space =
      map (extendFirst extra) (guardedStep program control space) := by
  have hstep : step program (control.extend extra) space =
      map (extendFirst extra) (step program control space) := by
    cases control with
    | head budget =>
        simp only [step, Control.extend, stepHead_extend extra h, map_bind, bind_map]
        rfl
    | run t resumption budget =>
        simp only [step, Control.extend]
        cases (program.resume t resumption space.user).1 with
        | sys call =>
            simp only [stepSys_extend extra h, map_bind, bind_map]
            rfl
        | statics op =>
            simp only [map_bind]
            rfl
    | finished => exact absurd h id
  unfold guardedStep
  rw [map_handle, hstep]
  refine congrArg _ (funext fun e => ?_)
  cases e with
  | sysAbortEx =>
      simp only [map_bind]
      rfl
  | panic p => rfl

/-! ### What a turn of the loop does -/

variable {σ : Type} {S : IScheduler σ} {idle : σ → Bool} {sim sim' : Sim} {s s' : σ}

/-- There is nothing left to run. -/
def Ended (idle : σ → Bool) (sim : Sim) (s : σ) : Prop :=
  sim.done = true ∨
    idle s = true ∧ sim.timerQueue.isEmpty = true ∧ sim.alive = []

theorem Stays.interp {α : Type} {m : KernelM α} {r : Except Thrown α} (hm : Stays m)
    (h : (m sim).interp S.answer s = .ok ((r, sim'), s')) : pace sim' = pace sim :=
  hm sim r sim' (interp_returns h)

theorem isIdle_ok (hS : S.SaysIdle idle) {r : Bool}
    (h : (query .isIdle sim).interp S.answer s = .ok ((.ok r, sim'), s')) :
    r = idle s ∧ sim' = sim ∧ s' = s := by
  obtain ⟨hanswer, rfl⟩ := query_ok h
  rw [hS] at hanswer
  cases hanswer
  exact ⟨rfl, rfl, rfl⟩

/-- Where no deadlock is reported there is none. -/
theorem checkDeadlock_ok (hS : S.SaysIdle idle)
    (h : (checkDeadlock sim).interp S.answer s = .ok ((.ok (), sim'), s')) :
    sim' = sim ∧ s' = s ∧
      (idle s && sim.timerQueue.isEmpty && !sim.alive.isEmpty) = false := by
  obtain ⟨deadlock, sim₁, s₁, hcheck, hthen⟩ := interp_bind_ok h
  obtain ⟨r, sim₂, s₂, hidle, hget⟩ := interp_bind_ok hcheck
  obtain ⟨rfl, rfl, rfl⟩ := isIdle_ok hS hidle
  obtain ⟨_, _, _, hread, hpure⟩ := interp_bind_ok hget
  cases hread
  cases hpure
  split at hthen
  · obtain ⟨_, _, _, _, hreport⟩ := interp_bind_ok hthen
    obtain ⟨_, _, _, _, hreport⟩ := interp_bind_ok hreport
    obtain ⟨_, sim₃, _, _, habort⟩ := interp_bind_ok hreport
    unfold sysAbort at habort
    obtain ⟨_, _, _, hread, habort⟩ := interp_bind_ok habort
    cases hread
    split at habort
    · obtain ⟨_, _, _, _, hraise⟩ := interp_bind_ok habort
      cases hraise
    · cases habort
  · rename_i hnone
    cases hthen
    exact ⟨rfl, rfl, Bool.eq_false_iff.mpr hnone⟩

/-- `Idle` changes nothing when it stops the loop. -/
theorem idle_stops (hS : S.SaysIdle idle) (hidle : idle s = true)
    (h : (Kernel.idle sim).interp S.answer s = .ok ((.ok false, sim'), s')) :
    sim' = sim ∧ s' = s ∧ sim.timerQueue.isEmpty = true ∧ sim.alive = [] := by
  unfold Kernel.idle at h
  obtain ⟨_, sim₁, s₁, hcheck, hthen⟩ := interp_bind_ok h
  obtain ⟨rfl, rfl, hnone⟩ := checkDeadlock_ok hS hcheck
  obtain ⟨_, _, _, hread, hthen⟩ := interp_bind_ok hthen
  cases hread
  split at hthen
  · rename_i hempty
    cases hthen
    refine ⟨rfl, rfl, hempty, ?_⟩
    rw [hidle, hempty] at hnone
    simpa using hnone
  · obtain ⟨progress, _, _, _, hthen⟩ := interp_bind_ok hthen
    split at hthen
    · cases hthen
    · obtain ⟨_, _, _, _, hthen⟩ := interp_bind_ok hthen
      obtain ⟨_, _, _, _, hthen⟩ := interp_bind_ok hthen
      cases hthen

/-- `Iter` starts one iteration. -/
theorem beginIter_returns {r : Except Thrown ThreadId}
    (h : (beginIter sim).Returns (r, sim')) : pace sim' = (sim.iter + 1, sim.done) := by
  have hpick : Stays runPicked := by
    refine stays_bind (stays_query _) fun picked => ?_
    split
    · exact stays_prune _
    · exact stays_bind (stays_feedDigest _) fun _ =>
        stays_bind (stays_completeSync _) fun _ =>
          stays_bind (stays_switchTo _) fun _ => stays_pure _
  have hrest : Stays (do
      let sim ← get
      if sim.iter % 8 = 0 then maintenance
      runPicked) := by
    refine stays_bind stays_get fun sim => ?_
    dsimp only
    split
    · exact stays_bind stays_maintenance fun _ => hpick
    · exact hpick
  exact hrest _ r sim' h

/-- Whatever happens, one iteration is started at most, and only within the budget. -/
theorem stepHead_returns {budget : Nat} {r : Except Thrown Control}
    (h : (stepHead budget sim).Returns (r, sim')) :
    sim.iter ≤ sim'.iter ∧ sim'.iter ≤ sim.iter + budget := by
  obtain ⟨⟨isIdle | isIdle, sim₁⟩, ⟨_, hquery⟩, hthen⟩ := Interaction.returns_bind.mp h
  · cases hquery
  · cases hquery
    have hquiet : ∀ {m : KernelM Control}, Stays m → (m sim).Returns (r, sim') →
        sim.iter ≤ sim'.iter ∧ sim'.iter ≤ sim.iter + budget := by
      intro m hm hreturns
      have hiter : sim'.iter = sim.iter := congrArg Prod.fst (hm sim r sim' hreturns)
      omega
    dsimp only at hthen
    split at hthen
    · rename_i hcond
      have hbudget : 0 < budget := by
        simp only [Bool.and_eq_true, decide_eq_true_eq] at hcond
        exact hcond.2
      obtain ⟨⟨next | next, sim₂⟩, hbegin, hget⟩ := Interaction.returns_bind.mp hthen
      · have hiter : sim₂.iter = sim.iter + 1 := congrArg Prod.fst (beginIter_returns hbegin)
        cases hget
        omega
      · have hiter : sim₂.iter = sim.iter + 1 := congrArg Prod.fst (beginIter_returns hbegin)
        cases hget
        omega
    · split at hthen
      · exact hquiet (stays_bind stays_idle fun _ => stays_pure _) hthen
      · exact hquiet (stays_pure _) hthen

theorem stepHead_ok (hS : S.SaysIdle idle) {budget : Nat} {control : Control}
    (h : (stepHead budget sim).interp S.answer s = .ok ((.ok control, sim'), s')) :
    (∃ t r, control = .run t r budget ∧ 0 < budget ∧ pace sim' = (sim.iter + 1, sim.done)) ∨
    (control = .head budget ∧ 0 < budget ∧ pace sim' = pace sim) ∨
    (control = .finished ∧ sim' = sim ∧ s' = s ∧ (budget = 0 ∨ Ended idle sim s)) := by
  unfold stepHead at h
  obtain ⟨r, sim₁, s₁, hquery, hthen⟩ := interp_bind_ok h
  obtain ⟨rfl, rfl, rfl⟩ := isIdle_ok hS hquery
  split at hthen
  · rename_i hcond
    simp only [Bool.and_eq_true, Bool.not_eq_eq_eq_not, Bool.not_true,
      decide_eq_true_eq] at hcond
    obtain ⟨next, sim₂, s₂, hbegin, hget⟩ := interp_bind_ok hthen
    obtain ⟨_, _, _, hread, hpure⟩ := interp_bind_ok hget
    cases hread
    cases hpure
    exact Or.inl ⟨next, _, rfl, hcond.2, beginIter_returns (interp_returns hbegin)⟩
  · rename_i hcond
    split at hthen
    · rename_i hbudget
      have hidle : idle s₁ = true := by
        by_contra hbusy
        exact hcond (by simp [hbusy, hbudget])
      obtain ⟨again, sim₂, s₂, hagain, hpure⟩ := interp_bind_ok hthen
      cases hpure
      cases again with
      | true => exact Or.inr (Or.inl ⟨rfl, hbudget, stays_idle.interp hagain⟩)
      | false =>
          obtain ⟨rfl, rfl, hempty, halive⟩ := idle_stops hS hidle hagain
          exact Or.inr (Or.inr ⟨rfl, rfl, rfl, Or.inr (Or.inr ⟨hidle, hempty, halive⟩)⟩)
    · rename_i hbudget
      cases hthen
      exact Or.inr (Or.inr ⟨rfl, rfl, rfl, Or.inl (Nat.eq_zero_of_not_pos hbudget)⟩)

theorem burn_ok {statics statics' : Statics.Manager}
    (h : (burn statics sim).interp S.answer s = .ok ((.ok statics', sim'), s')) :
    sim'.done = true ∧ sim'.iter = sim.iter := by
  unfold burn at h
  obtain ⟨_, _, _, hread, h⟩ := interp_bind_ok h
  cases hread
  split at h
  · obtain ⟨_, sim₁, s₁, hburns, h⟩ := interp_bind_ok h
    obtain ⟨_, _, _, hread, h⟩ := interp_bind_ok h
    cases hread
    obtain ⟨queue, sim₂, s₂, hreset, h⟩ := interp_bind_ok h
    obtain ⟨_, _, _, hmodify, hpure⟩ := interp_bind_ok h
    cases hmodify
    cases hpure
    have hiter : pace sim₂ = pace sim :=
      ((stays_checked _).interp hreset).trans ((stays_burnThreads _).interp hburns)
    exact ⟨rfl, congrArg Prod.fst hiter⟩
  · cases h

theorem stepSys_ok {t : ThreadId} {stat : HeapStat} {call : SysCall} {budget : Nat}
    {control : Control}
    (h : (stepSys t stat call budget sim).interp S.answer s =
      .ok ((.ok control, sim'), s')) :
    (∃ r, control = .run t r budget) ∨ control = .head (budget - 1) := by
  unfold stepSys at h
  obtain ⟨answer, sim₁, s₁, _, h⟩ := interp_bind_ok h
  cases answer with
  | some answer =>
      obtain ⟨_, _, _, _, hpure⟩ := interp_bind_ok h
      cases hpure
      exact Or.inl ⟨_, rfl⟩
  | none =>
      cases h
      exact Or.inr rfl

theorem stays_stepSys (t : ThreadId) (stat : HeapStat) (call : SysCall) (budget : Nat) :
    Stays (stepSys t stat call budget) := by
  refine stays_bind (stays_handleSystemCall t stat call) fun answer => ?_
  cases answer with
  | some answer => exact stays_bind (stays_switchTo t) fun _ => stays_pure _
  | none => exact stays_pure _

theorem stays_step_run {program : Program U} {t : ThreadId} {resumption : Resumption}
    {budget : Nat} {space : UserSpace U} :
    Stays (step program (.run t resumption budget) space) := by
  obtain ⟨⟨request, user⟩, hrequest⟩ : ∃ x, program.resume t resumption space.user = x :=
    ⟨_, rfl⟩
  simp only [step, hrequest]
  cases request with
  | sys call => exact stays_bind (stays_stepSys _ _ _ _) fun _ => stays_pure _
  | statics op => exact stays_bind (stays_checked _) fun _ => stays_pure _

theorem step_returns {program : Program U} {control : Control} {space : UserSpace U}
    {r : Except Thrown (Control × UserSpace U)}
    (h : (step program control space sim).Returns (r, sim')) :
    sim.iter ≤ sim'.iter ∧ sim'.iter ≤ sim.iter + control.left := by
  cases control with
  | head budget =>
      obtain ⟨⟨x | x, sim₁⟩, hhead, hpure⟩ := Interaction.returns_bind.mp h
      · cases hpure
        exact stepHead_returns hhead
      · cases hpure
        exact stepHead_returns hhead
  | run t resumption budget =>
      have hiter : sim'.iter = sim.iter := congrArg Prod.fst (stays_step_run _ r sim' h)
      exact ⟨hiter.ge, Nat.le_add_right_of_le hiter.le⟩
  | finished =>
      cases h
      exact ⟨le_refl _, Nat.le_add_right _ _⟩

/-- User code of a thread goes on, or its iteration is over. -/
theorem step_run_ok {program : Program U} {t : ThreadId} {resumption : Resumption}
    {budget : Nat} {space : UserSpace U} {x : Control × UserSpace U}
    (h : (step program (.run t resumption budget) space sim).interp S.answer s =
      .ok ((.ok x, sim'), s')) :
    (∃ r, x.1 = .run t r budget) ∨ x.1 = .head (budget - 1) := by
  obtain ⟨⟨request, user⟩, hrequest⟩ : ∃ x, program.resume t resumption space.user = x :=
    ⟨_, rfl⟩
  simp only [step, hrequest] at h
  cases request with
  | sys call =>
      obtain ⟨control, sim₁, s₁, hsys, hpure⟩ := interp_bind_ok h
      cases hpure
      exact stepSys_ok hsys
  | statics op =>
      obtain ⟨result, sim₁, s₁, _, hpure⟩ := interp_bind_ok h
      cases hpure
      exact Or.inl ⟨_, rfl⟩

/-! ### When there is nothing left to run -/

theorem isIdle_eq (hS : S.SaysIdle idle) :
    (query .isIdle sim).interp S.answer s = .ok ((.ok (idle s), sim), s) := by
  have hquery : query .isIdle sim = .ask (sim.view, .isIdle) fun r => .ret (.ok r, sim) :=
    rfl
  rw [hquery, interp_ask, hS]
  rfl

theorem idle_eq (hS : S.SaysIdle idle) (hempty : sim.timerQueue.isEmpty = true)
    (halive : sim.alive = []) :
    (Kernel.idle sim).interp S.answer s = .ok ((.ok false, sim), s) := by
  have hcheck : (checkDeadlock sim).interp S.answer s = .ok ((.ok (), sim), s) := by
    have hdeadlock : (isDeadlock sim).interp S.answer s =
        .ok ((.ok (idle s && sim.timerQueue.isEmpty && !sim.alive.isEmpty), sim), s) :=
      interp_then (isIdle_eq hS)
    refine (interp_then hdeadlock).trans ?_
    simp only [halive, List.isEmpty_nil, Bool.not_true, Bool.and_false, Bool.false_eq_true,
      if_false]
    rfl
  refine (interp_then hcheck).trans ((interp_then rfl).trans ?_)
  simp only [hempty, if_true]
  rfl

/-- The loop ends at once when nothing is left, or the budget is. -/
theorem stepHead_ends (hS : S.SaysIdle idle) {budget : Nat}
    (h : budget = 0 ∨ idle s = true ∧ sim.timerQueue.isEmpty = true ∧ sim.alive = []) :
    (stepHead budget sim).interp S.answer s = .ok ((.ok .finished, sim), s) := by
  refine (interp_then (isIdle_eq hS)).trans ?_
  by_cases hbudget : budget = 0
  · subst hbudget
    simp
    rfl
  · obtain ⟨hidle, hempty, halive⟩ := h.resolve_left hbudget
    simp only [hidle, Bool.not_true, Bool.false_and, Bool.false_eq_true, if_false,
      if_pos (Nat.pos_of_ne_zero hbudget)]
    exact interp_then (idle_eq hS hempty halive)

end Kernel

/-! ### The loop from its start to its end -/

/-- Where the loop can be before its end. -/
def Control.Live : Control → Prop
  | .head _ => True
  | .run _ _ budget => 0 < budget
  | .finished => False

theorem Control.Live.ne {control : Control} (h : control.Live) : control ≠ .finished := by
  rintro rfl
  exact h

theorem Control.Live.cases {control : Control} (h : control.Live) :
    control.Funded ∨ control = .head 0 := by
  cases control with
  | head budget =>
      cases budget with
      | zero => exact Or.inr rfl
      | succ budget => exact Or.inl (Nat.succ_pos budget)
  | run t resumption budget => exact Or.inl h
  | finished => exact absurd h id

namespace Machine

variable {U σ : Type} {S : IScheduler σ} {program : Program U} {idle : σ → Bool}
  {m m' y z : Machine U σ}

def extend (extra : Nat) (m : Machine U σ) : Machine U σ :=
  { m with control := m.control.extend extra }

/-- The loop has ended. -/
def halted (m : Machine U σ) : Machine U σ := { m with control := .finished }

/-- The loop starts again. -/
def started (budget : Nat) (m : Machine U σ) : Machine U σ :=
  { m with control := .head budget }

theorem next_of_turn {control : Control} {space : UserSpace U} {sim : Sim} {s : σ}
    (h : (Kernel.guardedStep program m.control m.space m.sim).interp S.answer m.scheduler =
      .ok ((.ok (control, space), sim), s)) :
    m.next S program .turn = some ⟨control, space, sim, s⟩ := by
  simp only [next, h]

theorem next_extend (extra : Nat) (h : m.control.Funded) :
    (m.extend extra).next S program .turn =
      (m.next S program .turn).map (extend extra) := by
  simp only [next, extend, Kernel.guardedStep_extend extra h, interp_map]
  cases (Kernel.guardedStep program m.control m.space m.sim).interp S.answer
    m.scheduler with
  | error e => rfl
  | ok result =>
      obtain ⟨⟨x | x, sim⟩, s⟩ := result
      · rfl
      · rfl

/-- Nothing is left to run. -/
def Ended (idle : σ → Bool) (m : Machine U σ) : Prop :=
  Kernel.Ended idle m.sim m.scheduler

theorem next_ends (hS : S.SaysIdle idle) {budget : Nat}
    (h : budget = 0 ∨ idle m.scheduler = true ∧ m.sim.timerQueue.isEmpty = true ∧
      m.sim.alive = []) :
    (m.started budget).next S program .turn = some m.halted := by
  have hstep : (Kernel.step program (.head budget) m.space m.sim).interp S.answer
      m.scheduler = .ok ((.ok (.finished, m.space), m.sim), m.scheduler) :=
    interp_then (Kernel.stepHead_ends hS h)
  exact @next_of_turn _ _ S program (m.started budget) _ _ _ _ (interp_handle hstep)

/-- A turn ends the loop where nothing is left, stops where the budget is used up, or
keeps count of the iterations. -/
theorem turn_counts (hS : S.SaysIdle idle) (hlive : m.control.Live)
    (hdone : m.sim.done = false) (h : m.next S program .turn = some m') :
    (m' = m'.halted ∧ m'.Ended idle ∧ m.sim.iter ≤ m'.sim.iter ∧
      m'.sim.iter ≤ m.sim.iter + m.control.left) ∨
    (m.control = .head 0 ∧ m' = m.halted) ∨
    (m.control.Funded ∧ m'.control.Live ∧ m'.sim.done = false ∧
      m.sim.iter ≤ m'.sim.iter ∧
      m'.sim.iter + m'.control.left = m.sim.iter + m.control.left) := by
  obtain ⟨control', space', sim', s'⟩ := m'
  rcases interp_handle_ok (next_turn h) with hstep | ⟨e, sim, s, hstep, hhandler⟩
  · cases hcontrol : m.control with
    | head budget =>
        rw [hcontrol] at hstep
        obtain ⟨control, sim, s, hhead, hpure⟩ := interp_bind_ok hstep
        cases hpure
        rcases Kernel.stepHead_ok hS hhead with ⟨t, r, rfl, hbudget, hpace⟩ |
          ⟨rfl, hbudget, hpace⟩ | ⟨rfl, rfl, rfl, hbudget | hended⟩
        · obtain ⟨hiter, hstill⟩ := Prod.mk.inj hpace
          dsimp only at hiter
          refine Or.inr (Or.inr ⟨hbudget, hbudget, hstill.trans hdone, ?_, ?_⟩)
          · dsimp only
            omega
          · simp only [Control.left]
            omega
        · obtain ⟨hiter, hstill⟩ := Prod.mk.inj hpace
          exact Or.inr (Or.inr ⟨hbudget, trivial, hstill.trans hdone, hiter.ge,
            congrArg (· + budget) hiter⟩)
        · rw [hbudget]
          exact Or.inr (Or.inl ⟨rfl, rfl⟩)
        · exact Or.inl ⟨rfl, hended, le_refl _, Nat.le_add_right _ _⟩
    | run t resumption budget =>
        rw [hcontrol] at hstep hlive
        have hbudget : 0 < budget := hlive
        obtain ⟨hiter, hstill⟩ := Prod.mk.inj (Kernel.stays_step_run.interp hstep)
        rcases Kernel.step_run_ok hstep with ⟨r, hrun⟩ | hhead
        · dsimp only at hrun
          subst hrun
          exact Or.inr (Or.inr ⟨hbudget, hbudget, hstill.trans hdone, hiter.ge,
            congrArg (· + (budget - 1)) hiter⟩)
        · dsimp only at hhead
          subst hhead
          exact Or.inr (Or.inr ⟨hbudget, trivial, hstill.trans hdone, hiter.ge,
            congrArg (· + (budget - 1)) hiter⟩)
    | finished =>
        rw [hcontrol] at hlive
        exact absurd hlive id
  · have hbound := Kernel.step_returns (interp_returns hstep)
    cases e with
    | sysAbortEx =>
        obtain ⟨statics, sim₁, s₁, hburn, hpure⟩ := interp_bind_ok hhandler
        cases hpure
        obtain ⟨hended, hiter⟩ := Kernel.burn_ok hburn
        refine Or.inl ⟨rfl, Or.inl hended, ?_⟩
        rw [hiter]
        exact hbound
    | panic p => cases hhandler

/-- The loop runs from `m` on until it ends in `z`. -/
inductive Ends (S : IScheduler σ) (program : Program U) :
    Machine U σ → Machine U σ → Prop where
  | finished {m : Machine U σ} (hcontrol : m.control = .finished) : Ends S program m m
  | turn {m m' z : Machine U σ} (hlive : m.control ≠ .finished)
      (hnext : m.next S program .turn = some m') (hends : Ends S program m' z) :
      Ends S program m z

theorem Ends.halted (h : Ends S program m z) : z.control = .finished := by
  induction h with
  | finished hcontrol => exact hcontrol
  | turn hlive hnext hends ih => exact ih

theorem ends_of_finished (hm : m.control = .finished) :
    Ends S program m z ↔ z = m := by
  constructor
  · intro h
    cases h with
    | finished hcontrol => rfl
    | turn hlive hnext hends => exact absurd hm hlive
  · rintro rfl
    exact .finished hm

theorem ends_of_next (hlive : m.control ≠ .finished)
    (hnext : m.next S program .turn = some m') :
    Ends S program m z ↔ Ends S program m' z := by
  constructor
  · intro h
    cases h with
    | finished hcontrol => exact absurd hcontrol hlive
    | turn _ hnext' hends =>
        cases hnext.symm.trans hnext'
        exact hends
  · exact .turn hlive hnext

/-- The loop starts no more iterations than it may; if it starts less, nothing is
left to run. -/
theorem Ends.counts (hS : S.SaysIdle idle) (h : Ends S program m z)
    (hlive : m.control.Live) (hdone : m.sim.done = false) :
    m.sim.iter ≤ z.sim.iter ∧ z.sim.iter ≤ m.sim.iter + m.control.left ∧
      (z.sim.iter < m.sim.iter + m.control.left → z.Ended idle) := by
  induction h with
  | finished hcontrol => exact absurd hcontrol hlive.ne
  | @turn m m' z _ hnext hends ih =>
      rcases turn_counts hS hlive hdone hnext with ⟨hhalted, hended, hbound⟩ | ⟨hhead, hm'⟩ |
        ⟨-, hlive', hdone', hle, hcount⟩
      · have hz : z = m' := (ends_of_finished (congrArg Machine.control hhalted)).mp hends
        subst hz
        exact ⟨hbound.1, hbound.2, fun _ => hended⟩
      · have hz : z = m.halted := hm' ▸ (ends_of_finished (congrArg Machine.control hm')).mp hends
        subst hz
        rw [hhead]
        exact ⟨le_refl _, le_refl _, fun hlt => absurd hlt (lt_irrefl _)⟩
      · obtain ⟨hlow, hhigh, hended⟩ := ih hlive' hdone'
        exact ⟨hle.trans hlow, hcount ▸ hhigh, hcount ▸ hended⟩

/-- `RunLoop` with a budget, from one halt of the loop to the next. -/
def Loops (S : IScheduler σ) (program : Program U) (budget : Nat) (y z : Machine U σ) :
    Prop :=
  if y.sim.done = true then z = y.halted else Ends S program (y.started budget) z

theorem Loops.halted {budget : Nat} (h : Loops S program budget y z) :
    z.control = .finished := by
  unfold Loops at h
  split at h
  · rw [h]
    rfl
  · exact Ends.halted h

/-- Where nothing is left to run, the loop changes nothing. -/
theorem loops_of_ended (hS : S.SaysIdle idle) {budget : Nat} (h : y.Ended idle) :
    Loops S program budget y z ↔ z = y.halted := by
  unfold Loops
  split
  · exact Iff.rfl
  · rename_i hdone
    have hnext : (y.started budget).next S program .turn = some y.halted :=
      next_ends hS (Or.inr (h.resolve_left hdone))
    constructor
    · intro hends
      cases hends with
      | finished hcontrol => cases hcontrol
      | turn hlive hnext' hends =>
          cases hnext.symm.trans hnext'
          exact (ends_of_finished rfl).mp hends
    · rintro rfl
      exact .turn Control.noConfusion hnext (.finished rfl)

theorem halted_of_finished (h : m.control = .finished) : m.halted = m := by
  obtain ⟨control, space, sim, scheduler⟩ := m
  cases h
  rfl

theorem extend_of_finished (extra : Nat) (h : m.control = .finished) :
    m.extend extra = m := by
  obtain ⟨control, space, sim, scheduler⟩ := m
  cases h
  rfl

theorem started_zero (h : m.control = .head 0) : m.started 0 = m := by
  rw [started, ← h]

theorem next_spent (hS : S.SaysIdle idle) (h : m.control = .head 0) :
    m.next S program .turn = some m.halted := by
  rw [← started_zero h]
  exact next_ends hS (Or.inl rfl)

theorem extend_spent (extra : Nat) (h : m.control = .head 0) :
    m.extend extra = m.halted.started extra := by
  simp only [extend, h, Control.extend, Nat.zero_add, started, Machine.halted]

/-- The loop with a larger budget, cut where the smaller one is used up. -/
theorem Ends.cut (hS : S.SaysIdle idle) {extra : Nat}
    (h : Ends S program (m.extend extra) z) (hlive : m.control.Live)
    (hdone : m.sim.done = false) :
    ∃ y, Ends S program m y ∧ Loops S program extra y z := by
  generalize hx : m.extend extra = x at h
  induction h generalizing m with
  | @finished x hcontrol =>
      subst hx
      rcases hlive.cases with hfunded | hhead
      · cases hm : m.control <;> simp [extend, hm, Control.extend, Control.Live] at hcontrol hlive
      · simp [extend, hhead, Control.extend] at hcontrol
  | @turn x x' z _ hnext hends ih =>
      subst hx
      rcases hlive.cases with hfunded | hhead
      · rw [next_extend extra hfunded, Option.map_eq_some_iff] at hnext
        obtain ⟨m', hnext, rfl⟩ := hnext
        rcases turn_counts hS hlive hdone hnext with ⟨hhalted, hended, -⟩ | ⟨hhead, -⟩ |
          ⟨-, hlive', hdone', -⟩
        · have hcontrol : m'.control = .finished := congrArg Machine.control hhalted
          refine ⟨m', .turn hlive.ne hnext (.finished hcontrol), ?_⟩
          rw [loops_of_ended hS hended, ← hhalted, ← extend_of_finished extra hcontrol]
          exact (ends_of_finished (by rw [extend_of_finished extra hcontrol, hcontrol])).mp
            hends
        · rw [hhead] at hfunded
          exact absurd hfunded (lt_irrefl 0)
        · obtain ⟨y, hends', hloops⟩ := ih hlive' hdone' rfl
          exact ⟨y, .turn hlive.ne hnext hends', hloops⟩
      · refine ⟨m.halted, .turn hlive.ne (next_spent hS hhead) (.finished rfl), ?_⟩
        rw [Loops, if_neg (by simp [Machine.halted, hdone]), ← extend_spent extra hhead]
        exact .turn (by simp [extend, hhead, Control.extend]) hnext hends

/-- And the other way round: the larger budget does the same as both of its parts. -/
theorem Ends.join (hS : S.SaysIdle idle) {extra : Nat} (h : Ends S program m y)
    (hloops : Loops S program extra y z) (hlive : m.control.Live)
    (hdone : m.sim.done = false) : Ends S program (m.extend extra) z := by
  induction h with
  | finished hcontrol => exact absurd hcontrol hlive.ne
  | @turn m m' y _ hnext hends ih =>
      rcases hlive.cases with hfunded | hhead
      · have hextended : (m.extend extra).next S program .turn = some (m'.extend extra) := by
          rw [next_extend extra hfunded, hnext]
          rfl
        have hgoes : (m.extend extra).control ≠ .finished := by
          cases hm : m.control with
          | finished => exact absurd hm hlive.ne
          | _ => simp [extend, hm, Control.extend]
        refine .turn hgoes hextended ?_
        rcases turn_counts hS hlive hdone hnext with ⟨hhalted, hended, -⟩ | ⟨hhead, -⟩ |
          ⟨-, hlive', hdone', -⟩
        · have hcontrol : m'.control = .finished := congrArg Machine.control hhalted
          have hy : y = m' := (ends_of_finished hcontrol).mp hends
          subst hy
          rw [loops_of_ended hS hended, ← hhalted] at hloops
          rw [hloops, extend_of_finished extra hcontrol]
          exact .finished hcontrol
        · rw [hhead] at hfunded
          exact absurd hfunded (lt_irrefl 0)
        · exact ih hloops hlive' hdone'
      · have hm' : m' = m.halted :=
          Option.some.inj (hnext.symm.trans (next_spent hS hhead))
        subst hm'
        have hy : y = m.halted := (ends_of_finished rfl).mp hends
        subst hy
        rw [Loops, if_neg (by simp [Machine.halted, hdone]), ← extend_spent extra hhead]
          at hloops
        exact hloops

/-- One call of `RunLoop` does the same as two that share its budget. -/
theorem loops_add (hS : S.SaysIdle idle) {a b : Nat} {x : Machine U σ} :
    Loops S program (a + b) x z ↔
      ∃ y, Loops S program a x y ∧ Loops S program b y z := by
  by_cases hdone : x.sim.done = true
  · have hended : x.Ended idle := Or.inl hdone
    have hended' : x.halted.Ended idle := Or.inl hdone
    simp only [loops_of_ended hS hended]
    constructor
    · rintro rfl
      exact ⟨x.halted, rfl, (loops_of_ended hS hended').mpr rfl⟩
    · rintro ⟨_, rfl, hloops⟩
      exact (loops_of_ended hS hended').mp hloops
  · have hloops : ∀ budget z, Loops S program budget x z ↔
        Ends S program (x.started budget) z := fun budget z => by
      rw [Loops, if_neg hdone]
    have hstill : x.sim.done = false := Bool.eq_false_iff.mpr hdone
    simp only [hloops]
    constructor
    · intro hends
      exact @Ends.cut _ _ S program idle (x.started a) z hS b hends trivial hstill
    · rintro ⟨y, hends, hrest⟩
      exact hends.join hS hrest trivial hstill

theorem Loops.counts (hS : S.SaysIdle idle) {budget : Nat}
    (h : Loops S program budget y z) :
    y.sim.iter ≤ z.sim.iter ∧ z.sim.iter ≤ y.sim.iter + budget ∧
      (z.sim.iter < y.sim.iter + budget → z.Ended idle) := by
  by_cases hdone : y.sim.done = true
  · have hended : y.Ended idle := Or.inl hdone
    rw [loops_of_ended hS hended] at h
    subst h
    exact ⟨le_refl _, Nat.le_add_right _ _, fun _ => hended⟩
  · rw [Loops, if_neg hdone] at h
    exact Ends.counts hS h trivial (Bool.eq_false_iff.mpr hdone)

/-- A run that ends within its budget is the same with any larger one. -/
theorem loops_within (hS : S.SaysIdle idle) {budget extra : Nat}
    (hiters : z.sim.iter < y.sim.iter + budget) :
    Loops S program (budget + extra) y z ↔ Loops S program budget y z := by
  rw [loops_add hS]
  constructor
  · rintro ⟨x, hfirst, hthen⟩
    have hle := (hthen.counts hS).1
    have hended := (hfirst.counts hS).2.2 (lt_of_le_of_lt hle hiters)
    rw [loops_of_ended hS hended] at hthen
    rw [hthen, halted_of_finished hfirst.halted]
    exact hfirst
  · intro h
    exact ⟨z, h, (loops_of_ended hS ((h.counts hS).2.2 hiters)).mpr
      (halted_of_finished h.halted).symm⟩

/-! ### Enough fuel -/

theorem ends_of_steps {fuel : Nat} {space : UserSpace U} {sim : Sim} {s : σ}
    (h : (Kernel.steps program fuel m.control m.space m.sim).interp S.answer m.scheduler =
      .ok ((.ok (.finished, space), sim), s)) :
    Ends S program m ⟨.finished, space, sim, s⟩ := by
  induction fuel generalizing m with
  | zero =>
      obtain ⟨control, space, sim, scheduler⟩ := m
      cases h
      exact .finished rfl
  | succ fuel ih =>
      by_cases hcontrol : m.control = .finished
      · obtain ⟨control, space, sim, scheduler⟩ := m
        dsimp only at hcontrol
        subst hcontrol
        cases h
        exact .finished rfl
      · have hsteps : Kernel.steps program (fuel + 1) m.control m.space =
            (do
              let (control, space) ← Kernel.guardedStep program m.control m.space
              Kernel.steps program fuel control space) := by
          cases hm : m.control with
          | finished => exact absurd hm hcontrol
          | _ => rfl
        rw [hsteps] at h
        obtain ⟨⟨control', space'⟩, sim', s', hturn, hrest⟩ := interp_bind_ok h
        exact .turn hcontrol (next_of_turn hturn) (@ih ⟨control', space', sim', s'⟩ hrest)

theorem Ends.steps (h : Ends S program m z) :
    ∃ n, ∀ fuel, n ≤ fuel →
      (Kernel.steps program fuel m.control m.space m.sim).interp S.answer m.scheduler =
        .ok ((.ok (.finished, z.space), z.sim), z.scheduler) := by
  induction h with
  | @finished m hcontrol =>
      refine ⟨0, fun fuel _ => ?_⟩
      rw [hcontrol]
      cases fuel with
      | zero => rfl
      | succ fuel => rfl
  | @turn m m' z hlive hnext _ ih =>
      obtain ⟨n, hn⟩ := ih
      refine ⟨n + 1, fun fuel hfuel => ?_⟩
      obtain ⟨fuel, rfl⟩ := Nat.exists_eq_add_of_le' (Nat.le_trans (Nat.le_add_left 1 n) hfuel)
      have hsteps : Kernel.steps program (fuel + 1) m.control m.space =
          (do
            let (control, space) ← Kernel.guardedStep program m.control m.space
            Kernel.steps program fuel control space) := by
        cases hm : m.control with
        | finished => exact absurd hm hlive
        | _ => rfl
      rw [hsteps, interp_then (next_turn hnext)]
      exact hn fuel (Nat.le_of_succ_le_succ hfuel)

theorem loops_of_runLoop {fuel budget : Nat} {space : UserSpace U} {sim : Sim} {s : σ}
    (h : (Kernel.runLoop program fuel budget y.space y.sim).interp S.answer y.scheduler =
      .ok ((.ok (.finished, space), sim), s)) :
    Loops S program budget y ⟨.finished, space, sim, s⟩ := by
  obtain ⟨_, _, _, hread, hloop⟩ := interp_bind_ok h
  cases hread
  unfold Loops
  split at hloop
  · rename_i hdone
    cases hloop
    rw [if_pos hdone]
    rfl
  · rename_i hdone
    rw [if_neg hdone]
    exact @ends_of_steps _ _ S program (y.started budget) fuel _ _ _ hloop

theorem Loops.runLoop {budget : Nat} (h : Loops S program budget y z) :
    ∃ n, ∀ fuel, n ≤ fuel →
      (Kernel.runLoop program fuel budget y.space y.sim).interp S.answer y.scheduler =
        .ok ((.ok (.finished, z.space), z.sim), z.scheduler) := by
  unfold Loops at h
  split at h
  · rename_i hdone
    subst h
    refine ⟨0, fun fuel _ => ?_⟩
    refine (interp_then rfl).trans ?_
    rw [if_pos hdone]
    rfl
  · rename_i hdone
    obtain ⟨n, hn⟩ := h.steps
    refine ⟨n, fun fuel hfuel => ?_⟩
    refine (interp_then rfl).trans ?_
    rw [if_neg hdone]
    exact hn fuel hfuel

/-- `RunFor` returns `iters` and leaves the simulation as it is in `z`. -/
def RunsFor (S : IScheduler σ) (program : Program U) (budget : Nat) (y : Machine U σ)
    (iters : Nat) (z : Machine U σ) : Prop :=
  z.control = .finished ∧ ∃ fuel,
    (Kernel.runFor program fuel budget y.space y.sim).interp S.answer y.scheduler =
      .ok ((.ok (some iters, z.space), z.sim), z.scheduler)

theorem runFor_of_loops {budget : Nat} (h : Loops S program budget y z) :
    ∃ n, ∀ fuel, n ≤ fuel →
      (Kernel.runFor program fuel budget y.space y.sim).interp S.answer y.scheduler =
        .ok ((.ok (some (z.sim.iter - y.sim.iter), z.space), z.sim), z.scheduler) := by
  obtain ⟨n, hn⟩ := h.runLoop
  exact ⟨n, fun fuel hfuel => (interp_then rfl).trans (interp_then (hn fuel hfuel))⟩

theorem loops_of_runFor {fuel budget iters : Nat} {space : UserSpace U} {sim : Sim} {s : σ}
    (h : (Kernel.runFor program fuel budget y.space y.sim).interp S.answer y.scheduler =
      .ok ((.ok (some iters, space), sim), s)) :
    Loops S program budget y ⟨.finished, space, sim, s⟩ ∧ iters = sim.iter - y.sim.iter := by
  obtain ⟨_, _, _, hread, hloop⟩ := interp_bind_ok h
  cases hread
  obtain ⟨⟨control, space'⟩, sim', s', hloop, hrest⟩ := interp_bind_ok hloop
  cases control with
  | finished =>
      cases hrest
      exact ⟨loops_of_runLoop hloop, rfl⟩
  | head budget => cases hrest
  | run t resumption budget => cases hrest

theorem runsFor_iff {budget iters : Nat} :
    RunsFor S program budget y iters z ↔
      Loops S program budget y z ∧ iters = z.sim.iter - y.sim.iter := by
  constructor
  · rintro ⟨hcontrol, fuel, hrun⟩
    have hloops := loops_of_runFor hrun
    rw [← hcontrol] at hloops
    exact hloops
  · rintro ⟨hloops, rfl⟩
    obtain ⟨n, hn⟩ := runFor_of_loops hloops
    exact ⟨hloops.halted, n, hn n (le_refl n)⟩

end Machine

end TwistSim

/-
Wait queues of the replay scheduler, while it follows a recorded run, and the
result for all schedulers.
-/
import TwistSim.WaitQueues

namespace TwistSim

open Interaction (Spec Implements LockstepOn ReflectedBy)

namespace Replay

variable {σ : Type} {S : IScheduler σ} {WF : σ → Prop} {holdings : σ → Holdings}
  {full : Schedule} {run : Multiset ThreadId}

/-- What the caller of the replay scheduler would count. -/
def booked (run : Multiset ThreadId) (a : Holdings) : Hands :=
  ⟨run, a.waiters, a.queues, false⟩

/-- The replay scheduler has the wait queues of the recorded one, and has taken
as many decisions of the schedule as were recorded. -/
structure Keeping (holdings : σ → Holdings) (full : Schedule)
    (run : Multiset ThreadId) (r : Recorder σ) (p : State) : Prop where
  same : Matches p (booked run (holdings r.underlying))
  schedule : p.schedule = full
  next : p.next = r.schedule.length

/-- The recorder appends the decision, if the answer is one. -/
theorem recorder_schedule {call : Call} {x : call.Reply} {r r' : Recorder σ}
    (h : (Recorder.scheduler S).answer call r = .ok (x, r')) :
    r'.schedule = r.schedule ++ (decision call x).toList := by
  by_cases hcall : call.2 = .isModelChecker
  · obtain ⟨view, q⟩ := call
    cases hcall
    cases h
    exact (List.append_nil _).symm
  · rw [Recorder.recorder_answer hcall] at h
    obtain ⟨⟨x', u⟩, _, heq⟩ := map_eq_ok h
    cases heq
    rfl

theorem recorded_before :
    ReflectedBy (Recorder.scheduler S).answer fun r => r.schedule <+: full := by
  intro call r x r' hanswer hupto
  rw [recorder_schedule hanswer] at hupto
  exact (List.prefix_append _ _).trans hupto

/-- A decision that was recorded comes next in the schedule. -/
theorem Keeping.taken {r r' : Recorder σ} {p : State} {d : Decision}
    (h : Keeping holdings full run r p) (hd : r'.schedule = r.schedule ++ [d])
    (hupto : r'.schedule <+: full) : p.schedule[p.next]? = some d := by
  obtain ⟨rest, hrest⟩ := hupto
  rw [h.schedule, h.next, ← hrest, hd]
  simp

theorem Keeping.updated {r : Recorder σ} {u : σ} {p p' : State} {q : QueueId}
    {waiters : Multiset ThreadId} {decisions : Schedule}
    (h : Keeping holdings full run r p)
    (hupdate : (holdings r.underlying).QueueUpdate (holdings u) q waiters)
    (hmatches : Matches p' ((booked run (holdings r.underlying)).setWaiting q waiters))
    (hschedule : p'.schedule = p.schedule)
    (hnext : p'.next = p.next + decisions.length) :
    Keeping holdings full run ⟨u, r.schedule ++ decisions⟩ p' := by
  refine ⟨?_, hschedule.trans h.schedule, ?_⟩
  · rw [booked, hupdate.waiters, hupdate.queues]
    exact hmatches
  · rw [hnext, h.next, List.length_append]

/-- `WakeOne` and `WakeAll` wake whom they woke before. -/
theorem Keeping.wakes {r : Recorder σ} {u : σ} {p : State} {q : QueueId}
    {get : Decision → Option (Option ThreadId)} {d : Decision} {x : Option ThreadId}
    (h : Keeping holdings full run r p)
    (hpops : (holdings r.underlying).Pops q x (holdings u))
    (hq : q < (holdings r.underlying).queues) (hget : get d = some x)
    (hupto : r.schedule ++ [d] <+: full) :
    ∃ p', wake get q p = .ok (x, p') ∧
      Keeping holdings full run ⟨u, r.schedule ++ [d]⟩ p' := by
  have hnext := @Keeping.taken _ holdings full run r ⟨u, r.schedule ++ [d]⟩ p d h rfl hupto
  cases x with
  | none =>
      obtain ⟨p', hwake, hmatches, hschedule, hindex⟩ :=
        h.same.wakes hq hnext hget (fun t ht => by cases ht) (fun _ => rfl)
          (fun t ht => by cases ht)
      refine ⟨p', hwake, ?_, hschedule.trans h.schedule, ?_⟩
      · dsimp only
        rw [show holdings u = holdings r.underlying from hpops]
        exact hmatches
      · rw [hindex, h.next, List.length_append, List.length_singleton]
  | some t =>
      obtain ⟨rest, hrest, hupdate⟩ := hpops
      have hmem : t ∈ (holdings r.underlying).waiters q :=
        hrest ▸ Multiset.mem_cons_self t rest
      obtain ⟨p', hwake, hmatches, hschedule, hindex⟩ :=
        h.same.wakes hq hnext hget (fun u hu => by cases hu; exact hmem)
          (fun hnone => by cases hnone) (fun u hu => by cases hu; rfl)
      refine ⟨p', hwake, h.updated hupdate ?_ hschedule hindex⟩
      have herase : ((holdings r.underlying).waiters q).erase t = rest := by
        rw [hrest, Multiset.erase_cons_head]
      rw [← herase]
      exact hmatches

/-- One call of a wait queue, answered as it was recorded. -/
theorem queues_lockstep (hS : KeepsQueues S WF holdings) :
    LockstepOn (Recorder.scheduler S).answer scheduler.answer
      (fun r call => WF r.underlying ∧ queueSpec.pre (holdings r.underlying) call)
      (fun r => r.schedule <+: full) (Keeping holdings full run) := by
  intro call r p x r' hC hkeep hanswer hupto
  obtain ⟨hWF, hsound, hproper, hqueue⟩ := hC
  have hcall : call.2 ≠ .isModelChecker := by
    intro hcall
    rw [hcall] at hqueue
    cases hqueue
  rw [Recorder.recorder_answer hcall] at hanswer
  obtain ⟨⟨x', u⟩, hunder, heq⟩ := map_eq_ok hanswer
  cases heq
  have hstep := hS.queues call r.underlying hWF trivial ⟨hsound, hproper, hqueue⟩
  rw [hunder] at hstep
  obtain ⟨-, hpost, -⟩ := hstep
  have hreply : ∀ p', scheduler.exec call p = .ok (x, p') →
      scheduler.answer call p = .ok (x, p') := fun p' hexec =>
    IScheduler.answer_ok_iff.mpr ⟨hexec, onQueue_usable hqueue x⟩
  have hwaits := hkeep.same.waiting
  obtain ⟨view, q⟩ := call
  cases q with
  | newWaitQueue =>
      obtain ⟨rfl, -, hu⟩ := hpost
      have hqueues : p.queueCount = (holdings r.underlying).queues := hkeep.same.queues
      have hexec : scheduler.exec (view, .newWaitQueue) p =
          .ok ((holdings r.underlying).queues,
            { p with queueCount := p.queueCount + 1 }) := by
        rw [← hqueues]
        rfl
      refine ⟨_, hreply _ hexec, ⟨⟨?_⟩, hkeep.same.given, ?_, ?_⟩, hkeep.schedule, ?_⟩
      · exact fun q hq => hkeep.same.wf.unused q (Nat.le_of_succ_le hq)
      · rw [hu]
        exact hwaits
      · rw [hu]
        exact congrArg (· + 1) hqueues
      · simpa [decision] using hkeep.next
  | queueIsEmpty q =>
      obtain ⟨hempty, hu⟩ := hpost
      have hsame : (p.waitSets q).isEmpty = x := by
        rw [Bool.eq_iff_iff, isEmpty_iff, hwaits q]
        exact hempty.symm
      have hexec : scheduler.exec (view, .queueIsEmpty q) p = .ok (x, p) := by
        rw [← hsame]
        rfl
      refine ⟨p, hreply p hexec, ?_, hkeep.schedule, ?_⟩
      · rw [hu]
        exact hkeep.same
      · simpa [decision] using hkeep.next
  | queuePush q t =>
      have hupdate : (holdings r.underlying).QueueUpdate (holdings u) q
        (t ::ₘ (holdings r.underlying).waiters q) := hpost
      obtain ⟨⟨hlacks, -⟩, hq⟩ := hproper
      have hnot : t ∉ p.waitSets q := by
        rw [← Multiset.mem_coe, hwaits q]
        exact hlacks.2 q
      refine ⟨_, hreply _ rfl, ?_⟩
      refine hkeep.updated hupdate (hkeep.same.setWaiting ?_ hq) rfl rfl
      rw [List.insert_of_not_mem hnot, ← Multiset.cons_coe, hwaits q]
      rfl
  | queuePop q =>
      obtain ⟨p', hwake, hkeep'⟩ : ∃ p', wakeOne q p = .ok (x, p') ∧
          Keeping holdings full run ⟨u, r.schedule ++ [Decision.wakeOne x]⟩ p' :=
        hkeep.wakes hpost hproper rfl hupto
      exact ⟨p', hreply p' hwake, hkeep'⟩
  | queuePopAll q =>
      obtain ⟨p', hwake, hkeep'⟩ : ∃ p', wakeAll q p = .ok (x, p') ∧
          Keeping holdings full run ⟨u, r.schedule ++ [Decision.wakeAll x]⟩ p' :=
        hkeep.wakes hpost hproper rfl hupto
      exact ⟨p', hreply p' hwake, hkeep'⟩
  | queueRemove q t =>
      obtain ⟨rfl, hupdate⟩ := hpost
      obtain ⟨hmem, hq⟩ := hproper
      have hwaiting : (p.waitSets q).elem t = true := by
        rw [List.elem_iff, ← Multiset.mem_coe, hwaits q]
        exact hmem
      have hexec : scheduler.exec (view, .queueRemove q t) p =
          .ok (true, setWaitSet q ((p.waitSets q).erase t) p) := by
        rw [← hwaiting]
        rfl
      refine ⟨_, hreply _ hexec, ?_⟩
      refine hkeep.updated hupdate (hkeep.same.setWaiting ?_ hq) rfl rfl
      rw [← Multiset.coe_erase, hwaits q]
      rfl
  | _ => cases hqueue

/-! ### Following a recorded run -/

/-- A run under the recorder, and a replay of it with the schedule `full`, call by
call. -/
inductive Follows (S : IScheduler σ) (holdings : σ → Holdings) (initial : σ → Prop)
    (full : Schedule) : Ledger → Sim → Recorder σ → State → Prop where
  | start {sim : Sim} {s : σ} (hinitial : initial s)
      (hfutex : ∀ key, sim.futex key = ⟨none, none⟩) :
      Follows S holdings initial full Ledger.empty sim (Recorder.new s) (State.new full)
  | op {ledger : Ledger} {sim sim' : Sim} {r r' : Recorder σ} {p p' : State}
      {op : QueueOp} {x : Option ThreadId} {y : Except Thrown (Option ThreadId) × Sim}
      (hfollows : Follows S holdings initial full ledger sim r p)
      (hlegal : op.Legal ledger (holdings r.underlying).owned)
      (hop : (op.program sim).interp (Recorder.scheduler S).answer r =
        .ok ((.ok x, sim'), r'))
      (hupto : r'.schedule <+: full)
      (hreplay : (op.program sim).interp scheduler.answer p = .ok (y, p')) :
      Follows S holdings initial full (ledger.after op x) sim' r' p'
  | call {ledger : Ledger} {sim : Sim} {r r' : Recorder σ} {p p' : State}
      {call : Call} {x y : call.Reply}
      (hfollows : Follows S holdings initial full ledger sim r p)
      (hcall : ledger.MayCall (holdings r.underlying) call)
      (hanswer : (Recorder.scheduler S).answer call r = .ok (x, r'))
      (hgoes : call.Continues x) (hupto : r'.schedule <+: full)
      (hreplay : scheduler.answer call p = .ok (y, p')) :
      Follows S holdings initial full ledger sim r' p'

/-- The run that is replayed goes on with this program. -/
def Goes (S : IScheduler σ) (full : Schedule) (sim : Sim) (r : Recorder σ) {α : Type}
    (m : KernelM α) : Prop :=
  ∃ x r', (m sim).interp (Recorder.scheduler S).answer r = .ok (x, r') ∧
    r'.schedule <+: full

/-- What the recorded run did, the replay does. -/
theorem replays {α : Type} {m : KernelM α} {sim : Sim} {r r' : Recorder σ} {p : State}
    {post : α → Sim → Holdings → Prop} {x : Except Thrown α × Sim}
    (hS : KeepsQueues S WF holdings) (hWF : WF r.underlying)
    (hkeep : Keeping holdings full run r p)
    (hwp : m.wp queueSpec False post (fun _ _ _ => False) sim (holdings r.underlying))
    (hrun : (m sim).interp (Recorder.scheduler S).answer r = .ok (x, r'))
    (hupto : r'.schedule <+: full) :
    ∃ p', (m sim).interp scheduler.answer p = .ok (x, p') ∧
      Keeping holdings full run r' p' := by
  have halong := Interaction.wp_along_pre (Recorder.keepsQueues hS).queues hWF
    (Interaction.Along.of_forall fun _ _ => trivial) hwp
  exact (queues_lockstep hS).interp recorded_before halong hkeep hrun hupto

/-- A call that is not one of a wait queue leaves the wait queues alone and takes
the decision that was recorded. -/
theorem exec_leaves {call : Call} {x y : call.Reply} {p p' : State}
    (hqueue : call.2.onQueue = false) (hstart : call.2 ≠ .start)
    (hgoes : call.Continues x) (h : scheduler.exec call p = .ok (y, p')) :
    p'.waitSets = p.waitSets ∧ p'.queueCount = p.queueCount ∧
      p'.schedule = p.schedule ∧ p'.next = p.next + (decision call x).toList.length := by
  have htaken : ∀ {β : Type} {get : Decision → Option β} {value : β},
      Replay.next get p = .ok (value, p') →
      p'.waitSets = p.waitSets ∧ p'.queueCount = p.queueCount ∧
        p'.schedule = p.schedule ∧ p'.next = p.next + 1 := by
    intro β get value htake
    rw [next_eq htake]
    exact ⟨rfl, rfl, rfl, rfl⟩
  obtain ⟨view, q⟩ := call
  cases q with
  | start => exact absurd rfl hstart
  | pickNext =>
      cases x with
      | error why => exact absurd hgoes id
      | ok t =>
          simp only [scheduler, pickNext] at h
          split at h
          · cases h
          · rename_i id p₁ htake
            rw [next_eq htake] at h
            split at h
            · cases h
              exact ⟨rfl, rfl, rfl, rfl⟩
            · cases h
  | randomChoice alts =>
      simp only [scheduler, randomChoice] at h
      split at h
      · cases h
      · rename_i index p₁ htake
        split at h
        · cases h
          exact htaken htake
        · cases h
  | randomNumber => exact htaken h
  | spuriousWakeup => exact htaken h
  | spuriousTryFailure => exact htaken h
  | exit t =>
      cases x with
      | error why => exact absurd hgoes id
      | ok =>
          cases h
          exact ⟨rfl, rfl, rfl, rfl⟩
  | newWaitQueue => cases hqueue
  | queueIsEmpty q => cases hqueue
  | queuePush q t => cases hqueue
  | queuePop q => cases hqueue
  | queuePopAll q => cases hqueue
  | queueRemove q t => cases hqueue
  | _ =>
      cases h
      exact ⟨rfl, rfl, rfl, rfl⟩

theorem Keeping.call {call : Call} {x y : call.Reply} {r r' : Recorder σ}
    {p p' : State} (h : Keeping holdings full run r p)
    (hqueue : call.2.onQueue = false) (hstart : call.2 ≠ .start)
    (hgoes : call.Continues x)
    (hsame : (holdings r.underlying).SameQueues (holdings r'.underlying))
    (hanswer : (Recorder.scheduler S).answer call r = .ok (x, r'))
    (hreplay : scheduler.answer call p = .ok (y, p')) :
    Keeping holdings full ↑p'.runSet r' p' := by
  obtain ⟨hwaits, hcount, hschedule, hnext⟩ :=
    exec_leaves hqueue hstart hgoes (IScheduler.answer_ok_iff.mp hreplay).1
  refine ⟨⟨⟨?_⟩, rfl, ?_, ?_⟩, hschedule.trans h.schedule, ?_⟩
  · rw [hwaits, hcount]
    exact h.same.wf.unused
  · rw [hwaits, booked, hsame.1]
    exact h.same.waiting
  · rw [hcount, booked, hsame.2]
    exact h.same.queues
  · rw [hnext, h.next, recorder_schedule hanswer, List.length_append]

/-- By induction on the two runs. -/
theorem Follows.keeping (hS : KeepsQueues S WF holdings) {initial : σ → Prop}
    (hinitial : ∀ s, initial s → WF s ∧ holdings s = Holdings.empty)
    {ledger : Ledger} {sim : Sim} {r : Recorder σ} {p : State}
    (h : Follows S holdings initial full ledger sim r p) :
    WF r.underlying ∧ Filed sim.futex (holdings r.underlying) ledger ∧
      Keeping holdings full ↑p.runSet r p := by
  induction h with
  | @start sim s hnew hfutex =>
      obtain ⟨hWF, hempty⟩ := hinitial _ hnew
      refine ⟨hWF, filed_start hfutex hempty, ⟨⟨fun _ _ => rfl⟩, rfl, ?_, ?_⟩, rfl, rfl⟩
      · intro q
        rw [booked, Recorder.new, hempty]
        rfl
      · rw [booked, Recorder.new, hempty]
        rfl
  | op _ hlegal hop hupto hreplay ih =>
      obtain ⟨hWF, hfiled, hkeep⟩ := ih
      have hwp := @Kernel.wp_queueOp _ _ _ (fun _ _ _ => False) hfiled _ hlegal
      obtain ⟨x', sim', r', hrun, hWF', -, -, hfiled'⟩ :=
        runs_of_wp (Recorder.keepsQueues hS) hWF hwp
      rw [hop] at hrun
      cases hrun
      obtain ⟨p', hsame, hkeep'⟩ := replays hS hWF hkeep hwp hop hupto
      rw [hreplay] at hsame
      cases hsame
      refine ⟨hWF', hfiled', ?_⟩
      rw [hkeep'.same.given]
      exact hkeep'
  | @call ledger sim r r' p p' call x y _ hcall hanswer hgoes hupto hreplay ih =>
      obtain ⟨hWF, hfiled, hkeep⟩ := ih
      have hproper := hfiled.proper hcall
      have hstep := (Recorder.keepsQueues hS).calls call r hWF hproper.allowed
        (hproper.pre hfiled.sound)
      rw [hanswer] at hstep
      have hfiled' := hfiled.call hcall hstep.2 hgoes
      obtain ⟨hqueue, hstart⟩ := Filed.quiet hcall
      have hsame := Filed.sameQueues hcall hstep.2 hgoes
      exact ⟨hstep.1, hfiled',
        hkeep.call hqueue hstart hgoes hsame hanswer hreplay⟩

/-- `IsEmpty` of the replay scheduler takes no decision. -/
theorem isEmpty_exact {sim : Sim} {p : State} {key : FutexKey} {ledger : Ledger}
    (hcontents : contents sim.futex p.holdings key = ledger key) :
    ∃ x, (Kernel.waitQueueIsEmpty key sim).interp scheduler.answer p =
        .ok ((.ok x, sim), p) ∧ (x = true ↔ ledger key = 0) := by
  rw [← hcontents, contents]
  have hget : ∀ k : Sim → KernelM Bool, (Effect.get >>= k) sim = k sim sim := fun _ => rfl
  rw [Kernel.waitQueueIsEmpty, hget]
  cases (sim.futex key).waiters with
  | some q => exact ⟨(p.waitSets q).isEmpty, rfl, isEmpty_iff (p.waitSets q)⟩
  | none =>
      refine ⟨(sim.futex key).singleton.isNone, rfl, ?_⟩
      cases (sim.futex key).singleton with
      | none => exact ⟨fun _ => rfl, fun _ => rfl⟩
      | some first =>
          refine ⟨fun hfirst => ?_, fun hfirst => ?_⟩
          · cases hfirst
          · exact absurd hfirst (Multiset.singleton_ne_zero first)

/-- The wait queues of the replay scheduler. -/
theorem Keeping.contents {sim : Sim} {r : Recorder σ} {p : State}
    (h : Keeping holdings full run r p) (key : FutexKey) :
    contents sim.futex p.holdings key =
      contents sim.futex (holdings r.underlying) key := by
  rw [TwistSim.contents, TwistSim.contents]
  cases (sim.futex key).waiters with
  | some q => exact h.same.waiting q
  | none => rfl

theorem exactSets (hS : KeepsQueues S WF holdings) {ledger : Ledger} {sim : Sim}
    {r : Recorder σ} {p : State} (hWF : WF r.underlying)
    (hfiled : Filed sim.futex (holdings r.underlying) ledger)
    (hkeep : Keeping holdings full ↑p.runSet r p) :
    ExactSets scheduler State.holdings (holdings r.underlying).owned
      (Goes S full sim r) ledger sim p where
  contents key := (hkeep.contents key).trans (hfiled.contents key)
  apart := hfiled.apart
  isEmpty key := by
    obtain ⟨x, hrun, hempty⟩ :=
      isEmpty_exact ((hkeep.contents key).trans (hfiled.contents key))
    exact ⟨x, p, hrun, hempty, rfl⟩
  operate op hlegal hgoes := by
    obtain ⟨x, r', hrun, hupto⟩ := hgoes
    have hwp := @Kernel.wp_queueOp _ _ _ (fun _ _ _ => False) hfiled _ hlegal
    obtain ⟨y, sim', r'', hrun', _, _, hreturns, hfiled'⟩ :=
      runs_of_wp (Recorder.keepsQueues hS) hWF hwp
    rw [hrun] at hrun'
    cases hrun'
    obtain ⟨p', hreplay, hkeep'⟩ := replays hS hWF hkeep hwp hrun hupto
    refine ⟨y, sim', p', hreplay, hreturns, ⟨hkeep'.same.given, rfl⟩, fun key => ?_⟩
    exact (hkeep'.contents key).trans (hfiled'.contents key)
  drain key fuel hfuel hgoes := by
    obtain ⟨x, r', hrun, hupto⟩ := hgoes
    have hwp := @Kernel.wp_popAllUntilNull _ _ _ _ (fun _ _ _ => False) hfiled _ hfuel
    obtain ⟨ts, sim', r'', hrun', _, _, hts, hfiled'⟩ :=
      runs_of_wp (Recorder.keepsQueues hS) hWF hwp
    rw [hrun] at hrun'
    cases hrun'
    obtain ⟨p', hreplay, hkeep'⟩ := replays hS hWF hkeep hwp hrun hupto
    refine ⟨ts, sim', p', hreplay, hts, ⟨hkeep'.same.given, rfl⟩, fun key' => ?_⟩
    exact (hkeep'.contents key').trans (hfiled'.contents key')

end Replay

/-! ### Every scheduler -/

/-- The wait queues over a scheduler are exact sets, and so are those over the
replay scheduler when it replays what the scheduler did. -/
structure ExactQueues {σ : Type} (S : IScheduler σ) (new : σ) (WF : σ → Prop)
    (holdings : σ → Holdings) : Prop where
  new : WF new ∧ holdings new = Holdings.empty
  direct : ∀ ledger sim s,
    QueueRun S holdings (fun s => WF s ∧ holdings s = Holdings.empty) ledger sim s →
    ExactSets S holdings (holdings s).owned (fun _ => True) ledger sim s
  replayed : ∀ full ledger sim r p,
    Replay.Follows S holdings (fun s => WF s ∧ holdings s = Holdings.empty) full
      ledger sim r p →
    ExactSets Replay.scheduler Replay.State.holdings (holdings r.underlying).owned
      (Replay.Goes S full sim r) ledger sim p

theorem exactQueues {σ : Type} {S : IScheduler σ} {new : σ} {WF : σ → Prop}
    {holdings : σ → Holdings} (hS : KeepsQueues S WF holdings)
    (hnew : WF new ∧ holdings new = Holdings.empty) :
    ExactQueues S new WF holdings where
  new := hnew
  direct ledger sim s hrun := by
    obtain ⟨hWF, hfiled⟩ := hrun.filed hS fun _ h => h
    exact exactSets_of_filed hS hWF hfiled
  replayed full ledger sim r p hfollows := by
    obtain ⟨hWF, hfiled, hkeep⟩ := hfollows.keeping hS fun _ h => h
    exact Replay.exactSets hS hWF hfiled hkeep

/-- Whatever the scheduler, wait queues are exact sets; for the depth-first
scheduler this is so with all choices in range, and exploration makes no others. -/
theorem waitQueues_exact :
    (∀ params, ExactQueues Coop.scheduler (Coop.State.new params) Coop.State.WF
      Coop.State.holdings) ∧
    (∀ params, ExactQueues (Random.scheduler params) (Random.State.new params)
      Random.State.WF Random.State.holdings) ∧
    (∀ params fuel seed, ExactQueues (Pct.scheduler params fuel) (Pct.State.new seed)
      Pct.State.WF Pct.State.holdings) ∧
    (∀ params answers, ExactQueues (Dfs.guided params answers) (0, Dfs.State.fresh)
      (Dfs.GuidedWF params) (Dfs.guidedHoldings params)) ∧
    ∀ (α : Type) (params : Dfs.Params) (view : KernelView)
      (next : Unit → Scheduled α) (s : Dfs.Scheduler),
      Dfs.Plain (next ()) → Dfs.Explored params (.ask (view, .start) next) s →
      ∃ answers : Nat → Nat,
        ((Interaction.ask (view, .start) next : Scheduled α).interp
            (Dfs.scheduler params).answer s).map (fun x => (x.1, x.2.state)) =
          ((Interaction.ask (view, .start) next : Scheduled α).interp
            (Dfs.guided params answers).answer (0, Dfs.State.fresh)).map
            fun x => (x.1, x.2.2) := by
  refine ⟨fun params => ?_, fun params => ?_, fun params fuel seed => ?_,
    fun params answers => ?_, fun _ _ _ _ _ => Dfs.explored_guided⟩
  · exact exactQueues Coop.keepsQueues
      ⟨⟨IntrusiveLists.empty_consistent, fun _ _ => rfl⟩, rfl⟩
  · exact exactQueues (Random.keepsQueues params) ⟨fun _ _ => rfl, rfl⟩
  · exact exactQueues (Pct.keepsQueues params fuel)
      ⟨⟨IntrusiveLists.empty_consistent, fun _ _ => rfl⟩, rfl⟩
  · exact exactQueues (Dfs.keepsQueues params answers)
      ⟨Dfs.fresh_wf, Dfs.fresh_holdings⟩

/-- Two threads wait on one futex, and a first run of an exploration only asks
whether there is a thread. -/
theorem twoWaiters_exact :
    (∃ ledger sim s,
      ExactSets Coop.scheduler Coop.State.holdings (Coop.State.holdings s).owned
        (fun _ => True) ledger sim s ∧ ledger ⟨8, .whole⟩ = {2, 1}) ∧
    ∃ answers : Nat → Nat,
      ((Interaction.ask (Sim.view (Sim.init {} false), .start) fun _ =>
          .ask (Sim.view (Sim.init {} false), .isIdle) .ret : Scheduled Bool).interp
          (Dfs.scheduler {}).answer Dfs.Scheduler.new).map
          (fun x => (x.1, x.2.state)) =
        ((Interaction.ask (Sim.view (Sim.init {} false), .start) fun _ =>
          .ask (Sim.view (Sim.init {} false), .isIdle) .ret : Scheduled Bool).interp
          (Dfs.guided {} answers).answer (0, Dfs.State.fresh)).map
          fun x => (x.1, x.2.2) := by
  constructor
  · have hexact := waitQueues_exact.1 ⟨0⟩
    have hstart := @QueueRun.start _ Coop.scheduler Coop.State.holdings
      (fun s => s.WF ∧ s.holdings = Holdings.empty) (Sim.init {} false)
      (Coop.State.new ⟨0⟩) hexact.new fun _ => rfl
    have hvalid : Holdings.ValidId 1 ∧ Holdings.ValidId 2 :=
      ⟨⟨by decide, by decide⟩, by decide, by decide⟩
    have hfirst : QueueOp.Legal Ledger.empty
        (Coop.State.holdings (Coop.State.new ⟨0⟩)).owned (.push ⟨8, .whole⟩ 1) :=
      ⟨hvalid.1, Multiset.notMem_zero 1, fun _ => Multiset.notMem_zero 1⟩
    obtain ⟨_, sim₁, s₁, hop₁, _, hsame₁, _⟩ :=
      (hexact.direct _ _ _ hstart).operate _ hfirst trivial
    have hrun₁ := hstart.op hfirst hop₁
    have hsecond : QueueOp.Legal (Ledger.empty.after (.push ⟨8, .whole⟩ 1) none)
        (Coop.State.holdings s₁).owned (.push ⟨8, .whole⟩ 2) := by
      refine ⟨hvalid.2, hsame₁.owned ▸ Multiset.notMem_zero 2, fun key => ?_⟩
      by_cases hkey : key = ⟨8, .whole⟩
      · subst hkey
        decide
      · rw [Ledger.after, Function.update_of_ne hkey]
        exact Multiset.notMem_zero 2
    obtain ⟨_, sim₂, s₂, hop₂, _⟩ :=
      (hexact.direct _ _ _ hrun₁).operate _ hsecond trivial
    exact ⟨_, sim₂, s₂, hexact.direct _ _ _ (hrun₁.op hsecond hop₂), rfl⟩
  · refine waitQueues_exact.2.2.2.2 Bool {} _ _ _ ?_ Dfs.Explored.new
    exact ⟨⟨by decide, fun alts halts => by cases halts⟩, fun _ => trivial⟩

end TwistSim

/-
`Idle`: when nobody is runnable, virtual time jumps to the next deadline.  Whether a
jump always wakes somebody depends on how the deadline is rounded to ticks.
-/
import TwistSim.Turns
import TwistSim.PctScheduler
import TwistSim.RandomScheduler
import TwistSim.CoopScheduler
import TwistSim.DfsScheduler
import TwistSim.Recording

namespace TwistSim

open Effect
open Interaction (graphSpec interp)

/-! ### Schedulers that notice a woken thread -/

/-- `idle` is what `IsIdle` answers, and it is false after a wakeup. -/
structure IScheduler.Rouses {σ : Type} (S : IScheduler σ) (idle : σ → Bool) : Prop where
  isIdle : ∀ view s, S.answer (view, .isIdle) s = .ok (idle s, s)
  wake : ∀ view t s s', S.answer (view, .wake t) s = .ok ((), s') → idle s' = false

theorem answer_exec {σ : Type} {S : IScheduler σ} {call : Call} {s s' : σ}
    {r : call.Reply} (h : S.answer call s = .ok (r, s')) : S.exec call s = .ok (r, s') :=
  (IScheduler.answer_ok_iff.mp h).1

theorem Coop.rouses : Coop.scheduler.Rouses fun s => s.lists.isEmpty none where
  isIdle _ _ := rfl
  wake view t s s' h := by
    have hpush : Coop.pushBack s t = .ok ((), s') := answer_exec h
    obtain ⟨lists, hlists, hs'⟩ := map_eq_ok hpush
    cases hs'
    unfold IntrusiveLists.pushBack at hlists
    split at hlists
    · cases hlists
    · cases hlists
      simp [IntrusiveLists.isEmpty, IntrusiveLists.link]

theorem Random.rouses (params : Random.Params) :
    (Random.scheduler params).Rouses fun s => s.runQueue.isEmpty && s.next.isNone where
  isIdle _ _ := rfl
  wake view t s s' h := by
    have henqueue : Random.done (Random.enqueue t s) = .ok ((), s') := answer_exec h
    obtain ⟨s₁, hpush, hs₁⟩ := map_eq_ok henqueue
    cases hs₁
    obtain ⟨runQueue, hqueue, rfl⟩ := map_eq_ok hpush
    unfold ThreadSet.push at hqueue
    split at hqueue
    · cases hqueue
    · cases hqueue
      simp

theorem Pct.rouses (params : Pct.Params) (fuel : Nat) :
    (Pct.scheduler params fuel).Rouses
      fun s => s.runQueue.isEmpty && s.active.isNone where
  isIdle _ _ := rfl
  wake view t s s' h := by
    have henqueue : Except.ok ((), Pct.enqueue t s) = .ok ((), s') := answer_exec h
    cases henqueue
    simp [Pct.enqueue]

theorem Dfs.rouses (params : Dfs.Params) :
    (Dfs.scheduler params).Rouses
      fun s => s.state.runQueue.isEmpty && s.state.active.isNone where
  isIdle _ _ := rfl
  wake view t s s' h := by
    have hpush : Except.ok ((), ⟨s.cursor, s.state.push t⟩) = .ok ((), s') := answer_exec h
    cases hpush
    simp [Dfs.State.push, SortedList.push]

theorem Replay.rouses : Replay.scheduler.Rouses fun s => s.runSet.isEmpty where
  isIdle _ _ := rfl
  wake view t s s' h := by
    have hemplace : Replay.emplace t s = .ok ((), s') := answer_exec h
    cases hemplace
    rw [List.isEmpty_eq_false_iff_exists_mem]
    exact ⟨t, List.mem_insert_self⟩

theorem Replay.Recorder.rouses {σ : Type} {S : IScheduler σ} {idle : σ → Bool}
    (hS : S.Rouses idle) : (scheduler S).Rouses fun r => idle r.underlying where
  isIdle view r := by
    have hcall : ((view, .isIdle) : Call).2 ≠ .isModelChecker := by simp
    rw [recorder_answer hcall, hS.isIdle]
    simp [Except.map, decision]
  wake view t r r' h := by
    have hcall : ((view, .wake t) : Call).2 ≠ .isModelChecker := by simp
    rw [recorder_answer hcall] at h
    obtain ⟨⟨reply, s⟩, hanswer, hr'⟩ := map_eq_ok h
    cases hr'
    exact hS.wake view t r.underlying s hanswer

/-! ### What the simulator does when it returns -/

/-- The clock and the threads are as before. -/
structure Sim.SameThreads (sim sim' : Sim) : Prop where
  ticks : sim'.ticks = sim.ticks
  params : sim'.params = sim.params
  threads : sim'.threads = sim.threads

theorem Sim.SameThreads.refl (sim : Sim) : sim.SameThreads sim := ⟨rfl, rfl, rfl⟩

theorem Sim.SameThreads.trans {sim₁ sim₂ sim₃ : Sim} (h : sim₁.SameThreads sim₂)
    (h' : sim₂.SameThreads sim₃) : sim₁.SameThreads sim₃ :=
  ⟨h'.ticks.trans h.ticks, h'.params.trans h.params, h'.threads.trans h.threads⟩

namespace Kernel

variable {α σ : Type} {S : IScheduler σ} {idle : σ → Bool} {sim : Sim} {s : σ}

/-- If it returns, `post` holds. -/
def Returns (S : IScheduler σ) (m : KernelM α) (post : α → Sim → σ → Prop)
    (sim : Sim) (s : σ) : Prop :=
  m.wp (graphSpec S.answer) True post (fun _ _ _ => True) sim s

theorem Returns.mono {m : KernelM α} {post post' : α → Sim → σ → Prop}
    (h : Returns S m post sim s)
    (hpost : ∀ x sim' s', post x sim' s' → post' x sim' s') :
    Returns S m post' sim s :=
  wp_mono h hpost fun _ _ _ hexc => hexc

theorem Returns.bind {β : Type} {m : KernelM β} {f : β → KernelM α}
    {P : β → Sim → σ → Prop} {post : α → Sim → σ → Prop} (h : Returns S m P sim s)
    (hf : ∀ x sim' s', P x sim' s' → Returns S (f x) post sim' s') :
    Returns S (m >>= f) post sim s :=
  wp_bind.mpr (wp_mono h hf fun _ _ _ hexc => hexc)

theorem returns_get :
    Returns S get (fun r sim' s' => r = sim ∧ sim' = sim ∧ s' = s) sim s :=
  ⟨rfl, rfl, rfl⟩

theorem returns_query {q : Query} {post : q.Reply → Sim → σ → Prop}
    (h : ∀ r s', S.answer (sim.view, q) s = .ok (r, s') → post r sim s') :
    Returns S (query q) post sim s := by
  simp only [Returns, query, wp_bind, wp_get, wp_ask]
  exact fun _ => ⟨trivial, fun _ => trivial, h⟩

theorem returns_checked {x : Except Panic α} {post : α → Sim → σ → Prop}
    (h : ∀ value, x = .ok value → post value sim s) :
    Returns S (checked x) post sim s := by
  cases x with
  | ok value => exact h value rfl
  | error p => trivial

theorem returns_verify {cond : Bool} {error : String} {post : Unit → Sim → σ → Prop}
    (h : cond = true → post () sim s) : Returns S (verify cond error) post sim s := by
  cases cond with
  | true => exact h rfl
  | false => trivial

/-- An abort does not return. -/
theorem returns_sysAbort {status : Status} {post : α → Sim → σ → Prop} :
    Returns S (sysAbort status) post sim s := by
  unfold sysAbort
  refine wp_raises fun sim' _ _ => ?_
  cases sim'.params.isolation with
  | true => trivial
  | false => trivial

theorem returns_onMemory {op : Memory → Except Stop (α × Memory)} :
    Returns S (onMemory op) (fun _ sim' _ => sim.SameThreads sim') sim s := by
  unfold onMemory
  refine returns_get.bind ?_
  rintro _ _ _ ⟨rfl, rfl, rfl⟩
  split
  · exact ⟨rfl, rfl, rfl⟩
  · exact wp_raises fun _ _ _ => returns_sysAbort
  · trivial

theorem returns_waitQueueRemove {key : FutexKey} {t : ThreadId} :
    Returns S (waitQueueRemove key t) (fun _ sim' _ => sim.SameThreads sim') sim s := by
  unfold waitQueueRemove
  refine returns_get.bind ?_
  rintro _ sim _ ⟨rfl, rfl, rfl⟩
  dsimp only
  split
  · refine Returns.bind (P := fun _ sim' _ => sim' = sim) ?_ ?_
    · exact returns_query fun _ _ _ => rfl
    · rintro _ _ _ rfl
      exact returns_verify fun _ => Sim.SameThreads.refl _
  · exact returns_verify fun _ => ⟨rfl, rfl, rfl⟩

theorem returns_cancelTimer {t : ThreadId} :
    Returns S (cancelTimer t) (fun _ sim' _ => sim.SameThreads sim') sim s := by
  unfold cancelTimer removeTimer
  refine Returns.bind (P := fun _ sim' _ => sim.SameThreads sim') ?_ ?_
  · refine returns_get.bind ?_
    rintro _ sim _ ⟨rfl, rfl, rfl⟩
    refine Returns.bind (P := fun _ sim' _ => sim' = sim)
      (returns_checked fun _ _ => rfl) ?_
    rintro _ _ _ rfl
    exact ⟨rfl, rfl, rfl⟩
  · exact fun _ _ _ hsame => returns_verify fun _ => hsame

/-- The end of `Wake`, with a timer or without. -/
theorem returns_cancelIf {t : ThreadId} {cond : Bool} {status : CallStatus} :
    Returns S (if cond = true then cancelTimer t >>= fun _ => pure status else pure status)
      (fun _ sim' _ => sim.SameThreads sim') sim s := by
  split
  · exact returns_cancelTimer.bind fun _ _ _ hsame => hsame
  · exact Sim.SameThreads.refl sim

theorem returns_wakeReason {waker : Option ThreadId} {t : ThreadId} {type : WakeType} :
    Returns S (wakeReason waker t type) (fun _ sim' _ => sim.SameThreads sim') sim s := by
  cases type with
  | sleepTimer => exact Sim.SameThreads.refl sim
  | futexWake =>
      cases waker with
      | none => trivial
      | some waker =>
          refine returns_onMemory.bind fun _ sim₁ _ h₁ => ?_
          refine returns_get.bind ?_
          rintro _ _ _ ⟨rfl, rfl, rfl⟩
          exact returns_cancelIf.mono fun _ _ _ => h₁.trans
  | futexTimer =>
      refine returns_get.bind ?_
      rintro _ sim _ ⟨rfl, rfl, rfl⟩
      dsimp only
      split
      · exact returns_waitQueueRemove.bind fun _ _ _ hsame => hsame
      · trivial
  | spurious =>
      refine returns_get.bind ?_
      rintro _ sim _ ⟨rfl, rfl, rfl⟩
      dsimp only
      split
      · refine returns_waitQueueRemove.bind fun _ sim₁ _ h₁ => ?_
        refine returns_get.bind ?_
        rintro _ _ _ ⟨rfl, rfl, rfl⟩
        exact returns_cancelIf.mono fun _ _ _ => h₁.trans
      · refine returns_get.bind ?_
        rintro _ _ _ ⟨rfl, rfl, rfl⟩
        exact returns_cancelIf

end Kernel

/-- The clock is as before, `t` is runnable, and so is whoever was. -/
structure Sim.Woken (sim sim' : Sim) (t : ThreadId) : Prop where
  ticks : sim'.ticks = sim.ticks
  params : sim'.params = sim.params
  self : (sim'.threads t).state = .runnable
  others : ∀ u, (sim.threads u).state = .runnable → (sim'.threads u).state = .runnable

namespace Kernel

variable {σ : Type} {S : IScheduler σ} {idle : σ → Bool} {sim : Sim} {s : σ}

theorem returns_wake (hS : S.Rouses idle) {waker : Option ThreadId} {t : ThreadId}
    {type : WakeType} :
    Returns S (wake waker t type)
      (fun _ sim' s' => sim.Woken sim' t ∧ idle s' = false) sim s := by
  unfold wake
  refine returns_get.bind ?_
  rintro _ sim _ ⟨rfl, rfl, rfl⟩
  dsimp only
  split
  · trivial
  · refine returns_wakeReason.bind fun status sim₁ s₁ hsame => ?_
    refine Returns.bind (P := fun _ sim' s' => sim.Woken sim' t) ?_ fun _ sim₂ s₂ hwoken => ?_
    · refine ⟨hsame.ticks, hsame.params, ?_, fun u hu => ?_⟩
      · simp only [Sim.setThread, Function.update_self]
      · by_cases hut : u = t
        · subst hut
          simp only [Sim.setThread, Function.update_self]
        · simp only [Sim.setThread, Function.update_of_ne hut, hsame.threads]
          exact hu
    · unfold scheduleWaiter
      refine Returns.bind (P := fun _ sim' _ => sim.Woken sim' t) ?_ fun _ sim₃ s₃ hwoken => ?_
      · refine ⟨hwoken.ticks, hwoken.params, ?_, fun u hu => ?_⟩
        · simp only [Sim.setThread, Function.update_self]
          exact hwoken.self
        · by_cases hut : u = t
          · subst hut
            simp only [Sim.setThread, Function.update_self]
            exact hwoken.self
          · simp only [Sim.setThread, Function.update_of_ne hut]
            exact hwoken.others u hu
      · exact returns_query fun r s' hanswer => ⟨hwoken, hS.wake _ _ _ _ hanswer⟩

/-- The timer at the root of the heap was due, and its thread is runnable now. -/
structure Polled (idle : σ → Bool) (sim sim' : Sim) (s' : σ) : Prop where
  ticks : sim'.ticks = sim.ticks
  params : sim'.params = sim.params
  busy : idle s' = false
  others : ∀ u, (sim.threads u).state = .runnable → (sim'.threads u).state = .runnable
  alarm : ∃ t when, sim.timerQueue.nextDeadLine = some when ∧
    sim.timerQueue.heap.tree 1 = some t ∧ when ≤ sim.now ∧
    (sim'.threads t).state = .runnable

/-- By induction on the number of timers that may fire. -/
theorem returns_pollTimersLoop (hS : S.Rouses idle) (fuel : Nat) :
    Returns S (pollTimersLoop fuel)
      (fun r sim' s' =>
        (r = false → sim' = sim ∧ s' = s ∧
          (fuel = 0 ∨ ∀ when, sim.timerQueue.nextDeadLine = some when → sim.now < when)) ∧
        (r = true → Polled idle sim sim' s')) sim s := by
  induction fuel generalizing sim s with
  | zero => exact ⟨fun _ => ⟨rfl, rfl, Or.inl rfl⟩, by simp⟩
  | succ fuel ih =>
      unfold pollTimersLoop
      refine returns_get.bind ?_
      rintro _ sim s ⟨rfl, rfl, rfl⟩
      split
      · rename_i heq
        refine ⟨fun _ => ⟨rfl, rfl, Or.inr fun when hnext => ?_⟩, by simp⟩
        by_contra hdue
        rw [TimerQueue.poll, hnext] at heq
        simp only [if_pos (Int.not_lt.mp hdue), TimerHeap.extractMin, Prod.mk.injEq] at heq
        rw [TimerQueue.nextDeadLine] at hnext
        split at hnext
        · cases hnext
        · rw [heq.1] at hnext
          cases hnext
      · rename_i t queue heq
        have hroot : ∃ when, sim.timerQueue.nextDeadLine = some when ∧
            sim.timerQueue.heap.tree 1 = some t ∧ when ≤ sim.now := by
          unfold TimerQueue.poll at heq
          split at heq
          · rename_i when hnext
            split at heq
            · rename_i hdue
              exact ⟨when, hnext, congrArg Prod.fst heq, hdue⟩
            · cases heq
          · cases heq
        obtain ⟨when, hnext, htree, hdue⟩ := hroot
        refine Returns.bind (P := fun _ sim' s' => sim' = { sim with timerQueue := queue } ∧
          s' = s) ⟨rfl, rfl⟩ ?_
        rintro _ _ s ⟨rfl, rfl⟩
        refine (returns_wake hS).bind ?_
        rintro _ sim₁ s₁ ⟨hwoken, hbusy⟩
        refine ih.bind ?_
        rintro r sim₂ s₂ ⟨hfalse, htrue⟩
        refine ⟨by simp, fun _ => ?_⟩
        cases r with
        | false =>
            obtain ⟨rfl, rfl, -⟩ := hfalse rfl
            exact ⟨hwoken.ticks, hwoken.params, hbusy, hwoken.others,
              t, when, hnext, htree, hdue, hwoken.self⟩
        | true =>
            have hpolled := htrue rfl
            exact ⟨hpolled.ticks.trans hwoken.ticks, hpolled.params.trans hwoken.params,
              hpolled.busy, fun u hu => hpolled.others u (hwoken.others u hu),
              t, when, hnext, htree, hdue, hpolled.others t hwoken.self⟩

/-- `PollTimers` does nothing, or wakes the thread of the root. -/
theorem returns_pollTimers (hS : S.Rouses idle) :
    Returns S pollTimers
      (fun r sim' s' =>
        (r = false → sim' = sim ∧ s' = s ∧
          ∀ when, sim.timerQueue.nextDeadLine = some when → sim.now < when) ∧
        (r = true → Polled idle sim sim' s')) sim s := by
  unfold pollTimers
  refine returns_get.bind ?_
  rintro _ sim s ⟨rfl, rfl, rfl⟩
  refine (returns_pollTimersLoop hS _).mono fun r sim' s' ⟨hfalse, htrue⟩ => ⟨fun hr => ?_, htrue⟩
  obtain ⟨hsim, hs, hsize | hearly⟩ := hfalse hr
  · refine ⟨hsim, hs, fun when hnext => ?_⟩
    simp [TimerQueue.nextDeadLine, TimerQueue.isEmpty, TimerHeap.isEmpty, hsize] at hnext
  · exact ⟨hsim, hs, hearly⟩

theorem returns_checkDeadlock (hS : S.Rouses idle) :
    Returns S checkDeadlock (fun _ sim' s' => sim' = sim ∧ s' = s) sim s := by
  unfold checkDeadlock isDeadlock
  refine Returns.bind (P := fun _ sim' s' => sim' = sim ∧ s' = s) ?_ ?_
  · refine Returns.bind (P := fun _ sim' s' => sim' = sim ∧ s' = s) ?_ ?_
    · refine returns_query fun r s' hanswer => ⟨rfl, ?_⟩
      rw [hS.isIdle] at hanswer
      cases hanswer
      rfl
    · rintro _ _ _ ⟨rfl, rfl⟩
      exact ⟨rfl, rfl⟩
  · rintro deadlock sim s ⟨rfl, rfl⟩
    split
    · refine returns_get.bind fun _ _ _ _ => ?_
      refine wp_raises fun _ _ _ => wp_raises fun _ _ _ => returns_sysAbort
    · exact ⟨rfl, rfl⟩

/-- The first timer was due, or the clock jumped to its deadline, rounded up. -/
inductive Idled (idle : σ → Bool) (sim : Sim) (s : σ) (sim' : Sim) (s' : σ) : Prop where
  | due (h : Polled idle sim sim' s')
  | jump {when : Int} {sim₁ : Sim} (hnext : sim.timerQueue.nextDeadLine = some when)
      (hearly : sim.now < when)
      (hsim : sim₁ = { sim with ticks := Time.toTicks sim.params.tick when })
      (h : sim' = sim₁ ∧ s' = s ∧ sim₁.now < when ∨ Polled idle sim₁ sim' s')

theorem advanceTo_ok {tick future : Int} {ticks ticks' : Nat}
    (h : Time.advanceTo tick future ticks = .ok ticks') :
    ticks' = Time.toTicks tick future := by
  unfold Time.advanceTo at h
  split at h
  · cases h
  · split at h
    · cases h
    · split at h
      · cases h
      · rename_i hle
        cases h
        rw [Nat.add_sub_of_le (Nat.not_lt.mp hle)]
        refine Nat.mod_eq_of_lt ?_
        unfold Time.toTicks ticksSize
        omega

theorem returns_idle (hS : S.Rouses idle) :
    Returns S Kernel.idle (fun r sim' s' => r = true → Idled idle sim s sim' s') sim s := by
  unfold Kernel.idle
  refine (returns_checkDeadlock hS).bind ?_
  rintro _ sim s ⟨rfl, rfl⟩
  refine returns_get.bind ?_
  rintro _ sim s ⟨rfl, rfl, rfl⟩
  split
  · exact nofun
  · refine (returns_pollTimers hS).bind fun progress sim₁ s₁ ⟨hfalse, htrue⟩ => ?_
    cases progress with
    | true => exact fun _ => Idled.due (htrue rfl)
    | false =>
        obtain ⟨rfl, rfl, hearly⟩ := hfalse rfl
        refine Returns.bind (P := fun _ sim₂ s₂ => s₂ = s₁ ∧ ∃ when,
          sim₁.timerQueue.nextDeadLine = some when ∧
          sim₂ = { sim₁ with ticks := Time.toTicks sim₁.params.tick when }) ?_ ?_
        · unfold advanceToNextDeadLine
          refine returns_get.bind ?_
          rintro _ sim s ⟨rfl, rfl, rfl⟩
          split
          · rename_i deadline hnext
            refine Returns.bind (P := fun ticks sim' s' => sim' = sim ∧ s' = s ∧
              ticks = Time.toTicks sim.params.tick deadline)
              (returns_checked fun ticks hticks => ⟨rfl, rfl, advanceTo_ok hticks⟩) ?_
            rintro _ _ _ ⟨rfl, rfl, rfl⟩
            exact ⟨rfl, deadline, hnext, rfl⟩
          · trivial
        · rintro _ sim₂ _ ⟨rfl, when, hnext, hsim₂⟩
          refine (returns_pollTimers hS).bind fun r sim' s' ⟨hfalse', htrue'⟩ _ => ?_
          refine Idled.jump hnext (hearly when hnext) hsim₂ ?_
          cases r with
          | true => exact Or.inr (htrue' rfl)
          | false =>
              obtain ⟨rfl, rfl, hearly'⟩ := hfalse' rfl
              refine Or.inl ⟨rfl, rfl, hearly' when ?_⟩
              rw [hsim₂]
              exact hnext

end Kernel

/-! ### Rounding -/

namespace Time

variable {tick instant : Int}

/-- `ToDur(ToTicks(instant))` in unbounded integers. -/
def rounded (tick instant : Int) : Int :=
  (instant.tdiv tick + if instant.tmod tick = 0 then 0 else 1) * tick

/-- The instant without its remainder, and a tick if there was one. -/
theorem rounded_eq (tick instant : Int) :
    rounded tick instant =
      instant - instant.tmod tick + if instant.tmod tick = 0 then 0 else tick := by
  rw [rounded, Int.add_mul, Int.tdiv_mul_self]
  split
  · rw [Int.zero_mul]
  · rw [Int.one_mul]

theorem le_rounded (htick : 0 < tick) : instant ≤ rounded tick instant := by
  have hmod := Int.tmod_lt_of_pos instant htick
  rw [rounded_eq]
  split <;> omega

theorem rounded_lt (htick : 0 < tick) (hpos : 0 ≤ instant) :
    rounded tick instant < instant + tick := by
  have hmod := Int.tmod_nonneg tick hpos
  rw [rounded_eq]
  split <;> omega

theorem rounded_le (htick : 0 < tick) (hneg : instant < 0) :
    rounded tick instant ≤ tick := by
  have hdiv : 0 ≤ (-instant).tdiv tick := Int.tdiv_nonneg (by omega) htick.le
  rw [Int.neg_tdiv] at hdiv
  have hmul : instant.tdiv tick * tick ≤ 0 :=
    Int.mul_nonpos_of_nonpos_of_nonneg (by omega) htick.le
  rw [Int.tdiv_mul_self] at hmul
  rw [rounded_eq]
  split <;> omega

theorem toInt64_of_fits {x : Int} (h : -2 ^ 63 ≤ x) (h' : x < 2 ^ 63) : toInt64 x = x :=
  Int.bmod_eq_of_le (by omega) (by omega)

theorem toInt64_of_large {x : Int} (h : 2 ^ 63 ≤ x) (h' : x < 2 ^ 64) :
    toInt64 x = x - 2 ^ 64 := by
  rw [toInt64, Int.bmod_eq_iff (by decide)]
  omega

/-- `Now` after a jump. -/
theorem now_toTicks (tick instant : Int) :
    now tick (toTicks tick instant) = toInt64 (rounded tick instant) := by
  have hcast : ((toTicks tick instant : Nat) : Int) =
      (instant.tdiv tick + if instant.tmod tick = 0 then 0 else 1) % (2 ^ 64 : Nat) := by
    unfold toTicks
    omega
  rw [now, hcast, toInt64, toInt64, rounded, Int.emod_mul_bmod]

end Time

/-! ### Progress -/

namespace Sim

variable {sim sim' : Sim}

/-- The deadline of a pending timer. -/
def Pending (sim : Sim) (when : Int) : Prop :=
  ∃ t, sim.timerQueue.heap.Stores t ∧ (sim.timerQueue.heap.timers t).when = when

/-- The tick and the deadlines are positive, or any, `int64_t`. -/
structure Representable (sim : Sim) : Prop where
  tick_pos : 0 < sim.params.tick
  tick_lt : sim.params.tick < 2 ^ 63
  pending : ∀ when, sim.Pending when → -2 ^ 63 ≤ when ∧ when < 2 ^ 63

/-- The next deadline is over, or rounded up to a multiple of the tick it still fits
and is less than a tick away from every pending deadline. -/
def RoundsWell (sim : Sim) : Prop :=
  ∀ when, sim.timerQueue.nextDeadLine = some when →
    when ≤ sim.now ∨
      Time.rounded sim.params.tick when < 2 ^ 63 ∧
        ∀ pending, sim.Pending pending →
          Time.rounded sim.params.tick when < pending + sim.params.tick

/-- Time goes forward, to a pending deadline and not far beyond the first one, and
somebody wakes up. -/
structure Progress {σ : Type} (idle : σ → Bool) (sim sim' : Sim) (s' : σ) : Prop where
  forward : sim.now ≤ sim'.now
  close : sim'.ticks ≠ sim.ticks →
    ∀ pending, sim.Pending pending → sim'.now < pending + sim.params.tick
  alarm : ∃ t, sim.timerQueue.heap.Stores t ∧
    (sim.timerQueue.heap.timers t).when ≤ sim'.now ∧ (sim'.threads t).state = .runnable
  busy : idle s' = false

/-- The next deadline is that of a pending timer. -/
theorem root_pending {when : Int} (h : sim.timerQueue.nextDeadLine = some when) :
    ∃ t, sim.timerQueue.heap.tree 1 = some t ∧ sim.timerQueue.heap.Stores t ∧
      (sim.timerQueue.heap.timers t).when = when := by
  obtain ⟨hpos, t, htree, hwhen⟩ := TimerQueue.nextDeadLine_root h
  exact ⟨t, htree, ⟨1, ⟨Nat.le_refl 1, hpos⟩, htree⟩, hwhen⟩

variable {σ : Type} {idle : σ → Bool} {s s' : σ}

theorem Progress.of_polled (hpolled : Kernel.Polled idle sim sim' s') :
    sim.Progress idle sim' s' := by
  obtain ⟨t, when, hnext, htree, hdue, hstate⟩ := hpolled.alarm
  obtain ⟨u, hroot, hstores, hwhen⟩ := root_pending hnext
  obtain rfl : t = u := Option.some.inj (htree.symm.trans hroot)
  have hnow : sim'.now = sim.now := by rw [now, now, hpolled.ticks, hpolled.params]
  refine ⟨hnow.ge, fun hticks => absurd hpolled.ticks hticks, ⟨t, hstores, ?_, hstate⟩,
    hpolled.busy⟩
  rw [hwhen, hnow]
  exact hdue

/-- The clock jumps to the next deadline. -/
theorem progress_jump {when : Int} {sim₁ : Sim} (hfits : sim.Representable)
    (hs : idle s = true) (hnext : sim.timerQueue.nextDeadLine = some when)
    (hearly : sim.now < when)
    (hsim : sim₁ = { sim with ticks := Time.toTicks sim.params.tick when })
    (h : sim' = sim₁ ∧ s' = s ∧ sim₁.now < when ∨ Kernel.Polled idle sim₁ sim' s') :
    sim.Progress idle sim' s' ↔ sim.RoundsWell := by
  obtain ⟨htick, htick', hpending⟩ := hfits
  obtain ⟨t, htree, hstores, hwhen⟩ := root_pending hnext
  obtain ⟨hlow, hhigh⟩ := hpending when ⟨t, hstores, hwhen⟩
  have hle : when ≤ Time.rounded sim.params.tick when := Time.le_rounded htick
  have hnow₁ : sim₁.now = toInt64 (Time.rounded sim.params.tick when) := by
    rw [hsim]
    exact Time.now_toTicks _ _
  by_cases hround : Time.rounded sim.params.tick when < 2 ^ 63
  · rw [Time.toInt64_of_fits (by omega) hround] at hnow₁
    rcases h with ⟨-, -, hlate⟩ | hpolled
    · omega
    · have hnow : sim'.now = Time.rounded sim.params.tick when := by
        rw [← hnow₁, now, now, hpolled.ticks, hpolled.params]
      have hticks : sim'.ticks ≠ sim.ticks := by
        intro hsame
        have hparams : sim'.params = sim.params := by rw [hpolled.params, hsim]
        rw [now, hsame, hparams] at hnow
        exact absurd hnow (by rw [now] at hearly; omega)
      constructor
      · intro hprogress when' hnext'
        obtain rfl : when = when' := Option.some.inj (hnext.symm.trans hnext')
        refine Or.inr ⟨hround, fun pending hp => ?_⟩
        rw [← hnow]
        exact hprogress.close hticks pending hp
      · intro hwell
        obtain ⟨-, hclose⟩ := (hwell when hnext).resolve_left (by omega)
        have hprogress := Progress.of_polled hpolled
        obtain ⟨u, hu, hdue, hstate⟩ := hprogress.alarm
        rw [hsim] at hu hdue
        refine ⟨by omega, fun _ pending hp => ?_, ⟨u, hu, hdue, hstate⟩, hpolled.busy⟩
        rw [hnow]
        exact hclose pending hp
  · have hpos : 0 ≤ when := by
      by_contra hneg
      have hle' := Time.rounded_le htick (Int.not_le.mp hneg)
      omega
    have hlt := Time.rounded_lt htick hpos
    rw [Time.toInt64_of_large (Int.not_lt.mp hround) (by omega)] at hnow₁
    constructor
    · intro hprogress
      rcases h with ⟨-, rfl, -⟩ | hpolled
      · rw [hprogress.busy] at hs
        cases hs
      · obtain ⟨t', when', hnext', -, hdue, -⟩ := hpolled.alarm
        rw [hsim] at hnext'
        obtain rfl : when = when' := Option.some.inj (hnext.symm.trans hnext')
        omega
    · intro hwell
      rcases hwell when hnext with hdue | ⟨hround', -⟩
      · omega
      · exact absurd hround' hround

/-- If `Idle` keeps the loop running, it has made progress exactly if the next
deadline rounds well. -/
theorem progress_iff (hfits : sim.Representable) (hs : idle s = true)
    (hidled : Kernel.Idled idle sim s sim' s') :
    sim.Progress idle sim' s' ↔ sim.RoundsWell := by
  cases hidled with
  | due hpolled =>
      refine ⟨fun _ when hnext => ?_, fun _ => Progress.of_polled hpolled⟩
      obtain ⟨_, when', hnext', -, hdue, -⟩ := hpolled.alarm
      obtain rfl : when = when' := Option.some.inj (hnext.symm.trans hnext')
      exact Or.inl hdue
  | jump hnext hearly hsim h => exact progress_jump hfits hs hnext hearly hsim h

end Sim

/-! ### The loop ends -/

namespace Kernel

variable {U σ : Type} {S : IScheduler σ} {idle : σ → Bool} {sim : Sim} {s : σ}

theorem returns_stepHead (hS : S.Rouses idle) {budget : Nat} :
    Returns S (stepHead budget)
      (fun control sim' s' =>
        (∃ t r, control = .run t r budget) ∧ idle s = false ∧ 0 < budget ∨
        control = .finished ∨
        control = .head budget ∧ idle s = true ∧ 0 < budget ∧ Idled idle sim s sim' s')
      sim s := by
  unfold stepHead
  refine Returns.bind (P := fun r sim' s' => r = idle s ∧ sim' = sim ∧ s' = s) ?_ ?_
  · refine returns_query fun r s' hanswer => ?_
    rw [hS.isIdle] at hanswer
    cases hanswer
    exact ⟨rfl, rfl, rfl⟩
  · rintro _ sim s ⟨rfl, rfl, rfl⟩
    split
    · rename_i hcond
      simp only [Bool.and_eq_true, Bool.not_eq_eq_eq_not, Bool.not_true,
        decide_eq_true_eq] at hcond
      refine wp_raises fun next sim' s' => ?_
      refine returns_get.bind fun _ _ _ _ => ?_
      exact Or.inl ⟨⟨next, _, rfl⟩, hcond⟩
    · rename_i hcond
      split
      · rename_i hbudget
        have hidle : idle s = true := by
          by_contra hbusy
          exact hcond (by simp [hbusy, hbudget])
        refine (returns_idle hS).bind fun again sim' s' hidled => ?_
        cases again with
        | false => exact Or.inr (Or.inl rfl)
        | true => exact Or.inr (Or.inr ⟨rfl, hidle, hbudget, hidled rfl⟩)
      · exact Or.inr (Or.inl rfl)

/-- A run of user code goes on, is the last of its iteration, or ends the loop. -/
theorem returns_step_run {program : Program U} {t : ThreadId} {r : Resumption}
    {budget : Nat} {space : UserSpace U} :
    Returns S (step program (.run t r budget) space)
      (fun x _ _ => (∃ r, x.1 = .run t r budget) ∨ x.1 = .head (budget - 1)) sim s := by
  unfold step
  dsimp only
  split
  · rename_i call _
    unfold stepSys
    refine Returns.bind (P := fun control _ _ =>
      (∃ r, control = .run t r budget) ∨ control = .head (budget - 1)) ?_ ?_
    · refine wp_raises fun answer _ _ => ?_
      cases answer with
      | none => exact Or.inr rfl
      | some answer => exact wp_raises fun _ _ _ => Or.inl ⟨_, rfl⟩
    · exact fun control _ _ hcontrol => hcontrol
  · exact wp_raises fun _ _ _ => Or.inl ⟨_, rfl⟩

end Kernel

namespace Machine

variable {U σ : Type} {S : IScheduler σ} {program : Program U} {idle : σ → Bool}
  {m m' : Machine U σ}

/-- A turn is a step, or ends the loop with an abort. -/
theorem turn_cases (h : m.next S program .turn = some m') :
    (Kernel.step program m.control m.space m.sim).interp S.answer m.scheduler =
      .ok ((.ok (m'.control, m'.space), m'.sim), m'.scheduler) ∨
    m'.control = .finished := by
  obtain ⟨control', space', sim', s'⟩ := m'
  rcases interp_handle_ok (next_turn h) with hstep | ⟨e, sim, s, -, hhandler⟩
  · exact Or.inl hstep
  · right
    cases e with
    | panic p => cases hhandler
    | sysAbortEx =>
        obtain ⟨statics, sim₁, s₁, -, hpure⟩ := interp_bind_ok hhandler
        cases hpure
        rfl

/-- At the condition of the inner loop. -/
def atHead (m : Machine U σ) : Bool :=
  match m.control with
  | .head _ => true
  | _ => false

/-- How often the loop can come back to its condition. -/
def work (idle : σ → Bool) (m : Machine U σ) : Nat :=
  match m.control with
  | .head budget => 2 * budget + 1 + (idle m.scheduler).toNat
  | .run _ _ budget => 2 * (budget - 1) + 2
  | .finished => 0

/-- If the loop idles, the next deadline rounds well. -/
def IdlesWell (idle : σ → Bool) (m : Machine U σ) : Prop :=
  idle m.scheduler = true → m.sim.Representable ∧ m.sim.RoundsWell

theorem turn_work (hS : S.Rouses idle) (hwell : m.IdlesWell idle)
    (h : m.next S program .turn = some m') :
    m'.work idle + (atHead m).toNat ≤ m.work idle := by
  obtain ⟨control', space', sim', s'⟩ := m'
  rcases turn_cases h with hstep | hfinished
  · cases hcontrol : m.control with
    | head budget =>
        rw [hcontrol] at hstep
        obtain ⟨control, sim, s, hhead, hpure⟩ := interp_bind_ok hstep
        cases hpure
        rcases returns_of_wp (Kernel.returns_stepHead hS) hhead with
          ⟨⟨t, r, rfl⟩, -, hbudget⟩ | rfl | ⟨rfl, hidle, -, hidled⟩
        · simp only [work, atHead, hcontrol, Bool.toNat_true]
          omega
        · simp only [work, atHead, hcontrol, Bool.toNat_true]
          omega
        · obtain ⟨hfits, hround⟩ := hwell hidle
          have hprogress := (Sim.progress_iff hfits hidle hidled).mpr hround
          simp only [work, atHead, hcontrol, hidle, hprogress.busy, Bool.toNat_true,
            Bool.toNat_false]
          omega
    | run t r budget =>
        rw [hcontrol] at hstep
        have hidle := Bool.toNat_le (idle s')
        rcases returns_of_wp Kernel.returns_step_run hstep with ⟨r', hrun⟩ | hhead
        · obtain rfl : control' = .run t r' budget := hrun
          simp only [work, atHead, hcontrol, Bool.toNat_false]
          omega
        · obtain rfl : control' = .head (budget - 1) := hhead
          simp only [work, atHead, hcontrol, Bool.toNat_false]
          omega
    | finished =>
        rw [hcontrol] at hstep
        cases hstep
        simp only [work, atHead, hcontrol, Bool.toNat_false]
        omega
  · obtain rfl : control' = .finished := hfinished
    cases hcontrol : m.control with
    | head budget =>
        simp only [work, atHead, hcontrol, Bool.toNat_true]
        omega
    | run t r budget =>
        simp only [work, atHead, hcontrol, Bool.toNat_false]
        omega
    | finished =>
        simp only [work, atHead, hcontrol, Bool.toNat_false]
        omega

/-- Turns of one `RunLoop`; `n` of them began at the condition of the inner loop. -/
inductive Turns (S : IScheduler σ) (program : Program U)
    (C : Machine U σ → Prop) : Machine U σ → Nat → Machine U σ → Prop where
  | refl {m : Machine U σ} : Turns S program C m 0 m
  | turn {m m' m'' : Machine U σ} {n : Nat} (hturns : Turns S program C m n m')
      (hC : C m') (h : m'.next S program .turn = some m'') :
      Turns S program C m (n + (atHead m').toNat) m''

theorem Turns.work_le (hS : S.Rouses idle) {n : Nat}
    (h : Turns S program (IdlesWell idle) m n m') : m'.work idle + n ≤ m.work idle := by
  induction h with
  | refl => exact Nat.le_refl _
  | turn _ hC hturn ih =>
      have hwork := turn_work hS hC hturn
      omega

/-- `Idle` makes progress exactly if the next deadline rounds well, and where it
always does, a loop with a budget comes back to its condition boundedly often. -/
theorem idling_progresses (hS : S.Rouses idle) (m : Machine U σ) :
    (∀ sim' s', m.sim.Representable → idle m.scheduler = true →
      (Kernel.idle m.sim).interp S.answer m.scheduler = .ok ((.ok true, sim'), s') →
      (m.sim.Progress idle sim' s' ↔ m.sim.RoundsWell)) ∧
    ∀ budget n m', m.control = .head budget →
      Turns S program (IdlesWell idle) m n m' → n ≤ 2 * budget + 2 := by
  constructor
  · intro sim' s' hfits hs hidle
    have hidled := returns_of_wp (Kernel.returns_idle hS) hidle rfl
    exact Sim.progress_iff hfits hs hidled
  · intro budget n m' hcontrol hturns
    have hwork := hturns.work_le hS
    have hidle := Bool.toNat_le (idle m.scheduler)
    have hm : m.work idle = 2 * budget + 1 + (idle m.scheduler).toNat := by
      simp only [work, hcontrol]
    omega

end Machine

/-! ### A sleeping thread -/

/-- The main thread sleeps until `deadline`. -/
def sleeper (deadline : Int) : Program Nat where
  resume _ _ turn :=
    match turn with
    | 0 => (.sys (.sleepUntil deadline), 1)
    | _ => (.sys .threadExit, 2)
  heapStat _ := ⟨0, 0, 0, 0⟩

namespace Machine

/-- `Idle` keeps the loop running; is the scheduler idle afterwards? -/
def afterIdle (m : Machine Nat Coop.State) : Option Bool :=
  match (Kernel.idle m.sim).interp Coop.scheduler.answer m.scheduler with
  | .ok ((.ok true, _), s') => some (s'.lists.isEmpty none)
  | _ => none

theorem afterIdle_eq {m : Machine Nat Coop.State} {idle : Bool}
    (h : m.afterIdle = some idle) :
    ∃ sim' s', (Kernel.idle m.sim).interp Coop.scheduler.answer m.scheduler =
      .ok ((.ok true, sim'), s') ∧ s'.lists.isEmpty none = idle := by
  unfold afterIdle at h
  split at h
  · rename_i heq
    exact ⟨_, _, heq, Option.some.inj h⟩
  · cases h

/-- The main thread sleeps, and nobody else is there. -/
def AsleepUntil (deadline : Int) (m : Machine Nat Coop.State) : Prop :=
  m.scheduler.lists.isEmpty none = true ∧ m.sim.params.tick = 10000 ∧
    m.sim.timerQueue.heap.size = 1 ∧ m.sim.timerQueue.heap.tree 1 = some 1 ∧
    (m.sim.timerQueue.heap.timers 1).when = deadline

instance (deadline : Int) : DecidablePred (AsleepUntil deadline) := fun _ =>
  inferInstanceAs (Decidable (_ ∧ _))

theorem AsleepUntil.pending {deadline when : Int} {m : Machine Nat Coop.State}
    (h : m.AsleepUntil deadline) (hpending : m.sim.Pending when) : when = deadline := by
  obtain ⟨-, -, hsize, htree, hwhen⟩ := h
  obtain ⟨t, ⟨i, ⟨hlow, hhigh⟩, hslot⟩, rfl⟩ := hpending
  obtain rfl : i = 1 := by omega
  rw [htree] at hslot
  cases hslot
  exact hwhen

theorem AsleepUntil.representable {deadline : Int} {m : Machine Nat Coop.State}
    (h : m.AsleepUntil deadline) (hlow : -2 ^ 63 ≤ deadline) (hhigh : deadline < 2 ^ 63) :
    m.sim.Representable := by
  refine ⟨by rw [h.2.1]; decide, by rw [h.2.1]; decide, fun when hpending => ?_⟩
  rw [h.pending hpending]
  exact ⟨hlow, hhigh⟩

/-- The space of a program without variables. -/
def noVariables : UserSpace Nat := ⟨0, ⟨fun _ => ⟨0, 0, 0⟩, [], true, [], fun _ => false⟩⟩

theorem idling_progresses_sleeper :
    ∃ m sim' s', Reached Coop.scheduler (sleeper 25000) (fun _ => True) (fun _ _ => True) m ∧
      (Kernel.idle m.sim).interp Coop.scheduler.answer m.scheduler =
        .ok ((.ok true, sim'), s') ∧
      m.sim.Progress (fun s => s.lists.isEmpty none) sim' s' := by
  obtain ⟨m, hreached, hasleep, hafter⟩ :=
    @exists_reached _ _ Coop.scheduler (sleeper 25000) (fun _ => True) (fun _ _ => True) _ {}
      noVariables (Coop.State.new ⟨0⟩) [.runFor 5, .turn, .turn]
      (fun m => m.AsleepUntil 25000 ∧ m.afterIdle = some false) _ trivial (by decide +kernel)
  obtain ⟨sim', s', hidle, -⟩ := afterIdle_eq hafter
  refine ⟨m, sim', s', hreached, hidle, ?_⟩
  have hiff := (@idling_progresses _ _ _ (sleeper 25000) _ Coop.rouses m).1 sim' s'
    (hasleep.representable (by decide) (by decide)) hasleep.1 hidle
  refine hiff.mpr fun when hnext => Or.inr ?_
  obtain ⟨t, -, hstores, hwhen⟩ := Sim.root_pending hnext
  rw [hasleep.pending ⟨t, hstores, hwhen⟩, hasleep.2.1]
  exact ⟨by decide, fun pending hpending => by rw [hasleep.pending hpending]; decide⟩

/-- Until the last time point: the clock wraps around, and nobody wakes up. -/
theorem idling_sticks :
    ¬ ∀ m, Reached Coop.scheduler (sleeper (2 ^ 63 - 1)) (fun _ => True) (fun _ _ => True) m →
      ∀ sim' s', m.sim.Representable → m.scheduler.lists.isEmpty none = true →
        (Kernel.idle m.sim).interp Coop.scheduler.answer m.scheduler =
          .ok ((.ok true, sim'), s') →
        m.sim.Progress (fun s => s.lists.isEmpty none) sim' s' := by
  intro hclaim
  obtain ⟨m, hreached, hasleep, hafter⟩ :=
    @exists_reached _ _ Coop.scheduler (sleeper (2 ^ 63 - 1)) (fun _ => True) (fun _ _ => True)
      _ {} noVariables (Coop.State.new ⟨0⟩) [.runFor 5, .turn, .turn]
      (fun m => m.AsleepUntil (2 ^ 63 - 1) ∧ m.afterIdle = some true) _ trivial
      (by decide +kernel)
  obtain ⟨sim', s', hidle, hstuck⟩ := afterIdle_eq hafter
  have hprogress := hclaim m hreached sim' s'
    (hasleep.representable (by decide) (by decide)) hasleep.1 hidle
  exact absurd (hprogress.busy.symm.trans hstuck) Bool.false_ne_true

end Machine

end TwistSim

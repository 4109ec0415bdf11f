/-
The replay scheduler beside a recorded one: question by question it gives the answers
that were recorded, and holds the threads that the other one holds.
-/
import TwistSim.Questions
import TwistSim.Keepers
import TwistSim.Placement
import TwistSim.ReplayQueues

namespace TwistSim

open Effect
open Interaction (Along LockstepOn wp_along_pre)

namespace Replay

variable {σ : Type} {S : IScheduler σ} {WF : σ → Prop} {holdings : σ → Holdings}
  {links : Links} {full : Schedule} {call : Call} {x : call.Reply} {r r' : Recorder σ}
  {p p' : State}

/-! ### What can be replayed -/

/-- A scheduler whose runs can be recorded. -/
structure Recordable (S : IScheduler σ) (WF : σ → Prop) (holdings : σ → Holdings)
    (links : Links) : Prop where
  keeps : Keeps S WF holdings links
  queues : KeepsQueues S WF holdings
  apart : links ≠ .shared
  chooses : ∀ {view alts s i s'}, WF s → 1 < alts →
    S.answer (view, .randomChoice alts) s = .ok (i, s') → i < alts

/-- The run has not been pruned by the answer. -/
def Unpruned (S : IScheduler σ) (s : σ) (call : Call) : Prop :=
  ∀ x s', S.answer call s = .ok (x, s') → call.Continues x

/-- What is asked where nothing may be runnable. -/
def looksIdle : Query → Bool
  | .isIdle | .isSuspended _ => true
  | _ => false

/-- Where nothing is held nothing is suspended either. -/
def Awake (holdings : σ → Holdings) (s : σ) (call : Call) : Prop :=
  looksIdle call.2 = true → (holdings s).held = 0 → (holdings s).suspended = 0

/-- A thread that is removed while nobody is kept aside is removed. -/
def LetsGo (S : IScheduler σ) (holdings : σ → Holdings) (s : σ) : Call → Prop
  | (view, .remove t) => (holdings s).slot = false → (holdings s).owned.Nodup →
      ∀ s', S.answer (view, .remove t) s = .ok ((), s') →
        t ∉ (holdings s').owned ∧ (holdings s').slot = false
  | _ => True

instance {s : σ} {call : Call} : Decidable (Awake holdings s call) :=
  inferInstanceAs (Decidable (_ → _ → _))

structure Repeatable (S : IScheduler σ) (holdings : σ → Holdings) (s : σ) (call : Call) :
    Prop where
  unpruned : Unpruned S s call
  awake : Awake holdings s call
  letsGo : LetsGo S holdings s call

theorem unpruned_of_burning {s : σ} (h : call.2.Burning) : Unpruned S s call := by
  intro x s' _
  obtain ⟨view, q⟩ := call
  cases q with
  | remove t => trivial
  | queueRemove q t => trivial
  | _ => exact absurd h id

theorem repeatable_spawn {s : σ} (h : ∃ t, call.2 = .spawn t) :
    Repeatable S holdings s call := by
  obtain ⟨view, q⟩ := call
  obtain ⟨t, rfl⟩ := h
  exact ⟨fun _ _ _ => trivial, nofun, trivial⟩

/-- What the recorded simulation asks is due, and answered as promised. -/
theorem Recordable.granted (hS : Recordable S WF holdings links) (hWF : WF r.underlying)
    (hpre : (keeperSpec links).pre (holdings r.underlying) call)
    (hspares : links = .spared → (holdings r.underlying).allowed true call)
    (hanswer : (Recorder.scheduler S).answer call r = .ok (x, r')) :
    WF r'.underlying ∧ (holdings r.underlying).pre call ∧
      (call.2.onQueue = true → (holdings r.underlying).Proper call) ∧
      (holdings r.underlying).Grants call x (holdings r'.underlying) := by
  have hstep := Recorder.keeps hS.keeps call r hWF hspares hpre
  rw [hanswer] at hstep
  have hsnatches : ¬ (holdings r.underlying).Snatches links call := fun h => hS.apart h.1
  have hmisses : ¬ (holdings r.underlying).Misses links call := by
    obtain ⟨view, q⟩ := call
    cases q with
    | queueRemove q t => exact fun h => hS.apart h.1
    | _ => exact id
  exact ⟨hstep.1, (hpre.2 hmisses).1, (hpre.2 hmisses).2, hstep.2.1 hsnatches hmisses⟩

/-! ### One question -/

/-- The replay scheduler can run what the recorded one owns. -/
def Mirrors (holdings : σ → Holdings) (full : Schedule) (r : Recorder σ) (p : State) : Prop :=
  Keeping holdings full (holdings r.underlying).owned r p

theorem Mirrors.runSet (h : Mirrors holdings full r p) :
    (↑p.runSet : Multiset ThreadId) = (holdings r.underlying).owned := h.same.given

/-- The decision that was recorded comes next. -/
theorem Mirrors.taken {d : Decision} (h : Mirrors holdings full r p)
    (hd : decision call x = some d)
    (hanswer : (Recorder.scheduler S).answer call r = .ok (x, r'))
    (hupto : r'.schedule <+: full) : p.schedule[p.next]? = some d := by
  have hschedule := recorder_schedule hanswer
  rw [hd] at hschedule
  exact Keeping.taken h hschedule hupto

theorem answer_of_exec {y : call.Reply} (hexec : scheduler.exec call p = .ok (y, p'))
    (husable : call.usable y = true) : scheduler.answer call p = .ok (y, p') :=
  IScheduler.answer_ok_iff.mpr ⟨hexec, husable⟩

/-- A thread that is handed in is one that the replay scheduler does not have. -/
theorem Mirrors.emplaces {t : ThreadId} (h : Mirrors holdings full r p)
    (hlacks : (holdings r.underlying).Lacks t)
    (htakes : (holdings r.underlying).Takes (holdings r'.underlying) t) :
    (↑(p.runSet.insert t) : Multiset ThreadId) = (holdings r'.underlying).owned := by
  have hnot : t ∉ p.runSet := by
    rw [← Multiset.mem_coe, h.runSet]
    exact hlacks.1
  rw [List.insert_of_not_mem hnot, htakes.owned, ← h.runSet, Multiset.cons_coe]

/-- A call that is not one of a wait queue is answered as it was recorded. -/
theorem Mirrors.answers (hS : Recordable S WF holdings links) (h : Mirrors holdings full r p)
    (hqueue : call.2.onQueue = false) (hmoving : call.2.Moving)
    (hrepeats : Repeatable S holdings r.underlying call) (hWF : WF r.underlying)
    (hgoes : call.Continues x) (hpre : (holdings r.underlying).pre call)
    (hpost : (holdings r.underlying).post call x (holdings r'.underlying))
    (hanswer : (Recorder.scheduler S).answer call r = .ok (x, r'))
    (hupto : r'.schedule <+: full) :
    ∃ p', scheduler.answer call p = .ok (x, p') ∧
      (↑p'.runSet : Multiset ThreadId) = (holdings r'.underlying).owned ∧
      (holdings r.underlying).SameQueues (holdings r'.underlying) := by
  have hsame : holdings r'.underlying = holdings r.underlying →
      (↑p.runSet : Multiset ThreadId) = (holdings r'.underlying).owned ∧
        (holdings r.underlying).SameQueues (holdings r'.underlying) := fun heq => by
    rw [heq]
    exact ⟨h.runSet, rfl, rfl⟩
  obtain ⟨view, q⟩ := call
  cases q with
  | start => exact absurd hmoving id
  | remove t => exact absurd hmoving id
  | interrupt t => exact ⟨_, answer_of_exec rfl rfl, h.emplaces hpre.1 hpost, hpost.same⟩
  | switchTo t next => exact ⟨_, answer_of_exec rfl rfl, h.emplaces hpre hpost.1, hpost.1.same⟩
  | yield t => exact ⟨_, answer_of_exec rfl rfl, h.emplaces hpre hpost.1, hpost.1.same⟩
  | wake t => exact ⟨_, answer_of_exec rfl rfl, h.emplaces hpre hpost.1, hpost.1.same⟩
  | spawn t => exact ⟨_, answer_of_exec rfl rfl, h.emplaces hpre hpost.1, hpost.1.same⟩
  | pickNext =>
      cases x with
      | error why => exact absurd hgoes id
      | ok t =>
          obtain ⟨hheld, hsuspended, hqueues, -, halive⟩ := hpost
          have howned : (holdings r.underlying).owned =
              t ::ₘ (holdings r'.underlying).owned := by
            rw [Holdings.owned, hheld, Multiset.cons_add, Holdings.owned, hsuspended]
          have hruns : p.runSet.elem t = true := by
            rw [List.elem_iff, ← Multiset.mem_coe, h.runSet, howned]
            exact Multiset.mem_cons_self t _
          have htake := h.taken (d := .pickNext t) rfl hanswer hupto
          refine ⟨{ p with next := p.next + 1, runSet := p.runSet.erase t },
            answer_of_exec ?_ halive, ?_, hqueues⟩
          · simp only [scheduler, pickNext, next, htake, hruns, if_true]
          · rw [← Multiset.coe_erase, h.runSet, howned, Multiset.erase_cons_head]
  | isIdle =>
      obtain ⟨hidle, hkept⟩ := hpost
      have hempty : p.runSet.isEmpty = x := by
        rw [Bool.eq_iff_iff, isEmpty_iff, h.runSet, hidle]
        constructor
        · exact fun hnone => Multiset.le_zero.mp (hnone ▸ Multiset.le_add_right _ _)
        · exact fun hnone => by rw [Holdings.owned, hnone, hrepeats.awake rfl hnone, add_zero]
      exact ⟨p, answer_of_exec (by rw [← hempty]; rfl) rfl, hsame hkept⟩
  | isSuspended t =>
      obtain ⟨hsuspended, hkept⟩ := hpost
      have hfalse : x = false := by
        rw [hrepeats.awake rfl hpre] at hsuspended
        exact Bool.eq_false_iff.mpr fun htrue =>
          Multiset.notMem_zero t (hsuspended.mp htrue)
      exact ⟨p, answer_of_exec (by rw [hfalse]; rfl) rfl, hsame hkept⟩
  | randomChoice alts =>
      have hlt : x < alts := by
        have hrecorded := hanswer
        rw [Recorder.recorder_answer (by rintro ⟨⟩)] at hrecorded
        obtain ⟨⟨i, u⟩, hunder, heq⟩ := map_eq_ok hrecorded
        cases heq
        exact hS.chooses hWF hmoving hunder
      have htake := h.taken (d := .randomChoice x) rfl hanswer hupto
      refine ⟨{ p with next := p.next + 1 }, answer_of_exec ?_ rfl, hsame hpost⟩
      simp only [scheduler, randomChoice, next, htake, hlt, if_true]
  | randomNumber =>
      have htake := h.taken (d := .randomNumber x) rfl hanswer hupto
      exact ⟨_, answer_of_exec (next_takes htake rfl) rfl, hsame hpost⟩
  | spuriousWakeup =>
      have htake := h.taken (d := .spuriousWakeup x) rfl hanswer hupto
      exact ⟨_, answer_of_exec (next_takes htake rfl) rfl, hsame hpost⟩
  | spuriousTryFailure =>
      have htake := h.taken (d := .spuriousTryFailure x) rfl hanswer hupto
      exact ⟨_, answer_of_exec (next_takes htake rfl) rfl, hsame hpost⟩
  | isModelChecker =>
      cases hanswer
      exact ⟨p, answer_of_exec rfl rfl, h.runSet, rfl, rfl⟩
  | exit t =>
      cases x with
      | error why => exact absurd hgoes id
      | ok =>
          exact ⟨p, answer_of_exec rfl rfl, h.runSet.trans hpost.owned.symm, hpost.same⟩
  | lockFree t flag => exact ⟨p, answer_of_exec rfl rfl, h.runSet.trans hpost.owned.symm, hpost.same⟩
  | progress t => exact ⟨p, answer_of_exec rfl rfl, h.runSet.trans hpost.owned.symm, hpost.same⟩
  | newIter => exact ⟨p, answer_of_exec rfl rfl, hsame hpost⟩
  | newWaitQueue => cases hqueue
  | queueIsEmpty q => cases hqueue
  | queuePush q t => cases hqueue
  | queuePop q => cases hqueue
  | queuePopAll q => cases hqueue
  | queueRemove q t => cases hqueue

/-- A call of a wait queue moves no thread in or out of the run queue. -/
theorem owned_of_queue {a a' : Holdings} (hqueue : call.2.onQueue = true)
    (hpost : a.post call x a') : a'.owned = a.owned := by
  have hupdate : ∀ {q : QueueId} {w : Multiset ThreadId}, a.QueueUpdate a' q w →
      a'.owned = a.owned := fun h => by
    rw [Holdings.owned, h.held, h.suspended, Holdings.owned]
  have hpops : ∀ {q : QueueId} {waiter : Option ThreadId}, a.Pops q waiter a' →
      a'.owned = a.owned := by
    intro q waiter h
    cases waiter with
    | none => exact congrArg Holdings.owned h
    | some t =>
        obtain ⟨rest, -, h⟩ := h
        exact hupdate h
  obtain ⟨view, q⟩ := call
  cases q with
  | newWaitQueue =>
      obtain ⟨-, -, rfl⟩ := hpost
      rfl
  | queueIsEmpty q => exact congrArg Holdings.owned hpost.2
  | queuePush q t => exact hupdate hpost
  | queuePop q => exact hpops hpost
  | queuePopAll q => exact hpops hpost
  | queueRemove q t => exact hupdate hpost.2
  | _ => cases hqueue

/-- The answers of the recorder are those of the scheduler, in what continues. -/
theorem Unpruned.continues (h : Unpruned S r.underlying call)
    (hanswer : (Recorder.scheduler S).answer call r = .ok (x, r')) : call.Continues x := by
  by_cases hcall : call.2 = .isModelChecker
  · obtain ⟨view, q⟩ := call
    cases hcall
    trivial
  · rw [Recorder.recorder_answer hcall] at hanswer
    obtain ⟨⟨x', u⟩, hunder, heq⟩ := map_eq_ok hanswer
    cases heq
    exact h x u hunder

theorem allowed_of_moving {a : Holdings} (h : call.2.Moving) : a.allowed true call := by
  obtain ⟨view, q⟩ := call
  cases q with
  | remove t => exact absurd h id
  | _ => trivial

/-- While the simulation goes on, every question is answered as it was recorded. -/
theorem mirrors_lockstep (hS : Recordable S WF holdings links) :
    LockstepOn (Recorder.scheduler S).answer scheduler.answer
      (fun r call => (WF r.underlying ∧ (keeperSpec links).pre (holdings r.underlying) call) ∧
        call.2.Moving ∧ (WF r.underlying → Repeatable S holdings r.underlying call))
      (fun r => r.schedule <+: full) (Mirrors holdings full) := by
  rintro call r p x r' ⟨⟨hWF, hpre⟩, hmoving, hrepeats⟩ h hanswer hupto
  replace hrepeats := hrepeats hWF
  obtain ⟨-, hdue, hproper, hgrants⟩ :=
    hS.granted hWF hpre (fun _ => allowed_of_moving hmoving) hanswer
  have hgoes := hrepeats.unpruned.continues hanswer
  cases hqueue : call.2.onQueue with
  | true =>
      obtain ⟨p', hreplay, hkeep⟩ := queues_lockstep hS.queues call r p x r'
        ⟨hWF, hpre.1, hproper hqueue, hqueue⟩ h hanswer hupto
      refine ⟨p', hreplay, ?_⟩
      rw [Mirrors, owned_of_queue hqueue hgrants.post]
      exact hkeep
  | false =>
      obtain ⟨p', hreplay, hruns, hsame⟩ := h.answers hS hqueue hmoving hrepeats hWF hgoes hdue
        hgrants.post hanswer hupto
      have hstart : call.2 ≠ .start := fun hcall => by
        rw [hcall] at hmoving
        exact hmoving
      refine ⟨p', hreplay, ?_⟩
      rw [Mirrors, ← hruns]
      exact Keeping.call h hqueue hstart hgoes hsame hanswer hreplay

/-! ### Putting threads away -/

/-- The replay scheduler has no thread that the recorded one does not have, and all of
them if it is `exactly` the same. -/
structure Clears (holdings : σ → Holdings) (full : Schedule) (exactly : Prop) (r : Recorder σ)
    (p : State) : Prop where
  keeping : Keeping holdings full ↑p.runSet r p
  nodup : p.runSet.Nodup
  within : (↑p.runSet : Multiset ThreadId) ≤ (holdings r.underlying).owned
  exact : exactly → (holdings r.underlying).owned ≤ ↑p.runSet ∧
    (holdings r.underlying).slot = false

theorem Mirrors.clears {exactly : Prop} (h : Mirrors holdings full r p)
    (hsound : (holdings r.underlying).Sound)
    (hslot : exactly → (holdings r.underlying).slot = false) :
    Clears holdings full exactly r p where
  keeping := by
    rw [h.runSet]
    exact h
  nodup := by
    rw [← Multiset.coe_nodup, h.runSet]
    exact hsound.owned
  within := h.runSet.le
  exact hexactly := ⟨h.runSet.ge, hslot hexactly⟩

theorem Clears.mirrors (h : Clears holdings full True r p) : Mirrors holdings full r p := by
  rw [Mirrors, ← le_antisymm h.within (h.exact trivial).1]
  exact h.keeping

/-- A thread is taken out on both sides. -/
theorem Clears.remove {exactly : Prop} {view : KernelView} {t : ThreadId} {u : Unit}
    (h : Clears holdings full exactly r p) (hsound : (holdings r.underlying).Sound)
    (hforgets : (holdings r.underlying).Forgets (holdings r'.underlying) t)
    (hlets : exactly → LetsGo S holdings r.underlying (view, .remove t))
    (hanswer : (Recorder.scheduler S).answer (view, .remove t) r = .ok (u, r')) :
    ∃ p', scheduler.answer (view, .remove t) p = .ok (u, p') ∧
      Clears holdings full exactly r' p' := by
  have hreplay : scheduler.answer (view, .remove t) p =
      .ok (u, { p with runSet := p.runSet.erase t }) := answer_of_exec rfl rfl
  have hcount : ∀ w, w ≠ t →
      (holdings r'.underlying).owned.count w = (holdings r.underlying).owned.count w := by
    intro w hw
    rw [Holdings.owned, Holdings.owned, Multiset.count_add, Multiset.count_add,
      hforgets.held w hw, hforgets.suspended w hw]
  have hstart : ((view, .remove t) : Call).2 ≠ .start := by
    intro hstart
    cases hstart
  have hgoes : Call.Continues (view, .remove t) u := trivial
  refine ⟨_, hreplay, h.keeping.call rfl hstart hgoes hforgets.same hanswer hreplay,
    h.nodup.erase t, ?_, ?_⟩
  · refine Multiset.le_iff_count.mpr fun w => ?_
    by_cases hw : w = t
    · subst hw
      rw [Multiset.count_eq_zero_of_notMem]
      · exact Nat.zero_le _
      · exact h.nodup.not_mem_erase
    · rw [hcount w hw, Multiset.coe_count, List.count_erase_of_ne hw, ← Multiset.coe_count]
      exact Multiset.le_iff_count.mp h.within w
  · intro hexactly
    obtain ⟨hall, hslot⟩ := h.exact hexactly
    rw [Recorder.recorder_answer (by rintro ⟨⟩)] at hanswer
    obtain ⟨⟨u, s'⟩, hunder, heq⟩ := map_eq_ok hanswer
    cases heq
    obtain ⟨hnot, hslot'⟩ := hlets hexactly hslot hsound.owned s' hunder
    refine ⟨Multiset.le_iff_count.mpr fun w => ?_, hslot'⟩
    by_cases hw : w = t
    · subst hw
      rw [Multiset.count_eq_zero_of_notMem hnot]
      exact Nat.zero_le _
    · rw [hcount w hw, Multiset.coe_count, List.count_erase_of_ne hw, ← Multiset.coe_count]
      exact Multiset.le_iff_count.mp hall w

/-- While threads are put away, every question is answered as it was recorded. -/
theorem clears_lockstep (hS : Recordable S WF holdings links) (exactly : Prop) :
    LockstepOn (Recorder.scheduler S).answer scheduler.answer
      (fun r call => (WF r.underlying ∧ (keeperSpec links).pre (holdings r.underlying) call) ∧
        (links = .spared → (holdings r.underlying).allowed true call) ∧ call.2.Ending ∧
        (WF r.underlying →
          Unpruned S r.underlying call ∧ (exactly → LetsGo S holdings r.underlying call)))
      (fun r => r.schedule <+: full) (Clears holdings full exactly) := by
  rintro ⟨view, q⟩ r p x r' ⟨⟨hWF, hpre⟩, hspares, hending, hrepeats⟩ h hanswer hupto
  obtain ⟨hunpruned, hlets⟩ := hrepeats hWF
  obtain ⟨-, -, hproper, hgrants⟩ := hS.granted hWF hpre hspares hanswer
  have hgoes := hunpruned.continues hanswer
  cases q with
  | exit t =>
      cases x with
      | error why => exact absurd hgoes id
      | ok =>
          have hkeeps : (holdings r.underlying).Keeps (holdings r'.underlying) := hgrants.post
          have hreplay : scheduler.answer (view, .exit t) p = .ok (.ok (), p) :=
            answer_of_exec rfl rfl
          have hstart : ((view, .exit t) : Call).2 ≠ .start := nofun
          refine ⟨p, hreplay, h.keeping.call rfl hstart hgoes hkeeps.same hanswer hreplay,
            h.nodup, ?_, fun hexactly => ?_⟩
          · rw [hkeeps.owned]
            exact h.within
          · rw [hkeeps.owned, hkeeps.slot]
            exact h.exact hexactly
  | remove t => exact h.remove hpre.1 hgrants.post hlets hanswer
  | queueRemove q t =>
      obtain ⟨p', hreplay, hkeep⟩ := queues_lockstep hS.queues (view, .queueRemove q t) r p x r'
        ⟨hWF, hpre.1, hproper rfl, rfl⟩ h.keeping hanswer hupto
      have hruns : (↑p'.runSet : Multiset ThreadId) = ↑p.runSet := hkeep.same.given
      have hupdate : (holdings r.underlying).QueueUpdate (holdings r'.underlying) q _ :=
        hgrants.post.2
      have howned : (holdings r'.underlying).owned = (holdings r.underlying).owned :=
        owned_of_queue rfl hgrants.post
      refine ⟨p', hreplay, ⟨hruns ▸ hkeep, ?_, ?_, fun hexactly => ?_⟩⟩
      · rw [← Multiset.coe_nodup, hruns]
        exact h.nodup
      · rw [hruns, howned]
        exact h.within
      · rw [hruns, howned, hupdate.slot]
        exact h.exact hexactly
  | _ => exact absurd hending id

/-! ### Programs -/

section Programs

variable {α : Type} {m : KernelM α} {sim : Sim} {post : α → Sim → Holdings → Prop}
  {exc : Thrown → Sim → Holdings → Prop} {y : Except Thrown α × Sim}

/-- A program of a simulation that goes on does under the replay scheduler what it did when
it was recorded. -/
theorem Mirrors.again (hS : Recordable S WF holdings links) (h : Mirrors holdings full r p)
    (hWF : WF r.underlying)
    (hwp : m.wp (keeperSpec links) True post exc sim (holdings r.underlying))
    (hmoving : Kernel.Asks Query.Moving m)
    (hrepeats : (m sim).Along (Recorder.scheduler S).answer
      (fun r call => WF r.underlying → Repeatable S holdings r.underlying call) r)
    (hrun : (m sim).interp (Recorder.scheduler S).answer r = .ok (y, r'))
    (hupto : r'.schedule <+: full) :
    ∃ p', (m sim).interp scheduler.answer p = .ok (y, p') ∧ Mirrors holdings full r' p' := by
  have hasked := @Interaction.Asks.along _ _ _ _ _ _ _ (Recorder.scheduler S).answer r (hmoving sim)
  have hassume := hasked.mono fun r call hcall =>
    show links = .spared → (holdings r.underlying).allowed true call from
      fun _ => allowed_of_moving hcall
  have hpre := wp_along_pre (Recorder.keeps hS.keeps) hWF hassume hwp
  exact (mirrors_lockstep hS).interp recorded_before (hpre.and (hasked.and hrepeats)) h hrun hupto

/-- So does one that puts threads away. -/
theorem Clears.again {exactly : Prop} (hS : Recordable S WF holdings links)
    (h : Clears holdings full exactly r p) (hWF : WF r.underlying)
    (hwp : m.wp (keeperSpec links) True post exc sim (holdings r.underlying))
    (hending : Kernel.Asks Query.Ending m)
    (hspares : links = .spared → (m sim).Along (Recorder.scheduler S).answer
      (fun r call => (holdings r.underlying).allowed true call) r)
    (hrepeats : (m sim).Along (Recorder.scheduler S).answer
      (fun r call => WF r.underlying → Unpruned S r.underlying call ∧
        (exactly → LetsGo S holdings r.underlying call)) r)
    (hrun : (m sim).interp (Recorder.scheduler S).answer r = .ok (y, r'))
    (hupto : r'.schedule <+: full) :
    ∃ p', (m sim).interp scheduler.answer p = .ok (y, p') ∧
      Clears holdings full exactly r' p' := by
  have hasked := @Interaction.Asks.along _ _ _ _ _ _ _ (Recorder.scheduler S).answer r (hending sim)
  have hassume : (m sim).Along (Recorder.scheduler S).answer
      (fun r call => links = .spared → (holdings r.underlying).allowed true call) r := by
    by_cases hlinks : links = .spared
    · exact (hspares hlinks).mono fun _ _ hallowed _ => hallowed
    · exact Along.of_forall fun _ _ heq => absurd heq hlinks
  have hpre := wp_along_pre (Recorder.keeps hS.keeps) hWF hassume hwp
  exact (clears_lockstep hS exactly).interp recorded_before
    (hpre.and (hassume.and (hasked.and hrepeats))) h hrun hupto

end Programs

end Replay

end TwistSim

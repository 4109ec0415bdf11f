/-
A futex keeps its first waiter itself and the others in a queue of the scheduler.
Whatever the scheduler, it is a set of threads: nothing is lost, nothing is handed
out twice, and nothing is taken from another queue.
-/
import TwistSim.RunQueues
import TwistSim.Kernel

namespace TwistSim

open Interaction (Spec Implements interp_returns)
open Effect

/-! ### The queues of a scheduler -/

/-- The methods that make a wait queue or use one. -/
def Query.onQueue : Query → Bool
  | .newWaitQueue | .queueIsEmpty _ | .queuePush _ _ | .queuePop _ | .queuePopAll _
  | .queueRemove _ _ => true
  | _ => false

namespace Holdings

/-- The thread is in no queue of the scheduler. -/
def Unknown (a : Holdings) (t : ThreadId) : Prop := a.Lacks t ∧ ValidId t

/-- The calls of a caller that pushes only what is in no queue, and removes only
what is in one. -/
def Proper (a : Holdings) : Call → Prop
  | (_, .start) => False
  | (_, .interrupt t) => a.Unknown t ∧ a.slot = false
  | (_, .switchTo t _) | (_, .yield t) | (_, .wake t) | (_, .spawn t) => a.Unknown t
  | (_, .remove t) => t ∈ a.owned ∧ ∀ q, t ∉ a.waiters q
  | (_, .queuePush q t) => a.Unknown t ∧ q < a.queues
  | (_, .queueRemove q t) => t ∈ a.waiters q ∧ q < a.queues
  | (_, .queueIsEmpty q) | (_, .queuePop q) | (_, .queuePopAll q) => q < a.queues
  | (_, .isSuspended _) => a.held = 0
  | _ => True

theorem Proper.pre {a : Holdings} (hsound : a.Sound) {call : Call}
    (h : a.Proper call) : a.pre call := by
  obtain ⟨view, q⟩ := call
  cases q with
  | start => exact absurd h id
  | interrupt t => exact ⟨h.1.1, h.2⟩
  | switchTo t next => exact h.1
  | yield t => exact h.1
  | wake t => exact h.1
  | spawn t => exact h.1
  | pickNext => exact fun t _ => Multiset.nodup_iff_count_le_one.mp hsound.owned t
  | queuePush q t => exact ⟨h.1.1, h.2⟩
  | _ => first | exact h | trivial

theorem Proper.allowed {a : Holdings} {sharesLinks : Bool} {call : Call}
    (h : a.Proper call) : a.allowed sharesLinks call := by
  obtain ⟨view, q⟩ := call
  cases q with
  | remove t => exact fun _ => h.2
  | _ => trivial

/-- Where wait queues are concerned, a proper call is due. -/
theorem Proper.due {a : Holdings} {call : Call} (h : a.Proper call)
    (hqueue : call.2.onQueue = true) : a.Due call := by
  obtain ⟨view, q⟩ := call
  cases q with
  | queuePush q t => exact ⟨h.1.1, h.1.2, h.2⟩
  | newWaitQueue => trivial
  | queueIsEmpty q => exact h
  | queuePop q => exact h
  | queuePopAll q => exact h
  | queueRemove q t => exact h
  | _ => cases hqueue

end Holdings

/-- Wait queues always answer. -/
def queueSpec : Spec Call Call.Reply Holdings where
  assume _ _ := True
  pre a call := a.Sound ∧ a.Proper call ∧ call.2.onQueue = true
  mayCrash _ _ := False
  post a call r a' := a.post call r a' ∧ a.Exact call r

/-- A scheduler with proper wait queues. -/
structure KeepsQueues {σ : Type} (S : IScheduler σ) (WF : σ → Prop)
    (holdings : σ → Holdings) : Prop where
  queues : Implements S.answer WF holdings queueSpec
  calls : Implements S.answer WF holdings (schedulerSpec true)

theorem onQueue_usable {call : Call} (h : call.2.onQueue = true) (r : call.Reply) :
    call.usable r = true := by
  obtain ⟨view, q⟩ := call
  cases q with
  | pickNext => cases h
  | _ => rfl

/-- It is enough that the queues answer, and hand out something if they can. -/
theorem keepsQueues {σ : Type} {S : IScheduler σ} {WF : σ → Prop}
    {holdings : σ → Holdings} {sharesLinks : Bool}
    (himp : Implements S.answer WF holdings (schedulerSpec sharesLinks))
    (hanswers : ∀ call s, WF s → (holdings s).Sound → (holdings s).Due call →
      call.2.onQueue = true → ∃ r s', S.exec call s = .ok (r, s'))
    (hexact : ∀ call s r s', WF s → call.2.onQueue = true →
      S.exec call s = .ok (r, s') → (holdings s).Exact call r) :
    KeepsQueues S WF holdings := by
  constructor
  · intro call s hWF _ hpre
    obtain ⟨hsound, hproper, hqueue⟩ := hpre
    obtain ⟨r, s', hexec⟩ := hanswers call s hWF hsound (hproper.due hqueue) hqueue
    have hanswer := IScheduler.answer_ok_iff.mpr ⟨hexec, onQueue_usable hqueue r⟩
    have hstep := himp call s hWF hproper.allowed (hproper.pre hsound)
    rw [hanswer] at hstep ⊢
    exact ⟨hstep.1, hstep.2, hexact call s r s' hWF hqueue hexec⟩
  · intro call s hWF hallowed hpre
    refine himp call s hWF ?_ hpre
    obtain ⟨view, q⟩ := call
    cases q with
    | remove t => exact fun _ => hallowed rfl
    | _ => trivial

theorem Coop.keepsQueues :
    KeepsQueues Coop.scheduler Coop.State.WF Coop.State.holdings := by
  refine TwistSim.keepsQueues Coop.implements ?_ fun call s r s' hWF _ hexec =>
    Coop.exec_exact hWF hexec
  intro call s hWF _ hdue hqueue
  obtain ⟨view, q⟩ := call
  cases q with
  | queuePush q t =>
      have hunlinked := Coop.isLinked_of_lacks hWF hdue.1
      simp only [Coop.scheduler, IntrusiveLists.pushBack_eq hunlinked]
      exact ⟨(), _, rfl⟩
  | newWaitQueue => exact ⟨_, _, rfl⟩
  | queueIsEmpty q => exact ⟨_, _, rfl⟩
  | queuePop q => exact ⟨_, _, rfl⟩
  | queuePopAll q => exact ⟨_, _, rfl⟩
  | queueRemove q t => exact ⟨_, _, rfl⟩
  | _ => cases hqueue

theorem Random.keepsQueues (params : Random.Params) :
    KeepsQueues (Random.scheduler params) Random.State.WF Random.State.holdings := by
  refine TwistSim.keepsQueues (Random.implements params) ?_
    fun call s r s' _ _ hexec => Random.exec_exact hexec
  intro call s _ hsound hdue hqueue
  refine Random.exec_answers hsound hdue ?_
  obtain ⟨view, q⟩ := call
  cases q <;> first | exact id | cases hqueue

theorem Pct.keepsQueues (params : Pct.Params) (fuel : Nat) :
    KeepsQueues (Pct.scheduler params fuel) Pct.State.WF Pct.State.holdings := by
  refine TwistSim.keepsQueues (Pct.implements params fuel) ?_
    fun call s r s' hWF _ hexec => Pct.exec_exact hWF hexec
  intro call s hWF _ hdue hqueue
  refine Pct.exec_answers hWF hdue ?_
  obtain ⟨view, q⟩ := call
  cases q <;> first | exact id | cases hqueue

namespace Dfs

/-- An answer of the guided scheduler is one of the method. -/
theorem guided_returns {params : Params} {answers : Nat → Nat} {call : Call}
    {s s' : Nat × State} {r : call.Reply} (hcall : call.2 ≠ .start)
    (h : (guided params answers).exec call s = .ok (r, s')) :
    (method params call s.2).Returns (.ok (r, s'.2)) := by
  rw [guided_exec hcall] at h
  cases hrun : (method params call s.2).interp (guide answers) s.1 with
  | error p =>
      rw [hrun] at h
      cases h
  | ok result =>
      obtain ⟨x, choices⟩ := result
      rw [hrun] at h
      rcases x with p | ⟨r', s₁⟩
      · cases h
      · cases h
        exact interp_returns hrun

theorem guided_implements (params : Params) (answers : Nat → Nat) :
    Implements (guided params answers).answer (GuidedWF params)
      (guidedHoldings params) (schedulerSpec false) := by
  refine IScheduler.implements ?_ ?_
  · intro call s r s' hWF _ hpre hexec husable
    by_cases hcall : call.2 = .start
    · obtain ⟨view, q⟩ := call
      cases hcall
      cases hexec
      exact ⟨fresh_wf, fresh_holdings⟩
    · obtain ⟨view, q⟩ := call
      exact method_spec hWF hpre hcall husable (guided_returns hcall hexec)
  · intro call s p _ _ _ hexec
    obtain ⟨view, q⟩ := call
    cases q with
    | remove t => cases hexec
    | isIdle => cases hexec
    | isSuspended t => cases hexec
    | queueIsEmpty q => cases hexec
    | queueRemove q t => cases hexec
    | _ => trivial

theorem keepsQueues (params : Params) (answers : Nat → Nat) :
    KeepsQueues (guided params answers) (GuidedWF params) (guidedHoldings params) := by
  have hstart : ∀ call : Call, call.2.onQueue = true → call.2 ≠ .start := by
    rintro ⟨view, q⟩ hqueue hcall
    cases hcall
    cases hqueue
  have halts : ∀ call : Call, call.2.onQueue = true →
      ∀ alts, call.2 = .randomChoice alts → 0 < alts := by
    rintro ⟨view, q⟩ hqueue alts hcall
    cases hcall
    cases hqueue
  refine TwistSim.keepsQueues (guided_implements params answers) ?_ ?_
  · intro call s hWF _ hdue hqueue
    obtain ⟨x, j, choices, hrun, hleaf⟩ :=
      guide_leaf (@method_branching params s.2 call (halts call hqueue)) answers s.1
    have hexcused : ¬ excused call := by
      obtain ⟨view, q⟩ := call
      cases q <;> first | exact id | cases hqueue
    obtain ⟨r, s', rfl⟩ := method_answers hWF hdue hexcused hleaf
    refine ⟨r, (j, s'), ?_⟩
    rw [guided_exec (hstart call hqueue), hrun]
    rfl
  · intro call s r s' hWF hqueue hexec
    obtain ⟨choices, hleaf⟩ := guided_leaf (hstart call hqueue) (halts call hqueue) hexec
    exact method_exact hWF hleaf

end Dfs

/-- Recording changes no queue. -/
theorem Replay.Recorder.keepsQueues {σ : Type} {S : IScheduler σ} {WF : σ → Prop}
    {holdings : σ → Holdings} (hS : KeepsQueues S WF holdings) :
    KeepsQueues (scheduler S) (fun r => WF r.underlying)
      fun r => holdings r.underlying := by
  constructor
  · intro call r hWF hassume hpre
    have hcall : call.2 ≠ .isModelChecker := by
      intro hcall
      have hqueue := hpre.2.2
      rw [hcall] at hqueue
      cases hqueue
    have hstep := hS.queues call r.underlying hWF hassume hpre
    rw [recorder_answer hcall]
    cases hanswer : S.answer call r.underlying with
    | error p => rwa [hanswer] at hstep
    | ok result => rwa [hanswer] at hstep
  · intro call r hWF hassume hpre
    by_cases hcall : call.2 = .isModelChecker
    · obtain ⟨view, q⟩ := call
      cases hcall
      exact ⟨hWF, rfl⟩
    · have hstep := hS.calls call r.underlying hWF hassume hpre
      rw [recorder_answer hcall]
      cases hanswer : S.answer call r.underlying with
      | error p => rwa [hanswer] at hstep
      | ok result => rwa [hanswer] at hstep

/-! ### The waiters of a futex -/

/-- The threads that wait on each futex. -/
abbrev Ledger := FutexKey → Multiset ThreadId

namespace Ledger

def empty : Ledger := fun _ => 0

/-- `waiters` may be the waiters of `key`. -/
structure Fits (ledger : Ledger) (owned : Multiset ThreadId) (key : FutexKey)
    (waiters : Multiset ThreadId) : Prop where
  nodup : waiters.Nodup
  valid : ∀ t ∈ waiters, Holdings.ValidId t
  running : ∀ t ∈ waiters, t ∉ owned
  elsewhere : ∀ t ∈ waiters, ∀ other, other ≠ key → t ∉ ledger other

/-- Each thread is at most once in at most one queue. -/
def Apart (ledger : Ledger) (owned : Multiset ThreadId) : Prop :=
  ∀ key, ledger.Fits owned key (ledger key)

/-- The thread is in no queue. -/
structure Loose (ledger : Ledger) (owned : Multiset ThreadId) (t : ThreadId) :
    Prop where
  valid : Holdings.ValidId t
  running : t ∉ owned
  waiting : ∀ key, t ∉ ledger key

variable {ledger : Ledger} {owned : Multiset ThreadId} {key : FutexKey}
  {t : ThreadId}

theorem Apart.update {waiters : Multiset ThreadId} (h : ledger.Apart owned)
    (hfits : ledger.Fits owned key waiters) :
    Apart (Function.update ledger key waiters) owned := by
  intro k
  by_cases hk : k = key
  · subst hk
    rw [Function.update_self]
    refine ⟨hfits.nodup, hfits.valid, hfits.running, fun t ht other hother => ?_⟩
    rw [Function.update_of_ne hother]
    exact hfits.elsewhere t ht other hother
  · rw [Function.update_of_ne hk]
    refine ⟨(h k).nodup, (h k).valid, (h k).running, fun t ht other hother => ?_⟩
    by_cases hkey : other = key
    · subst hkey
      rw [Function.update_self]
      exact fun hmem => hfits.elsewhere t hmem k hk ht
    · rw [Function.update_of_ne hkey]
      exact (h k).elsewhere t ht other hother

theorem Apart.erase (h : ledger.Apart owned) (key : FutexKey) (t : ThreadId) :
    ledger.Fits owned key ((ledger key).erase t) where
  nodup := (h key).nodup.erase t
  valid u hu := (h key).valid u (Multiset.mem_of_mem_erase hu)
  running u hu := (h key).running u (Multiset.mem_of_mem_erase hu)
  elsewhere u hu := (h key).elsewhere u (Multiset.mem_of_mem_erase hu)

theorem Apart.cons (h : ledger.Apart owned) (ht : ledger.Loose owned t)
    (key : FutexKey) : ledger.Fits owned key (t ::ₘ ledger key) where
  nodup := Multiset.nodup_cons.mpr ⟨ht.waiting key, (h key).nodup⟩
  valid u hu := by
    rcases Multiset.mem_cons.mp hu with rfl | hu
    · exact ht.valid
    · exact (h key).valid u hu
  running u hu := by
    rcases Multiset.mem_cons.mp hu with rfl | hu
    · exact ht.running
    · exact (h key).running u hu
  elsewhere u hu other hother := by
    rcases Multiset.mem_cons.mp hu with rfl | hu
    · exact ht.waiting other
    · exact (h key).elsewhere u hu other hother

theorem fits_zero (ledger : Ledger) (owned : Multiset ThreadId) (key : FutexKey) :
    ledger.Fits owned key 0 where
  nodup := Multiset.nodup_zero
  valid t ht := absurd ht (Multiset.notMem_zero t)
  running t ht := absurd ht (Multiset.notMem_zero t)
  elsewhere t ht := absurd ht (Multiset.notMem_zero t)

/-- The waiters of a futex, taken out of their queue, are in none. -/
theorem Apart.loose (h : ledger.Apart owned) (ht : t ∈ ledger key) :
    Loose (Function.update ledger key ((ledger key).erase t)) owned t where
  valid := (h key).valid t ht
  running := (h key).running t ht
  waiting other := by
    by_cases hother : other = key
    · subst hother
      rw [Function.update_self]
      exact (h other).nodup.notMem_erase
    · rw [Function.update_of_ne hother]
      exact (h key).elsewhere t ht other hother

end Ledger

/-- The waiters of a futex, wherever they are kept. -/
def contents (futex : FutexKey → WaitQueue) (a : Holdings) (key : FutexKey) :
    Multiset ThreadId :=
  match (futex key).waiters with
  | some id => a.waiters id
  | none => ↑(futex key).singleton.toList

/-- The futexes and the scheduler keep the waiters of the ledger. -/
structure Filed (futex : FutexKey → WaitQueue) (a : Holdings) (ledger : Ledger) :
    Prop where
  sound : a.Sound
  contents : ∀ key, contents futex a key = ledger key
  bound : ∀ key q, (futex key).waiters = some q → q < a.queues
  injective : ∀ key other q, (futex key).waiters = some q →
    (futex other).waiters = some q → key = other
  orphan : ∀ q, (∀ key, (futex key).waiters ≠ some q) → a.waiters q = 0
  apart : ledger.Apart a.owned

namespace Filed

variable {futex : FutexKey → WaitQueue} {a a' : Holdings} {ledger : Ledger}
  {key : FutexKey} {q : QueueId} {t : ThreadId}

theorem waiters (h : Filed futex a ledger) (hq : (futex key).waiters = some q) :
    a.waiters q = ledger key := by
  have hcontents := h.contents key
  simpa only [TwistSim.contents, hq] using hcontents

theorem singleton (h : Filed futex a ledger) (hq : (futex key).waiters = none) :
    ↑(futex key).singleton.toList = ledger key := by
  have hcontents := h.contents key
  simpa only [TwistSim.contents, hq] using hcontents

theorem unknown (h : Filed futex a ledger) (ht : ledger.Loose a.owned t) :
    a.Unknown t := by
  refine ⟨⟨ht.running, fun q hmem => ?_⟩, ht.valid⟩
  by_cases hq : ∃ key, (futex key).waiters = some q
  · obtain ⟨key, hkey⟩ := hq
    exact ht.waiting key (h.waiters hkey ▸ hmem)
  · rw [h.orphan q fun key hkey => hq ⟨key, hkey⟩] at hmem
    exact Multiset.notMem_zero t hmem

/-- A queue of the scheduler changes. -/
theorem queueUpdate (h : Filed futex a ledger) (hq : (futex key).waiters = some q)
    {waiters : Multiset ThreadId} (hupdate : a.QueueUpdate a' q waiters)
    (hfits : ledger.Fits a.owned key waiters) :
    Filed futex a' (Function.update ledger key waiters) := by
  have howned : a'.owned = a.owned := by
    rw [Holdings.owned, Holdings.owned, hupdate.held, hupdate.suspended]
  have hother : ∀ q', q' ≠ q → a'.waiters q' = a.waiters q' := by
    intro q' hne
    rw [hupdate.waiters, Function.update_of_ne hne]
  have hself : a'.waiters q = waiters := by
    rw [hupdate.waiters, Function.update_self]
  refine ⟨⟨howned ▸ h.sound.owned, howned ▸ h.sound.valid, ?_, ?_⟩, ?_, ?_,
    h.injective, ?_, ?_⟩
  · intro q'
    by_cases hne : q' = q
    · rw [hne, hself]
      exact hfits.nodup
    · rw [hother q' hne]
      exact h.sound.waiters q'
  · intro q'
    by_cases hne : q' = q
    · rw [hne, hself]
      exact hfits.valid
    · rw [hother q' hne]
      exact h.sound.validWaiters q'
  · intro k
    by_cases hk : k = key
    · subst hk
      simp only [TwistSim.contents, hq, Function.update_self, hself]
    · rw [Function.update_of_ne hk, ← h.contents k, TwistSim.contents,
        TwistSim.contents]
      cases hq' : (futex k).waiters with
      | none => rfl
      | some q' => exact hother q' fun hne => hk (h.injective _ _ q (hne ▸ hq') hq)
  · exact fun k q' hq' => hupdate.queues ▸ h.bound k q' hq'
  · intro q' horphan
    rw [hother q' fun hne => horphan key (hne ▸ hq)]
    exact h.orphan q' horphan
  · rw [howned]
    exact h.apart.update hfits

/-- A futex that has no queue keeps another waiter, or none. -/
theorem hold (h : Filed futex a ledger) (hq : (futex key).waiters = none)
    (waiter : Option ThreadId)
    (hfits : ledger.Fits a.owned key ↑waiter.toList) :
    Filed (Function.update futex key ⟨none, waiter⟩) a
      (Function.update ledger key ↑waiter.toList) := by
  have hwaiters : ∀ k,
      (Function.update futex key ⟨none, waiter⟩ k).waiters = (futex k).waiters := by
    intro k
    by_cases hk : k = key
    · subst hk
      rw [Function.update_self, hq]
    · rw [Function.update_of_ne hk]
  refine ⟨h.sound, ?_, ?_, ?_, ?_, h.apart.update hfits⟩
  · intro k
    by_cases hk : k = key
    · subst hk
      simp only [TwistSim.contents, Function.update_self]
    · simp only [TwistSim.contents, Function.update_of_ne hk]
      exact h.contents k
  · exact fun k q' hq' => h.bound k q' (hwaiters k ▸ hq')
  · exact fun k₁ k₂ q' h₁ h₂ =>
      h.injective k₁ k₂ q' (hwaiters k₁ ▸ h₁) (hwaiters k₂ ▸ h₂)
  · exact fun q' horphan =>
      h.orphan q' fun k hq' => horphan k ((hwaiters k).trans hq')

/-- A futex gets a queue of the scheduler. -/
theorem switch (h : Filed futex a ledger) (hq : (futex key).waiters = none)
    (hempty : a.waiters a.queues = 0) :
    Filed (Function.update futex key ⟨some a.queues, none⟩)
      { a with queues := a.queues + 1 } (Function.update ledger key 0) := by
  have hnew : ∀ k, (futex k).waiters ≠ some a.queues := fun k hq' =>
    Nat.lt_irrefl _ (h.bound k a.queues hq')
  refine ⟨⟨h.sound.owned, h.sound.valid, h.sound.waiters, h.sound.validWaiters⟩,
    ?_, ?_, ?_, ?_, h.apart.update (ledger.fits_zero a.owned key)⟩
  · intro k
    by_cases hk : k = key
    · subst hk
      simp only [TwistSim.contents, Function.update_self]
      exact hempty
    · simp only [TwistSim.contents, Function.update_of_ne hk]
      exact h.contents k
  · intro k q' hq'
    by_cases hk : k = key
    · subst hk
      rw [Function.update_self] at hq'
      cases hq'
      exact Nat.lt_succ_self _
    · rw [Function.update_of_ne hk] at hq'
      exact Nat.lt_succ_of_lt (h.bound k q' hq')
  · intro k₁ k₂ q' h₁ h₂
    by_cases hk₁ : k₁ = key
    · by_cases hk₂ : k₂ = key
      · rw [hk₁, hk₂]
      · rw [hk₁, Function.update_self] at h₁
        rw [Function.update_of_ne hk₂] at h₂
        cases h₁
        exact absurd h₂ (hnew k₂)
    · rw [Function.update_of_ne hk₁] at h₁
      by_cases hk₂ : k₂ = key
      · rw [hk₂, Function.update_self] at h₂
        cases h₂
        exact absurd h₁ (hnew k₁)
      · rw [Function.update_of_ne hk₂] at h₂
        exact h.injective k₁ k₂ q' h₁ h₂
  · intro q' horphan
    by_cases hq' : q' = a.queues
    · rw [hq']
      exact hempty
    · refine h.orphan q' fun k hkq => ?_
      by_cases hk : k = key
      · subst hk
        rw [hq] at hkq
        cases hkq
      · refine horphan k ?_
        rw [Function.update_of_ne hk]
        exact hkq

end Filed

/-! ### The operations -/

/-- No thread has come to the run queue or left it. -/
def Holdings.SameRuns (a a' : Holdings) : Prop :=
  a'.held = a.held ∧ a'.suspended = a.suspended

theorem Holdings.SameRuns.owned {a a' : Holdings} (h : a.SameRuns a') :
    a'.owned = a.owned := by
  rw [Holdings.owned, Holdings.owned, h.1, h.2]

/-- A waiter is handed out, if there is one. -/
def Ledger.pop (ledger : Ledger) (key : FutexKey) : Option ThreadId → Ledger
  | none => ledger
  | some t => Function.update ledger key ((ledger key).erase t)

/-- A waiter is handed out exactly if there is one. -/
structure Ledger.Gives (ledger : Ledger) (key : FutexKey) (r : Option ThreadId) :
    Prop where
  none : r = none ↔ ledger key = 0
  some : ∀ t, r = some t → t ∈ ledger key

namespace Kernel

/-- `IsEmpty`. -/
def waitQueueIsEmpty (key : FutexKey) : KernelM Bool := do
  let sim ← get
  match (sim.futex key).waiters with
  | some id => query (.queueIsEmpty id)
  | none => pure (sim.futex key).singleton.isNone

/-- `PopAll` until it answers null, at most `fuel` times. -/
def popAllUntilNull (key : FutexKey) : Nat → KernelM (List ThreadId)
  | 0 => pure []
  | fuel + 1 => do
      match ← waitQueuePop key fun id => query (.queuePopAll id) with
      | none => pure []
      | some t => do
          let rest ← popAllUntilNull key fuel
          pure (t :: rest)

variable {sim : Sim} {a : Holdings} {ledger : Ledger} {key : FutexKey} {t : ThreadId}
  {α : Type} {exc : Thrown → Sim → Holdings → Prop}

theorem wp_query {q : Query} {post : q.Reply → Sim → Holdings → Prop}
    (hsound : a.Sound) (hproper : a.Proper (sim.view, q)) (hqueue : q.onQueue = true)
    (h : ∀ r a', a.post (sim.view, q) r a' → a.Exact (sim.view, q) r → post r sim a') :
    (query q).wp queueSpec False post exc sim a := by
  simp only [query, wp_bind, wp_get, wp_ask]
  exact fun _ => ⟨⟨hsound, hproper, hqueue⟩, id, fun r a' hpost => h r a' hpost.1 hpost.2⟩

theorem wp_getFutex {post : WaitQueue → Sim → Holdings → Prop}
    (h : ∀ sim', sim'.futex = sim.futex → post (sim.futex key) sim' a) :
    (getFutex key).wp queueSpec False post exc sim a := by
  simp only [getFutex, wp_bind, wp_modify, wp_get, wp_pure]
  split
  · exact h sim rfl
  · exact h _ rfl

theorem wp_setFutex {queue : WaitQueue} {post : Unit → Sim → Holdings → Prop} :
    (setFutex key queue).wp queueSpec False post exc sim a ↔
      post () (sim.setFutex key queue) a := Iff.rfl

theorem wp_enqueue {q : QueueId} (h : Filed sim.futex a ledger)
    (hq : (sim.futex key).waiters = some q) (ht : ledger.Loose a.owned t) :
    (query (.queuePush q t)).wp queueSpec False
      (fun _ sim' a' => sim' = sim ∧ a.SameRuns a' ∧
        Filed sim.futex a' (Function.update ledger key (t ::ₘ ledger key))) exc sim a := by
  refine wp_query h.sound ⟨h.unknown ht, h.bound key q hq⟩ rfl fun r a' hpost _ => ?_
  have hupdate : a.QueueUpdate a' q (t ::ₘ a.waiters q) := hpost
  rw [h.waiters hq] at hupdate
  exact ⟨rfl, ⟨hupdate.held, hupdate.suspended⟩,
    h.queueUpdate hq hupdate (h.apart.cons ht key)⟩

theorem wp_waitQueuePush (h : Filed sim.futex a ledger)
    (ht : ledger.Loose a.owned t) :
    (waitQueuePush key t).wp queueSpec False
      (fun _ sim' a' => a.SameRuns a' ∧
        Filed sim'.futex a' (Function.update ledger key (t ::ₘ ledger key))) exc
      sim a := by
  unfold waitQueuePush
  rw [wp_bind]
  refine wp_getFutex fun sim' hsim => ?_
  have h' : Filed sim'.futex a ledger := hsim ▸ h
  rw [← hsim]
  split
  · rename_i q _ hq
    refine wp_mono (wp_enqueue h' hq ht) ?_ fun _ _ _ hexc => hexc
    rintro _ _ a' ⟨rfl, hsame, hfiled⟩
    exact ⟨hsame, hfiled⟩
  · rename_i hq hsingle
    have hempty : ledger key = 0 := by
      rw [← h'.singleton hq, hsingle]
      rfl
    have hfits := h.apart.cons ht key
    rw [hempty] at hfits
    rw [wp_setFutex, hempty]
    exact ⟨⟨rfl, rfl⟩, h'.hold hq (some t) hfits⟩
  · rename_i first hq hsingle
    have hfirst : ledger key = {first} := by
      rw [← h'.singleton hq, hsingle]
      rfl
    have hloose := h.apart.loose (hfirst ▸ Multiset.mem_singleton_self first)
    have herase : (ledger key).erase first = 0 := by
      rw [hfirst, Multiset.erase_singleton]
    rw [herase] at hloose
    rw [wp_bind]
    refine wp_query h.sound trivial rfl fun id a₁ hnew _ => ?_
    obtain ⟨rfl, hwaiters, rfl⟩ := hnew
    rw [wp_bind, wp_setFutex, wp_bind]
    have hswitch := h'.switch hq hwaiters
    have hqueue : ((sim'.setFutex key ⟨some a.queues, none⟩).futex key).waiters =
        some a.queues := by
      simp only [Sim.setFutex, Function.update_self]
    refine wp_mono (wp_enqueue hswitch hqueue hloose) ?_ fun _ _ _ hexc => hexc
    rintro _ _ a₂ ⟨rfl, hsame₁, hfiled₁⟩
    have hback : Function.update (Function.update ledger key 0) key
        (first ::ₘ Function.update ledger key 0 key) = ledger := by
      rw [Function.update_self, Function.update_idem, Multiset.cons_zero, ← hfirst,
        Function.update_eq_self]
    rw [hback] at hfiled₁
    have ht' : ledger.Loose a₂.owned t := hsame₁.owned ▸ ht
    refine wp_mono (wp_enqueue hfiled₁ hqueue ht') ?_ fun _ _ _ hexc => hexc
    rintro _ _ a₃ ⟨rfl, hsame₂, hfiled₂⟩
    exact ⟨⟨hsame₂.1.trans hsame₁.1, hsame₂.2.trans hsame₁.2⟩, hfiled₂⟩

/-- A queue of the scheduler hands out a waiter. -/
theorem wp_dequeue {q : QueueId} {pop : KernelM (Option ThreadId)}
    (h : Filed sim.futex a ledger) (hq : (sim.futex key).waiters = some q)
    (hpop : pop = query (.queuePop q) ∨ pop = query (.queuePopAll q)) :
    pop.wp queueSpec False
      (fun r sim' a' => a.SameRuns a' ∧ ledger.Gives key r ∧
        Filed sim'.futex a' (ledger.pop key r)) exc sim a := by
  have hpops : ∀ r a', a.Pops q r a' → (r = none → a.waiters q = 0) →
      a.SameRuns a' ∧ ledger.Gives key r ∧ Filed sim.futex a' (ledger.pop key r) := by
    intro r a' hpops hexact
    rw [h.waiters hq] at hexact
    cases r with
    | none =>
        rw [show a' = a from hpops]
        exact ⟨⟨rfl, rfl⟩, ⟨⟨hexact, fun _ => rfl⟩, fun t ht => by cases ht⟩, h⟩
    | some t =>
        obtain ⟨rest, hrest, hupdate⟩ := hpops
        rw [h.waiters hq] at hrest
        have hmem : t ∈ ledger key := hrest ▸ Multiset.mem_cons_self t rest
        have herase : (ledger key).erase t = rest := by
          rw [hrest, Multiset.erase_cons_head]
        rw [← herase] at hupdate
        refine ⟨⟨hupdate.held, hupdate.suspended⟩, ⟨⟨?_, ?_⟩, ?_⟩,
          h.queueUpdate hq hupdate (h.apart.erase key t)⟩
        · intro hnone
          cases hnone
        · intro hempty
          rw [hempty] at hmem
          exact absurd hmem (Multiset.notMem_zero t)
        · intro u hu
          cases hu
          exact hmem
  rcases hpop with rfl | rfl
  · exact wp_query h.sound (h.bound key q hq) rfl fun r a' => hpops r a'
  · exact wp_query h.sound (h.bound key q hq) rfl fun r a' => hpops r a'

/-- `Pop` and `PopAll`. -/
theorem wp_waitQueuePop {pop : QueueId → KernelM (Option ThreadId)}
    (h : Filed sim.futex a ledger)
    (hpop : ∀ q, pop q = query (.queuePop q) ∨ pop q = query (.queuePopAll q)) :
    (waitQueuePop key pop).wp queueSpec False
      (fun r sim' a' => a.SameRuns a' ∧ ledger.Gives key r ∧
        Filed sim'.futex a' (ledger.pop key r)) exc sim a := by
  unfold waitQueuePop
  rw [wp_bind]
  refine wp_getFutex fun sim' hsim => ?_
  have h' : Filed sim'.futex a ledger := hsim ▸ h
  rw [← hsim]
  split
  · rename_i q hq
    exact wp_dequeue h' hq (hpop q)
  · rename_i hq
    rw [wp_bind, wp_setFutex, wp_pure]
    have hhold := h'.hold hq none (ledger.fits_zero a.owned key)
    have hsingle := h'.singleton hq
    refine ⟨⟨rfl, rfl⟩, ?_⟩
    cases hwaiter : (sim'.futex key).singleton with
    | none =>
        have hempty : ledger key = 0 := by
          rw [← hsingle, hwaiter]
          rfl
        refine ⟨⟨⟨fun _ => hempty, fun _ => rfl⟩, fun t ht => by cases ht⟩, ?_⟩
        have hsame : Function.update ledger key 0 = ledger := by
          rw [← hempty, Function.update_eq_self]
        exact hsame ▸ hhold
    | some first =>
        have hfirst : ledger key = {first} := by
          rw [← hsingle, hwaiter]
          rfl
        refine ⟨⟨⟨fun hnone => ?_, fun hempty => ?_⟩, fun t ht => ?_⟩, ?_⟩
        · cases hnone
        · rw [hfirst] at hempty
          exact absurd hempty (Multiset.singleton_ne_zero first)
        · cases ht
          rw [hfirst]
          exact Multiset.mem_singleton_self first
        · rw [Ledger.pop, hfirst, Multiset.erase_singleton]
          exact hhold

theorem wp_waitQueueRemove (h : Filed sim.futex a ledger) (ht : t ∈ ledger key) :
    (waitQueueRemove key t).wp queueSpec False
      (fun _ sim' a' => a.SameRuns a' ∧
        Filed sim'.futex a' (Function.update ledger key ((ledger key).erase t))) exc
      sim a := by
  unfold waitQueueRemove
  rw [wp_bind, wp_get]
  dsimp only
  split
  · rename_i q hq
    rw [wp_bind]
    have hmem : t ∈ a.waiters q := (h.waiters hq).symm ▸ ht
    refine wp_query h.sound ⟨hmem, h.bound key q hq⟩ rfl fun r a' hpost _ => ?_
    obtain ⟨rfl, hupdate⟩ := hpost
    rw [h.waiters hq] at hupdate
    exact ⟨⟨hupdate.held, hupdate.suspended⟩,
      h.queueUpdate hq hupdate (h.apart.erase key t)⟩
  · rename_i hq
    have hsingle := h.singleton hq
    cases hwaiter : (sim.futex key).singleton with
    | none =>
        rw [hwaiter] at hsingle
        rw [← hsingle] at ht
        exact absurd ht (Multiset.notMem_zero t)
    | some first =>
        have hfirst : ledger key = {first} := by
          rw [← hsingle, hwaiter]
          rfl
        rw [hfirst, Multiset.mem_singleton] at ht
        subst ht
        rw [wp_bind, wp_setFutex, wp_bind, wp_pure, hfirst, Multiset.erase_singleton]
        simp only [beq_self_eq_true, verify, if_true, wp_pure]
        exact ⟨⟨rfl, rfl⟩, h.hold hq none (ledger.fits_zero a.owned key)⟩

theorem wp_waitQueueIsEmpty (h : Filed sim.futex a ledger) :
    (waitQueueIsEmpty key).wp queueSpec False
      (fun r sim' a' => (r = true ↔ ledger key = 0) ∧ sim' = sim ∧ a' = a) exc
      sim a := by
  unfold waitQueueIsEmpty
  rw [wp_bind, wp_get]
  split
  · rename_i q hq
    refine wp_query h.sound (h.bound key q hq) rfl fun r a' hpost _ => ?_
    obtain ⟨hempty, rfl⟩ := hpost
    exact ⟨h.waiters hq ▸ hempty, rfl, rfl⟩
  · rename_i hq
    rw [wp_pure, ← h.singleton hq]
    cases (sim.futex key).singleton with
    | none => exact ⟨⟨fun _ => rfl, fun _ => rfl⟩, rfl, rfl⟩
    | some first =>
        refine ⟨⟨fun hfirst => ?_, fun hfirst => ?_⟩, rfl, rfl⟩
        · cases hfirst
        · exact absurd hfirst (Multiset.singleton_ne_zero first)

end Kernel

/-! ### Any sequence of operations -/

/-- The operations of wait queues. -/
inductive QueueOp where
  | push (key : FutexKey) (t : ThreadId)
  | pop (key : FutexKey)
  | popAll (key : FutexKey)
  | remove (key : FutexKey) (t : ThreadId)
  deriving DecidableEq, Repr

namespace QueueOp

def program : QueueOp → KernelM (Option ThreadId)
  | push key t => do
      Kernel.waitQueuePush key t
      pure none
  | pop key => Kernel.waitQueuePop key fun id => Kernel.query (.queuePop id)
  | popAll key => Kernel.waitQueuePop key fun id => Kernel.query (.queuePopAll id)
  | remove key t => do
      Kernel.waitQueueRemove key t
      pure none

/-- Only a thread that is in no queue is pushed, and only a member removed. -/
def Legal (ledger : Ledger) (owned : Multiset ThreadId) : QueueOp → Prop
  | push _ t => ledger.Loose owned t
  | remove key t => t ∈ ledger key
  | _ => True

/-- What an operation gives back. -/
def Returns (ledger : Ledger) : QueueOp → Option ThreadId → Prop
  | pop key, r | popAll key, r => ledger.Gives key r
  | _, _ => True

end QueueOp

namespace Ledger

/-- The ledger, brought up to date. -/
def after (ledger : Ledger) : QueueOp → Option ThreadId → Ledger
  | .push key t, _ => Function.update ledger key (t ::ₘ ledger key)
  | .pop key, r | .popAll key, r => ledger.pop key r
  | .remove key t, _ => Function.update ledger key ((ledger key).erase t)

/-- The other calls of a run: they push a thread that is in no queue to the run
queue, pick one, remove a member, or do something else. -/
def MayCall (ledger : Ledger) (a : Holdings) : Call → Prop
  | (_, .interrupt t) => ledger.Loose a.owned t ∧ a.slot = false
  | (_, .switchTo t _) | (_, .yield t) | (_, .wake t) | (_, .spawn t) =>
      ledger.Loose a.owned t
  | (_, .remove t) => t ∈ a.owned
  | (_, .isSuspended _) => a.held = 0
  | (_, .start) | (_, .newWaitQueue) | (_, .queueIsEmpty _) | (_, .queuePush _ _)
  | (_, .queuePop _) | (_, .queuePopAll _) | (_, .queueRemove _ _) => False
  | _ => True

end Ledger

namespace Kernel

variable {sim : Sim} {a : Holdings} {ledger : Ledger} {key : FutexKey} {t : ThreadId}
  {exc : Thrown → Sim → Holdings → Prop}

/-- By induction on the number of waiters. -/
theorem wp_popAllUntilNull (h : Filed sim.futex a ledger) {fuel : Nat}
    (hfuel : (ledger key).card < fuel) :
    (popAllUntilNull key fuel).wp queueSpec False
      (fun ts sim' a' => a.SameRuns a' ∧ ↑ts = ledger key ∧
        Filed sim'.futex a' (Function.update ledger key 0)) exc sim a := by
  induction fuel generalizing sim a ledger with
  | zero => exact absurd hfuel (Nat.not_lt_zero _)
  | succ fuel ih =>
      rw [popAllUntilNull, wp_bind]
      refine wp_mono (wp_waitQueuePop h fun q => Or.inr rfl) ?_ fun _ _ _ hexc => hexc
      rintro r sim₁ a₁ ⟨hsame, hgives, hfiled⟩
      cases r with
      | none =>
          have hempty : ledger key = 0 := hgives.none.mp rfl
          have hback : Function.update ledger key 0 = ledger := by
            rw [← hempty, Function.update_eq_self]
          rw [hback, hempty]
          exact ⟨hsame, rfl, hfiled⟩
      | some t =>
          have hmem : t ∈ ledger key := hgives.some t rfl
          have hself : ledger.pop key (some t) key = (ledger key).erase t :=
            Function.update_self _ _ _
          have hcard : (ledger.pop key (some t) key).card < fuel := by
            have herase := Multiset.card_erase_add_one hmem
            rw [hself]
            omega
          dsimp only
          rw [wp_bind]
          refine wp_mono (ih hfiled hcard) ?_ fun _ _ _ hexc => hexc
          rintro rest sim₂ a₂ ⟨hsame₂, hrest, hfiled₂⟩
          rw [Ledger.pop, Function.update_idem] at hfiled₂
          refine ⟨⟨hsame₂.1.trans hsame.1, hsame₂.2.trans hsame.2⟩, ?_, hfiled₂⟩
          rw [← Multiset.cons_coe, hrest, hself, Multiset.cons_erase hmem]

theorem wp_queueOp (h : Filed sim.futex a ledger) {op : QueueOp}
    (hlegal : op.Legal ledger a.owned) :
    op.program.wp queueSpec False
      (fun r sim' a' => a.SameRuns a' ∧ op.Returns ledger r ∧
        Filed sim'.futex a' (ledger.after op r)) exc sim a := by
  cases op with
  | push key t =>
      rw [QueueOp.program, wp_bind]
      refine wp_mono (wp_waitQueuePush h hlegal) ?_ fun _ _ _ hexc => hexc
      rintro _ sim' a' ⟨hsame, hfiled⟩
      exact ⟨hsame, trivial, hfiled⟩
  | pop key => exact wp_waitQueuePop h fun q => Or.inl rfl
  | popAll key => exact wp_waitQueuePop h fun q => Or.inr rfl
  | remove key t =>
      rw [QueueOp.program, wp_bind]
      refine wp_mono (wp_waitQueueRemove h hlegal) ?_ fun _ _ _ hexc => hexc
      rintro _ sim' a' ⟨hsame, hfiled⟩
      exact ⟨hsame, trivial, hfiled⟩

end Kernel

namespace Filed

variable {futex : FutexKey → WaitQueue} {a a' : Holdings} {ledger : Ledger}
  {t : ThreadId}

theorem notMem_waiters (h : Filed futex a ledger) (ht : t ∈ a.owned) (q : QueueId) :
    t ∉ a.waiters q := by
  intro hmem
  by_cases hq : ∃ key, (futex key).waiters = some q
  · obtain ⟨key, hkey⟩ := hq
    exact (h.apart key).running t (h.waiters hkey ▸ hmem) ht
  · rw [h.orphan q fun key hkey => hq ⟨key, hkey⟩] at hmem
    exact Multiset.notMem_zero t hmem

theorem proper (h : Filed futex a ledger) {call : Call}
    (hcall : ledger.MayCall a call) : a.Proper call := by
  obtain ⟨view, q⟩ := call
  cases q with
  | start => exact absurd hcall id
  | interrupt t => exact ⟨h.unknown hcall.1, hcall.2⟩
  | switchTo t next => exact h.unknown hcall
  | yield t => exact h.unknown hcall
  | wake t => exact h.unknown hcall
  | spawn t => exact h.unknown hcall
  | remove t => exact ⟨hcall, h.notMem_waiters hcall⟩
  | isSuspended t => exact hcall
  | queueIsEmpty q => exact absurd hcall id
  | queuePush q t => exact absurd hcall id
  | queuePop q => exact absurd hcall id
  | queuePopAll q => exact absurd hcall id
  | queueRemove q t => exact absurd hcall id
  | _ => trivial

/-- Only the run queue has changed. -/
theorem shift (h : Filed futex a ledger) (hsame : a.SameQueues a')
    (hnodup : a'.owned.Nodup) (hvalid : ∀ t ∈ a'.owned, Holdings.ValidId t)
    (hrunning : ∀ key, ∀ t ∈ ledger key, t ∉ a'.owned) : Filed futex a' ledger where
  sound := ⟨hnodup, hvalid, hsame.1 ▸ h.sound.waiters, hsame.1 ▸ h.sound.validWaiters⟩
  contents key := by
    rw [← h.contents key, TwistSim.contents, TwistSim.contents, hsame.1]
  bound key q hq := hsame.2 ▸ h.bound key q hq
  injective := h.injective
  orphan := hsame.1 ▸ h.orphan
  apart key := ⟨(h.apart key).nodup, (h.apart key).valid, hrunning key,
    (h.apart key).elsewhere⟩

theorem shrink (h : Filed futex a ledger) (hsame : a.SameQueues a')
    (hle : a'.owned ≤ a.owned) : Filed futex a' ledger :=
  h.shift hsame (Multiset.nodup_of_le hle h.sound.owned)
    (fun t ht => h.sound.valid t (Multiset.mem_of_le hle ht))
    fun key t ht hmem => (h.apart key).running t ht (Multiset.mem_of_le hle hmem)

theorem takes (h : Filed futex a ledger) (htakes : a.Takes a' t)
    (hloose : ledger.Loose a.owned t) : Filed futex a' ledger := by
  refine h.shift htakes.same ?_ ?_ ?_
  · rw [htakes.owned]
    exact Multiset.nodup_cons.mpr ⟨hloose.running, h.sound.owned⟩
  · intro u hu
    rw [htakes.owned, Multiset.mem_cons] at hu
    rcases hu with rfl | hu
    · exact hloose.valid
    · exact h.sound.valid u hu
  · intro key u hu hmem
    rw [htakes.owned, Multiset.mem_cons] at hmem
    rcases hmem with rfl | hmem
    · exact hloose.waiting key hu
    · exact (h.apart key).running u hu hmem

/-- The other calls are not of a wait queue. -/
theorem quiet {call : Call} (hcall : ledger.MayCall a call) :
    call.2.onQueue = false ∧ call.2 ≠ .start := by
  obtain ⟨view, q⟩ := call
  cases q <;> first | exact absurd hcall id | exact ⟨rfl, Query.noConfusion⟩

/-- They leave the wait queues of the scheduler alone. -/
theorem sameQueues {call : Call} {r : call.Reply} (hcall : ledger.MayCall a call)
    (hpost : a.post call r a') (hgoes : call.Continues r) : a.SameQueues a' := by
  have hsame : a' = a → a.SameQueues a' := by
    rintro rfl
    exact ⟨rfl, rfl⟩
  obtain ⟨view, q⟩ := call
  cases q with
  | interrupt t => exact hpost.same
  | switchTo t next => exact hpost.1.same
  | yield t => exact hpost.1.same
  | wake t => exact hpost.1.same
  | spawn t => exact hpost.1.same
  | pickNext =>
      cases r with
      | error why => exact absurd hgoes id
      | ok t => exact hpost.2.2.1
  | remove t => exact hpost.same
  | exit t => exact hpost.same
  | lockFree t flag => exact hpost.same
  | progress t => exact hpost.same
  | isIdle => exact hsame hpost.2
  | isSuspended t => exact hsame hpost.2
  | newIter => exact hsame hpost
  | randomNumber => exact hsame hpost
  | randomChoice alts => exact hsame hpost
  | spuriousWakeup => exact hsame hpost
  | spuriousTryFailure => exact hsame hpost
  | isModelChecker => exact hsame hpost
  | _ => exact absurd hcall id

/-- No other call changes what the wait queues contain. -/
theorem call (h : Filed futex a ledger) {call : Call} {r : call.Reply}
    (hcall : ledger.MayCall a call) (hpost : a.post call r a')
    (hgoes : call.Continues r) : Filed futex a' ledger := by
  have hsame := sameQueues hcall hpost hgoes
  obtain ⟨view, q⟩ := call
  cases q with
  | start => exact absurd hcall id
  | interrupt t => exact h.takes hpost hcall.1
  | switchTo t next => exact h.takes hpost.1 hcall
  | yield t => exact h.takes hpost.1 hcall
  | wake t => exact h.takes hpost.1 hcall
  | spawn t => exact h.takes hpost.1 hcall
  | pickNext =>
      cases r with
      | error why => exact absurd hgoes id
      | ok t =>
          obtain ⟨hheld, hsuspended, -⟩ := hpost
          refine h.shrink hsame ?_
          rw [Holdings.owned, Holdings.owned, hheld, hsuspended, Multiset.cons_add]
          exact Multiset.le_cons_self _ t
  | remove t => exact h.shrink hsame (add_le_add hpost.least.1 hpost.least.2)
  | exit t => exact h.shrink hsame hpost.owned.le
  | lockFree t flag => exact h.shrink hsame hpost.owned.le
  | progress t => exact h.shrink hsame hpost.owned.le
  | isIdle => exact hpost.2 ▸ h
  | isSuspended t => exact hpost.2 ▸ h
  | newIter => exact (show a' = a from hpost) ▸ h
  | randomNumber => exact (show a' = a from hpost) ▸ h
  | randomChoice alts => exact (show a' = a from hpost) ▸ h
  | spuriousWakeup => exact (show a' = a from hpost) ▸ h
  | spuriousTryFailure => exact (show a' = a from hpost) ▸ h
  | isModelChecker => exact (show a' = a from hpost) ▸ h
  | _ => exact absurd hcall id

end Filed

/-! ### Runs -/

section Runs

variable {σ : Type} {S : IScheduler σ} {WF : σ → Prop} {holdings : σ → Holdings}

/-- Operations of wait queues and other calls, one by one; the ledger has who was
pushed and has not been popped or removed. -/
inductive QueueRun (S : IScheduler σ) (holdings : σ → Holdings) (initial : σ → Prop) :
    Ledger → Sim → σ → Prop where
  | start {sim : Sim} {s : σ} (hinitial : initial s)
      (hfutex : ∀ key, sim.futex key = ⟨none, none⟩) :
      QueueRun S holdings initial Ledger.empty sim s
  | op {ledger : Ledger} {sim sim' : Sim} {s s' : σ} {op : QueueOp}
      {r : Option ThreadId} (hrun : QueueRun S holdings initial ledger sim s)
      (hlegal : op.Legal ledger (holdings s).owned)
      (hop : (op.program sim).interp S.answer s = .ok ((.ok r, sim'), s')) :
      QueueRun S holdings initial (ledger.after op r) sim' s'
  | call {ledger : Ledger} {sim : Sim} {s s' : σ} {call : Call} {r : call.Reply}
      (hrun : QueueRun S holdings initial ledger sim s)
      (hcall : ledger.MayCall (holdings s) call)
      (hanswer : S.answer call s = .ok (r, s')) (hgoes : call.Continues r) :
      QueueRun S holdings initial ledger sim s'

/-- Every wait queue is an exact set.  `goes` is asked of a program whose answers
come from a recorded run. -/
structure ExactSets (S : IScheduler σ) (holdings : σ → Holdings)
    (owned : Multiset ThreadId) (goes : ∀ {α : Type}, KernelM α → Prop)
    (ledger : Ledger) (sim : Sim) (s : σ) : Prop where
  contents : ∀ key, contents sim.futex (holdings s) key = ledger key
  apart : ledger.Apart owned
  isEmpty : ∀ key, ∃ r s',
    (Kernel.waitQueueIsEmpty key sim).interp S.answer s = .ok ((.ok r, sim), s') ∧
      (r = true ↔ ledger key = 0) ∧ holdings s' = holdings s
  operate : ∀ op : QueueOp, op.Legal ledger owned → goes op.program →
    ∃ r sim' s', (op.program sim).interp S.answer s = .ok ((.ok r, sim'), s') ∧
      op.Returns ledger r ∧ (holdings s).SameRuns (holdings s') ∧
      ∀ key, TwistSim.contents sim'.futex (holdings s') key = ledger.after op r key
  drain : ∀ key fuel, (ledger key).card < fuel →
    goes (Kernel.popAllUntilNull key fuel) →
    ∃ ts sim' s',
      (Kernel.popAllUntilNull key fuel sim).interp S.answer s =
        .ok ((.ok ts, sim'), s') ∧
      ↑ts = ledger key ∧ (holdings s).SameRuns (holdings s') ∧
      ∀ key', TwistSim.contents sim'.futex (holdings s') key' =
        Function.update ledger key 0 key'

/-- What is proved of an operation is so when it runs. -/
theorem runs_of_wp {α : Type} {m : KernelM α} {sim : Sim} {s : σ}
    {post : α → Sim → Holdings → Prop}
    (hS : KeepsQueues S WF holdings) (hWF : WF s)
    (h : m.wp queueSpec False post (fun _ _ _ => False) sim (holdings s)) :
    ∃ r sim' s', (m sim).interp S.answer s = .ok ((.ok r, sim'), s') ∧ WF s' ∧
      post r sim' (holdings s') := by
  have hsound := Interaction.wp_sound hS.queues hWF
    (Interaction.Along.of_forall fun _ _ => trivial) h
  cases hrun : (m sim).interp S.answer s with
  | error p =>
      rw [hrun] at hsound
      exact absurd hsound id
  | ok result =>
      obtain ⟨⟨r | r, sim'⟩, s'⟩ := result
      · rw [hrun] at hsound
        exact absurd hsound.2 id
      · rw [hrun] at hsound
        exact ⟨r, sim', s', rfl, hsound⟩

theorem filed_start {sim : Sim} {a : Holdings}
    (hfutex : ∀ key, sim.futex key = ⟨none, none⟩) (ha : a = Holdings.empty) :
    Filed sim.futex a Ledger.empty := by
  subst ha
  have hnone : ∀ key, (sim.futex key).waiters = none := fun key => by rw [hfutex key]
  refine ⟨Agrees.start.sound, ?_, ?_, ?_, fun _ _ => rfl, ?_⟩
  · intro key
    simp only [contents, hfutex key]
    rfl
  · intro key q hq
    rw [hnone key] at hq
    cases hq
  · intro key other q hq
    rw [hnone key] at hq
    cases hq
  · exact fun key => Ledger.fits_zero _ _ key

/-- By induction on the run. -/
theorem QueueRun.filed (hS : KeepsQueues S WF holdings) {initial : σ → Prop}
    (hinitial : ∀ s, initial s → WF s ∧ holdings s = Holdings.empty)
    {ledger : Ledger} {sim : Sim} {s : σ}
    (h : QueueRun S holdings initial ledger sim s) :
    WF s ∧ Filed sim.futex (holdings s) ledger := by
  induction h with
  | start hnew hfutex =>
      obtain ⟨hWF, hempty⟩ := hinitial _ hnew
      exact ⟨hWF, filed_start hfutex hempty⟩
  | op _ hlegal hop ih =>
      obtain ⟨hWF, hfiled⟩ := ih
      obtain ⟨r, sim', s', hrun, hWF', -, -, hfiled'⟩ :=
        runs_of_wp hS hWF (Kernel.wp_queueOp hfiled hlegal)
      rw [hop] at hrun
      cases hrun
      exact ⟨hWF', hfiled'⟩
  | @call ledger sim s s' call r _ hcall hanswer hgoes ih =>
      obtain ⟨hWF, hfiled⟩ := ih
      have hproper := hfiled.proper hcall
      have hstep := hS.calls call s hWF hproper.allowed (hproper.pre hfiled.sound)
      rw [hanswer] at hstep
      exact ⟨hstep.1, hfiled.call hcall hstep.2 hgoes⟩

theorem exactSets_of_filed (hS : KeepsQueues S WF holdings) {ledger : Ledger}
    {sim : Sim} {s : σ} (hWF : WF s) (hfiled : Filed sim.futex (holdings s) ledger) :
    ExactSets S holdings (holdings s).owned (fun _ => True) ledger sim s where
  contents := hfiled.contents
  apart := hfiled.apart
  isEmpty key := by
    obtain ⟨r, sim', s', hrun, _, hempty, rfl, hsame⟩ :=
      runs_of_wp hS hWF (@Kernel.wp_waitQueueIsEmpty sim (holdings s) ledger key _ hfiled)
    exact ⟨r, s', hrun, hempty, hsame⟩
  operate op hlegal _ := by
    obtain ⟨r, sim', s', hrun, _, hsame, hreturns, hfiled'⟩ :=
      runs_of_wp hS hWF (Kernel.wp_queueOp hfiled hlegal)
    exact ⟨r, sim', s', hrun, hreturns, hsame, hfiled'.contents⟩
  drain key fuel hfuel _ := by
    obtain ⟨ts, sim', s', hrun, _, hsame, hts, hfiled'⟩ :=
      runs_of_wp hS hWF (Kernel.wp_popAllUntilNull hfiled hfuel)
    exact ⟨ts, sim', s', hrun, hts, hsame, hfiled'.contents⟩

end Runs

end TwistSim

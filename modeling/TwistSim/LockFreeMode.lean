/-
Lock-free mode of the randomized scheduler: it counts the threads inside of
`LockFreeScope`s, and suspends one only while another can run.
-/
import TwistSim.RandomScheduler
import Mathlib.Data.List.Perm.Subperm

namespace TwistSim

namespace Random

section Suspension

variable {params : Params} {view : KernelView} {s s' : State} {t : ThreadId}

/-- Nothing that lock-free mode counts has changed. -/
def SameMode (s s' : State) : Prop :=
  s'.lfThreadCount = s.lfThreadCount ∧ s'.suspendedThreads = s.suspendedThreads

theorem enqueue_mode (h : enqueue t s = .ok s') : SameMode s s' := by
  obtain ⟨queue, _, rfl⟩ := map_eq_ok h
  exact ⟨rfl, rfl⟩

/-- The die is cast only where another lock-free thread is left. -/
theorem toLfSuspend_mode {yes : Bool}
    (h : toLfSuspend params view t s = .ok (yes, s')) :
    SameMode s s' ∧ (yes = true → (view.attrs t).lockFree = true ∧
      1 + s.suspendedThreads.length < s.lfThreadCount) := by
  obtain ⟨random, rfl⟩ := toLfSuspend_spec h
  refine ⟨⟨rfl, rfl⟩, fun hyes => ?_⟩
  obtain ⟨candidate, hcandidate, heq⟩ := map_eq_ok h
  have hyes' := congrArg Prod.fst heq
  rw [hyes] at hyes'
  have htrue : candidate = true := by
    cases candidate with
    | true => rfl
    | false => simp at hyes'
  subst htrue
  unfold lfCandidate at hcandidate
  split at hcandidate
  · cases hcandidate
  · split at hcandidate
    · cases hcandidate
    · rename_i hattrs
      split at hcandidate
      · cases hcandidate
      · split at hcandidate
        · cases hcandidate
        · simp only [Except.ok.injEq, Bool.and_eq_true, decide_eq_true_eq]
            at hcandidate
          have hlockFree : (view.attrs t).lockFree = true := by
            cases hcase : (view.attrs t).lockFree with
            | true => rfl
            | false => simp [hcase] at hattrs
          exact ⟨hlockFree, hcandidate.2⟩

theorem interrupt_mode (h : interrupt params view t s = .ok s') :
    SameMode s s' ∨
      (s'.lfThreadCount = s.lfThreadCount ∧
        s'.suspendedThreads = s.suspendedThreads ++ [t] ∧
        (view.attrs t).lockFree = true ∧
        1 + s.suspendedThreads.length < s.lfThreadCount) := by
  unfold interrupt at h
  split at h
  · exact Or.inl (enqueue_mode h)
  · split at h
    · cases h
    · rename_i s₁ hsuspend
      obtain ⟨⟨hcount, hsuspended⟩, hspare⟩ := toLfSuspend_mode hsuspend
      obtain ⟨suspended, hpush, rfl⟩ := map_eq_ok h
      unfold ThreadSet.push at hpush
      split at hpush
      · cases hpush
      · have hpushed := Except.ok.inj hpush
        obtain ⟨hlockFree, hless⟩ := hspare rfl
        refine Or.inr ⟨hcount, ?_, hlockFree, hless⟩
        exact hpushed.symm.trans (congrArg (· ++ [t]) hsuspended)
    · rename_i s₁ hsuspend
      obtain ⟨hsame, _⟩ := toLfSuspend_mode hsuspend
      cases h
      exact Or.inl hsame

/-- Resuming takes one thread from the suspended ones, if there is any. -/
theorem lfResume_mode (h : lfResume view s = .ok s') :
    s'.lfThreadCount = s.lfThreadCount ∧
      ((s.suspendedThreads = [] ∧ s'.suspendedThreads = []) ∨
        ∃ t, s.suspendedThreads.Perm (t :: s'.suspendedThreads)) := by
  obtain ⟨n, random, hroll⟩ := randomNumber_eq s
  rw [lfResume, hroll] at h
  split at h
  · rename_i hempty
    cases h
    exact ⟨rfl, Or.inl ⟨List.isEmpty_iff.mp hempty, List.isEmpty_iff.mp hempty⟩⟩
  · obtain ⟨_, hpop⟩ | ⟨t, rest, hpop, hperm⟩ :=
      ThreadSet.popRandom_cases s.suspendedThreads n
    · rw [hpop] at h
      cases h
    · rw [hpop] at h
      simp only at h
      split at h
      · obtain ⟨hcount, hsuspended⟩ := enqueue_mode h
        refine ⟨hcount, Or.inr ⟨t, ?_⟩⟩
        rw [hsuspended]
        exact hperm
      · cases h

theorem pickNext_mode {r : Except String ThreadId}
    (h : pickNext params view s = .ok (r, s')) : SameMode s s' := by
  obtain ⟨n, random, hroll⟩ := randomNumber_eq s
  obtain ⟨slice, random', hroll'⟩ := randomNumber_eq (reseed s random)
  unfold pickNext at h
  split at h
  · cases h
    exact ⟨rfl, rfl⟩
  · simp only [pickNextFromRunQueue, hroll, hroll'] at h
    split at h
    · cases h
    · split at h
      · cases h
      · cases h
        exact ⟨rfl, rfl⟩

end Suspension

/-! ### The simulator around the scheduler -/

/-- The threads of a simulation, as far as lock-free mode is concerned.
`scopes` are the `LockFreeScope`s a thread is in, each with the status that it
will restore. -/
structure System where
  scheduler : State
  attrs : ThreadId → ThreadAttrs
  alive : List ThreadId
  running : Option ThreadId
  scopes : ThreadId → List Bool
  tick : Nat

inductive Event where
  | spawn (child : ThreadId)
  | advance (ticks : Nat)
  | setPreemptive (on : Bool)
  | enterScope
  | exitScope
  | progress
  | interrupt (action : ActionType)
  | yield
  | block
  | wake (thread : ThreadId)
  | pickNext
  | exit
  deriving DecidableEq, Repr

namespace System

/-- The attributes of a new thread. -/
def newAttrs : ThreadAttrs := ⟨true, false⟩

/-- The simulator after `Start`. -/
def start (scheduler : State) (tick : Nat) : System where
  scheduler := Random.start scheduler
  attrs _ := newAttrs
  alive := []
  running := none
  scopes _ := []
  tick := tick

variable (params : Params) (s : System)

def view (action : Option ActionType) : KernelView where
  currTick := s.tick
  attrs := s.attrs
  action _ := action
  alive t := s.alive.elem t

/-- A call to the scheduler whose answer does not matter. -/
def tell (q : Query) (action : Option ActionType) : Except Panic System :=
  ((Random.scheduler params).exec (s.view action, q) s.scheduler).map fun (_, scheduler) =>
    { s with scheduler }

/-- `SysSetThreadAttrLockFree`. -/
def setLockFree (t : ThreadId) (on : Bool) : Except Panic System :=
  tell params
    { s with
      attrs := Function.update s.attrs t { s.attrs t with lockFree := on } }
    (.lockFree t on) none

def isIdle : Bool := s.scheduler.runQueue.isEmpty && s.scheduler.next.isNone

def pickNext : Except Panic System :=
  ((Random.scheduler params).exec (s.view none, .pickNext) s.scheduler).bind
    fun
      | (.ok t, scheduler) => .ok { s with scheduler, running := some t }
      | (.error _, _) => .error (.unreachable "not pruned")

/-- What the running thread does. -/
def act (t : ThreadId) : Event → Except Panic System
  | .setPreemptive on =>
      .ok { s with
        attrs := Function.update s.attrs t { s.attrs t with preemptive := on } }
  | .enterScope =>
      setLockFree params
        { s with
          scopes := Function.update s.scopes t
            ((s.attrs t).lockFree :: s.scopes t) }
        t true
  | .exitScope =>
      match s.scopes t with
      | [] => .error (.undefined "no scope")
      | prev :: rest =>
          setLockFree params
            { s with scopes := Function.update s.scopes t rest } t prev
  | .progress => tell params s (.progress t) none
  | .interrupt action =>
      tell params { s with running := none } (.interrupt t) (some action)
  | .yield => tell params { s with running := none } (.yield t) none
  | .block => .ok { s with running := none }
  | .exit =>
      (tell params s (.exit t) none).map fun s =>
        { s with running := none, alive := s.alive.erase t }
  | _ => .error (.unreachable "not an action of a thread")

/-- One event. -/
def apply : Event → Except Panic System
  | .spawn child =>
      tell params
        { s with
          alive := child :: s.alive
          attrs := Function.update s.attrs child newAttrs
          scopes := Function.update s.scopes child [] }
        (.spawn child) none
  | .advance ticks => .ok { s with tick := s.tick + ticks }
  | .wake t => tell params s (.wake t) none
  | .pickNext => pickNext params s
  | e =>
      match s.running with
      | some t => act params s t e
      | none => .error (.unreachable "no running thread")

/-- The threads inside the scheduler. -/
def owned : List ThreadId :=
  s.scheduler.next.toList ++ s.scheduler.runQueue ++ s.scheduler.suspendedThreads

/-- The events that can happen. -/
def enabled : Event → Bool
  | .spawn child => !s.alive.elem child
  | .advance _ => true
  | .wake t => s.alive.elem t && s.running != some t && !s.owned.elem t
  | .pickNext => s.running.isNone && !s.isIdle
  | .exitScope => s.running.any fun t => !(s.scopes t).isEmpty
  | .exit => s.running.any fun t => (s.scopes t).isEmpty
  | _ => s.running.isSome

/-- The event enters a scope inside of another. -/
def nests : Event → Bool
  | .enterScope => s.running.any fun t => (s.attrs t).lockFree
  | _ => false

/-- The alive threads with the attribute `lock_free`. -/
def lockFreeThreads : List ThreadId :=
  s.alive.filter fun t => (s.attrs t).lockFree

end System

/-- The states of a run whose events all satisfy `P`. -/
inductive Run (params : Params) (P : System → Event → Prop) : System → Prop
  | start (scheduler : State) (tick : Nat) :
      Run params P (System.start scheduler tick)
  | step {s s' : System} {e : Event} (h : Run params P s)
      (henabled : s.enabled e = true) (hP : P s e)
      (happly : s.apply params e = .ok s') : Run params P s'

/-! ### Where the threads are -/

variable {params : Params} {s s' : System} {t : ThreadId}

/-- Every thread inside the scheduler is there once, alive, and not running. -/
structure System.Placed (s : System) : Prop where
  nodup : s.alive.Nodup
  owned_nodup : s.owned.Nodup
  owned_alive : ∀ t ∈ s.owned, t ∈ s.alive ∧ s.running ≠ some t
  running_alive : ∀ t, s.running = some t → t ∈ s.alive
  slot : s.running.isSome → s.scheduler.next = none
  waiting : ∀ q, s.scheduler.waitSets q = []

theorem owned_coe (s : System) : s.scheduler.holdings.owned = ↑s.owned := by
  rw [System.owned, owned_eq]

theorem done_ok {x : Except Panic State} {r : Unit} {sch : State}
    (h : done x = .ok (r, sch)) : x = .ok sch := by
  obtain ⟨sch', hx, heq⟩ := map_eq_ok h
  cases heq
  exact hx

theorem tell_ok {q : Query} {action : Option ActionType}
    (h : s.tell params q action = .ok s') :
    ∃ r sch, (scheduler params).exec (s.view action, q) s.scheduler = .ok (r, sch) ∧
      s' = { s with scheduler := sch } := by
  obtain ⟨⟨r, sch⟩, hexec, rfl⟩ := map_eq_ok h
  exact ⟨r, sch, hexec, rfl⟩

/-- A thread is handed to the scheduler by somebody else. -/
theorem System.Placed.hand (h : s.Placed) (ht : t ∈ s'.alive)
    (hnodup : s'.alive.Nodup) (hsub : ∀ u ∈ s.alive, u ∈ s'.alive)
    (hfresh : t ∉ s.owned) (hrunning : s'.running = s.running)
    (hne : s.running ≠ some t) (howned : s'.owned.Perm (t :: s.owned))
    (hnext : s'.scheduler.next = s.scheduler.next)
    (hwait : s'.scheduler.waitSets = s.scheduler.waitSets) : s'.Placed where
  nodup := hnodup
  owned_nodup := howned.nodup_iff.mpr (List.nodup_cons.mpr ⟨hfresh, h.owned_nodup⟩)
  owned_alive u hu := by
    rw [hrunning]
    obtain rfl | hu := List.mem_cons.mp (howned.mem_iff.mp hu)
    · exact ⟨ht, hne⟩
    · exact ⟨hsub u (h.owned_alive u hu).1, (h.owned_alive u hu).2⟩
  running_alive u hu := hsub u (h.running_alive u (hrunning ▸ hu))
  slot hsome := hnext.trans (h.slot (hrunning ▸ hsome))
  waiting q := hwait ▸ h.waiting q

/-- The running thread gives itself to the scheduler. -/
theorem System.Placed.handBack (h : s.Placed) (hrunning : s.running = some t)
    (halive : s'.alive = s.alive) (hnone : s'.running = none)
    (howned : s'.owned.Perm (t :: s.owned))
    (hwait : s'.scheduler.waitSets = s.scheduler.waitSets) : s'.Placed where
  nodup := halive ▸ h.nodup
  owned_nodup := by
    have hfresh : t ∉ s.owned := fun ht => (h.owned_alive t ht).2 hrunning
    exact howned.nodup_iff.mpr (List.nodup_cons.mpr ⟨hfresh, h.owned_nodup⟩)
  owned_alive u hu := by
    rw [hnone, halive]
    refine ⟨?_, by simp⟩
    obtain rfl | hu := List.mem_cons.mp (howned.mem_iff.mp hu)
    · exact h.running_alive u hrunning
    · exact (h.owned_alive u hu).1
  running_alive u hu := by
    rw [hnone] at hu
    cases hu
  slot hsome := by
    rw [hnone] at hsome
    cases hsome
  waiting q := hwait ▸ h.waiting q

/-- The scheduler rearranges its threads. -/
theorem System.Placed.keep (h : s.Placed) (halive : s'.alive = s.alive)
    (hrunning : s'.running = s.running) (howned : s'.owned.Perm s.owned)
    (hslot : s'.scheduler.next.isSome = s.scheduler.next.isSome)
    (hwait : s'.scheduler.waitSets = s.scheduler.waitSets) : s'.Placed where
  nodup := halive ▸ h.nodup
  owned_nodup := howned.nodup_iff.mpr h.owned_nodup
  owned_alive u hu := by
    rw [hrunning, halive]
    exact h.owned_alive u (howned.mem_iff.mp hu)
  running_alive u hu := halive ▸ h.running_alive u (hrunning ▸ hu)
  slot hsome := by
    rw [h.slot (hrunning ▸ hsome)] at hslot
    simpa using hslot
  waiting q := hwait ▸ h.waiting q

/-- The running thread leaves without the scheduler. -/
theorem System.Placed.leave (h : s.Placed) (hrunning : s.running = some t)
    (halive : s'.alive = s.alive ∨ s'.alive = s.alive.erase t)
    (hnone : s'.running = none) (hsch : s'.scheduler = s.scheduler) : s'.Placed := by
  have howned : s'.owned = s.owned := by simp only [System.owned, hsch]
  refine ⟨?_, howned ▸ h.owned_nodup, fun u hu => ?_, fun u hu => ?_, fun hsome => ?_,
    hsch ▸ h.waiting⟩
  · obtain heq | heq := halive
    · exact heq ▸ h.nodup
    · exact heq ▸ h.nodup.erase t
  · rw [howned] at hu
    obtain ⟨hu, hne⟩ := h.owned_alive u hu
    rw [hnone]
    refine ⟨?_, by simp⟩
    obtain heq | heq := halive
    · exact heq ▸ hu
    · rw [heq]
      have hut : u ≠ t := by
        rintro rfl
        exact hne hrunning
      exact (List.mem_erase_of_ne hut).mpr hu
  · rw [hnone] at hu
    cases hu
  · rw [hnone] at hsome
    cases hsome

theorem exit_same {r : Except String Unit} {sch : State} {view : KernelView}
    (h : (scheduler params).exec (view, .exit t) s.scheduler = .ok (r, sch)) :
    sch = s.scheduler := by
  simp only [scheduler] at h
  split at h
  · cases h
  · cases h
    rfl

theorem owned_perm {s₁ s₂ : System}
    (howned : s₂.scheduler.holdings.owned = t ::ₘ s₁.scheduler.holdings.owned) :
    s₂.owned.Perm (t :: s₁.owned) := by
  rw [owned_coe, owned_coe, Multiset.cons_coe] at howned
  exact Multiset.coe_eq_coe.mp howned

theorem System.Placed.keeps {sch : State} (h : s.Placed)
    (hkeeps : s.scheduler.holdings.Keeps sch.holdings)
    (hsame : SameSets s.scheduler sch) (halive : s'.alive = s.alive)
    (hrunning : s'.running = s.running) (hsch : s'.scheduler = sch) : s'.Placed := by
  subst hsch
  refine h.keep halive hrunning ?_ hkeeps.slot hsame.1
  exact Multiset.coe_eq_coe.mp
    ((owned_coe _).symm.trans (hkeeps.owned.trans (owned_coe s)))

theorem setLockFree_placed {on : Bool} (h : s.Placed)
    (hset : s.setLockFree params t on = .ok s') : s'.Placed := by
  obtain ⟨r, sch, hexec, rfl⟩ := tell_ok hset
  obtain ⟨hkeeps, hsame⟩ := setLockFree_spec (done_ok hexec)
  exact h.keeps hkeeps hsame rfl rfl rfl

/-- The scopes and the attributes are not about places. -/
theorem System.Placed.withScopes (h : s.Placed) (scopes : ThreadId → List Bool)
    (attrs : ThreadId → ThreadAttrs) :
    ({ s with scopes, attrs } : System).Placed :=
  h.keep rfl rfl (List.Perm.refl _) rfl rfl

theorem pickNext_placed (h : s.Placed) (henabled : s.enabled .pickNext = true)
    (hpick : s.pickNext params = .ok s') : s'.Placed := by
  have hnone : s.running = none := by
    simp only [System.enabled, Bool.and_eq_true, Option.isNone_iff_eq_none]
      at henabled
    exact henabled.1
  unfold System.pickNext at hpick
  cases hexec : (scheduler params).exec (s.view none, .pickNext) s.scheduler with
  | error p =>
      rw [hexec] at hpick
      cases hpick
  | ok result =>
      obtain ⟨r, sch⟩ := result
      rw [hexec] at hpick
      obtain ⟨t, rfl, hheld, hsuspended, hsame, hnext⟩ := pickNext_spec hexec
      cases hpick
      have howned : s.scheduler.holdings.owned = t ::ₘ sch.holdings.owned := by
        rw [Holdings.owned, Holdings.owned, hheld, hsuspended, Multiset.cons_add]
      have hperm : s.owned.Perm (t :: System.owned
          { s with scheduler := sch, running := some t }) :=
        owned_perm howned
      obtain ⟨hfresh, hnodup⟩ :=
        List.nodup_cons.mp (hperm.nodup_iff.mp h.owned_nodup)
      refine ⟨h.nodup, hnodup, fun u hu => ?_, fun u hu => ?_, fun _ => hnext,
        fun q => ?_⟩
      · have hmem := hperm.mem_iff.mpr (List.mem_cons_of_mem t hu)
        refine ⟨(h.owned_alive u hmem).1, ?_⟩
        rintro ⟨⟩
        exact hfresh hu
      · cases hu
        exact (h.owned_alive t (hperm.mem_iff.mpr List.mem_cons_self)).1
      · exact (congrFun hsame.1 q).trans (h.waiting q)

theorem act_placed {e : Event} (h : s.Placed) (hrunning : s.running = some t)
    (hact : s.act params t e = .ok s') : s'.Placed := by
  cases e with
  | setPreemptive on =>
      cases hact
      exact h.withScopes _ _
  | enterScope => exact setLockFree_placed (h.withScopes _ s.attrs) hact
  | exitScope =>
      simp only [System.act] at hact
      split at hact
      · cases hact
      · exact setLockFree_placed (h.withScopes _ s.attrs) hact
  | progress =>
      obtain ⟨r, sch, hexec, rfl⟩ := tell_ok hact
      obtain ⟨hkeeps, hsame⟩ := progress_spec (done_ok hexec)
      exact h.keeps hkeeps hsame rfl rfl rfl
  | interrupt action =>
      obtain ⟨r, sch, hexec, rfl⟩ := tell_ok hact
      have hnext := h.slot (by rw [hrunning]; rfl)
      obtain ⟨howned, hsame⟩ := interrupt_spec hnext (done_ok hexec)
      exact h.handBack hrunning rfl rfl (owned_perm howned) hsame.1
  | yield =>
      obtain ⟨r, sch, hexec, rfl⟩ := tell_ok hact
      obtain ⟨howned, hsame, _⟩ := enqueue_spec (done_ok hexec)
      exact h.handBack hrunning rfl rfl (owned_perm howned) hsame.1
  | block =>
      cases hact
      exact h.leave hrunning (Or.inl rfl) rfl rfl
  | exit =>
      obtain ⟨s₁, htell, rfl⟩ := map_eq_ok hact
      obtain ⟨r, sch, hexec, rfl⟩ := tell_ok htell
      have hsch : sch = s.scheduler := exit_same hexec
      subst hsch
      exact h.leave hrunning (Or.inr rfl) rfl rfl
  | spawn child => cases hact
  | advance ticks => cases hact
  | wake u => cases hact
  | pickNext => cases hact

/-- The first step lemma: threads stay where they can be told from each other. -/
theorem apply_placed {e : Event} (h : s.Placed) (henabled : s.enabled e = true)
    (happly : s.apply params e = .ok s') : s'.Placed := by
  cases e with
  | spawn child =>
      obtain ⟨r, sch, hexec, rfl⟩ := tell_ok happly
      obtain ⟨howned, ⟨hwait, _⟩, hnext⟩ := enqueue_spec (done_ok hexec)
      have hnew : child ∉ s.alive := by simpa [System.enabled] using henabled
      have hfresh : child ∉ s.owned :=
        fun hmem => hnew (h.owned_alive child hmem).1
      have hne : s.running ≠ some child :=
        fun hrunning => hnew (h.running_alive child hrunning)
      exact h.hand List.mem_cons_self (List.nodup_cons.mpr ⟨hnew, h.nodup⟩)
        (fun u hu => List.mem_cons_of_mem _ hu) hfresh rfl hne
        (owned_perm howned) hnext hwait
  | advance ticks =>
      cases happly
      exact h.keep rfl rfl (List.Perm.refl _) rfl rfl
  | wake t =>
      obtain ⟨r, sch, hexec, rfl⟩ := tell_ok happly
      obtain ⟨howned, ⟨hwait, _⟩, hnext⟩ := enqueue_spec (done_ok hexec)
      simp only [System.enabled, Bool.and_eq_true, bne_iff_ne, Bool.not_eq_true',
        List.elem_eq_mem, decide_eq_true_eq, decide_eq_false_iff_not] at henabled
      exact h.hand henabled.1.1 h.nodup (fun u hu => hu) henabled.2 rfl
        henabled.1.2 (owned_perm howned) hnext hwait
  | pickNext => exact pickNext_placed h henabled happly
  | setPreemptive on => exact apply_act_placed h happly
  | enterScope => exact apply_act_placed h happly
  | exitScope => exact apply_act_placed h happly
  | progress => exact apply_act_placed h happly
  | interrupt action => exact apply_act_placed h happly
  | yield => exact apply_act_placed h happly
  | block => exact apply_act_placed h happly
  | exit => exact apply_act_placed h happly
where
  apply_act_placed {e : Event} (h : s.Placed)
      (happly : (match s.running with
        | some t => s.act params t e
        | none => .error (.unreachable "no running thread")) = .ok s') :
      s'.Placed := by
    split at happly
    · rename_i hrunning
      exact act_placed h hrunning happly
    · cases happly

/-! ### The count of lock-free threads -/

/-- The scopes of a thread are not nested: it is in one of them, which will
restore `false`, exactly while its attribute is set. -/
def System.Scoped (s : System) (t : ThreadId) : Prop :=
  (s.scopes t = [] ∧ (s.attrs t).lockFree = false) ∨
    (s.scopes t = [false] ∧ (s.attrs t).lockFree = true)

/-- `lf_thread_count_` is right, and leaves a thread that is not suspended. -/
structure System.Counted (s : System) : Prop where
  count : s.scheduler.lfThreadCount = s.lockFreeThreads.length
  suspended : ∀ t ∈ s.scheduler.suspendedThreads, (s.attrs t).lockFree = true
  spare : s.scheduler.suspendedThreads ≠ [] →
    s.scheduler.suspendedThreads.length < s.scheduler.lfThreadCount
  unnested : ∀ t ∈ s.alive, s.Scoped t

/-- Lock-free mode does not change for anybody. -/
theorem System.Counted.keep (h : s.Counted) (halive : s'.alive = s.alive)
    (hattrs : s'.attrs = s.attrs) (hscopes : s'.scopes = s.scopes)
    (hmode : SameMode s.scheduler s'.scheduler) : s'.Counted where
  count := by
    simp only [hmode.1, h.count, System.lockFreeThreads, halive, hattrs]
  suspended t ht := by
    rw [hattrs]
    exact h.suspended t (hmode.2 ▸ ht)
  spare := by
    rw [hmode.1, hmode.2]
    exact h.spare
  unnested t ht := by
    simp only [System.Scoped, hattrs, hscopes]
    exact h.unnested t (halive ▸ ht)

/-- Resuming a suspended thread leaves even more of the others. -/
theorem System.Counted.resume (h : s.Counted) (halive : s'.alive = s.alive)
    (hattrs : s'.attrs = s.attrs) (hscopes : s'.scopes = s.scopes)
    (hcount : s'.scheduler.lfThreadCount = s.scheduler.lfThreadCount)
    (hsub : s'.scheduler.suspendedThreads.Subperm s.scheduler.suspendedThreads) :
    s'.Counted where
  count := by
    simp only [hcount, h.count, System.lockFreeThreads, halive, hattrs]
  suspended t ht := by
    rw [hattrs]
    exact h.suspended t (hsub.subset ht)
  spare hne := by
    have hlength := hsub.length_le
    have hne' : s.scheduler.suspendedThreads ≠ [] := by
      intro hnil
      rw [hnil] at hsub
      exact hne (List.subperm_nil.mp hsub)
    rw [hcount]
    exact Nat.lt_of_le_of_lt hlength (h.spare hne')
  unnested t ht := by
    simp only [System.Scoped, hattrs, hscopes]
    exact h.unnested t (halive ▸ ht)

theorem lfResume_subperm {view : KernelView} {sch sch' : State}
    (h : lfResume view sch = .ok sch') :
    sch'.lfThreadCount = sch.lfThreadCount ∧
      sch'.suspendedThreads.Subperm sch.suspendedThreads ∧
      (sch.suspendedThreads ≠ [] →
        sch'.suspendedThreads.length < sch.suspendedThreads.length) := by
  obtain ⟨hcount, ⟨hempty, hempty'⟩ | ⟨t, hperm⟩⟩ := lfResume_mode h
  · refine ⟨hcount, ?_, fun hne => absurd hempty hne⟩
    rw [hempty, hempty']
  · refine ⟨hcount, ?_, fun _ => ?_⟩
    · exact (List.subperm_cons_self).trans hperm.symm.subperm
    · rw [hperm.length_eq]
      exact Nat.lt_succ_self _

/-- Changing the attribute of one alive thread changes the count by one. -/
theorem lockFree_length_update {alive : List ThreadId}
    {attrs : ThreadId → ThreadAttrs} {t : ThreadId} (hnodup : alive.Nodup)
    (ht : t ∈ alive) (hoff : (attrs t).lockFree = false) :
    (alive.filter fun u =>
      (Function.update attrs t { attrs t with lockFree := true } u).lockFree).length =
      (alive.filter fun u => (attrs u).lockFree).length + 1 := by
  induction alive with
  | nil => cases ht
  | cons head rest ih =>
      obtain ⟨hhead, hrest⟩ := List.nodup_cons.mp hnodup
      by_cases heq : head = t
      · subst heq
        have hsame : (rest.filter fun u =>
            (Function.update attrs head
              { attrs head with lockFree := true } u).lockFree) =
            rest.filter fun u => (attrs u).lockFree := by
          apply List.filter_congr
          intro u hu
          have hne : u ≠ head := fun h => hhead (h ▸ hu)
          rw [Function.update_of_ne hne]
        simp [hsame, hoff]
      · have ht' : t ∈ rest := by
          obtain h | h := List.mem_cons.mp ht
          · exact absurd h.symm heq
          · exact h
        have hlength := ih hrest ht'
        by_cases hlf : (attrs head).lockFree = true
        · simp [heq, hlf, hlength]
        · simp [heq, hlf, hlength]

theorem lockFree_length_reset {alive : List ThreadId}
    {attrs : ThreadId → ThreadAttrs} {t : ThreadId} (hnodup : alive.Nodup)
    (ht : t ∈ alive) (hon : (attrs t).lockFree = true) :
    (alive.filter fun u => (attrs u).lockFree).length =
      (alive.filter fun u => (Function.update attrs t
        { attrs t with lockFree := false } u).lockFree).length + 1 := by
  have hset := @lockFree_length_update alive
    (Function.update attrs t { attrs t with lockFree := false }) t hnodup ht (by simp)
  have hback : Function.update
      (Function.update attrs t { attrs t with lockFree := false }) t
      { Function.update attrs t { attrs t with lockFree := false } t with
        lockFree := true } = attrs := by
    funext u
    by_cases hu : u = t
    · subst hu
      simp only [Function.update_self]
      rw [← hon]
    · simp [hu]
  rw [hback] at hset
  exact hset

/-- Attributes that differ in nothing that lock-free mode looks at. -/
theorem System.Counted.sameAttrs {attrs : ThreadId → ThreadAttrs} (h : s.Counted)
    (hattrs : ∀ u, (attrs u).lockFree = (s.attrs u).lockFree) :
    ({ s with attrs } : System).Counted where
  count := by
    simp only [h.count, System.lockFreeThreads, hattrs]
  suspended u hu := (hattrs u).trans (h.suspended u hu)
  spare := h.spare
  unnested u hu := by
    simp only [System.Scoped, hattrs]
    exact h.unnested u hu

theorem spawn_counted {child : ThreadId} (hp : s.Placed) (h : s.Counted)
    (hnew : child ∉ s.alive) (happly : s.apply params (.spawn child) = .ok s') :
    s'.Counted := by
  obtain ⟨r, sch, hexec, rfl⟩ := tell_ok happly
  obtain ⟨hcount, hsuspended⟩ := enqueue_mode (done_ok hexec)
  have hne : ∀ u ∈ s.alive, u ≠ child := by
    rintro u hu rfl
    exact hnew hu
  have halive : ∀ u ∈ s.scheduler.suspendedThreads, u ∈ s.alive := by
    intro u hu
    exact (hp.owned_alive u (List.mem_append_right _ hu)).1
  refine ⟨?_, fun u hu => ?_, ?_, fun u hu => ?_⟩
  · have hsame : (s.alive.filter fun u =>
        (Function.update s.attrs child System.newAttrs u).lockFree) =
        s.alive.filter fun u => (s.attrs u).lockFree := by
      apply List.filter_congr
      intro u hu
      rw [Function.update_of_ne (hne u hu)]
    simp only [System.lockFreeThreads, List.filter_cons, Function.update_self,
      hsame]
    exact hcount.trans h.count
  · have hu : u ∈ s.scheduler.suspendedThreads := hsuspended ▸ hu
    simp only [Function.update_of_ne (hne u (halive u hu))]
    exact h.suspended u hu
  · rw [hcount, hsuspended]
    exact h.spare
  · simp only [System.Scoped]
    obtain rfl | hu := List.mem_cons.mp hu
    · simp [System.newAttrs]
    · simp only [Function.update_of_ne (hne u hu)]
      exact h.unnested u hu

theorem exit_counted (h : s.Counted) (ht : t ∈ s.alive)
    (hscopes : s.scopes t = []) (hact : s.act params t .exit = .ok s') :
    s'.Counted := by
  obtain ⟨s₁, htell, rfl⟩ := map_eq_ok hact
  obtain ⟨r, sch, hexec, rfl⟩ := tell_ok htell
  have hsch : sch = s.scheduler := exit_same hexec
  subst hsch
  have hoff : (s.attrs t).lockFree = false := by
    obtain ⟨_, hoff⟩ | ⟨hscope, _⟩ := h.unnested t ht
    · exact hoff
    · rw [hscopes] at hscope
      cases hscope
  refine ⟨?_, h.suspended, h.spare, fun u hu => ?_⟩
  · have hperm := (List.perm_cons_erase ht).filter fun u => (s.attrs u).lockFree
    have hlength := hperm.length_eq
    rw [List.filter_cons, hoff, if_neg Bool.false_ne_true] at hlength
    exact h.count.trans hlength
  · exact h.unnested u (List.mem_of_mem_erase hu)

theorem enterScope_counted (hp : s.Placed) (h : s.Counted) (ht : t ∈ s.alive)
    (hoff : (s.attrs t).lockFree = false)
    (hact : s.act params t .enterScope = .ok s') : s'.Counted := by
  obtain ⟨r, sch, hexec, rfl⟩ := tell_ok hact
  have hscopes : s.scopes t = [] := by
    obtain ⟨hscopes, _⟩ | ⟨_, hon⟩ := h.unnested t ht
    · exact hscopes
    · rw [hoff] at hon
      cases hon
  have hset := done_ok hexec
  simp only [setLockFree, System.view, Function.update_self, ne_eq,
    not_true_eq_false, if_false, if_true] at hset
  cases hset
  refine ⟨?_, fun u hu => ?_, fun hne => ?_, fun u hu => ?_⟩
  · simp only [System.lockFreeThreads]
    rw [lockFree_length_update hp.nodup ht hoff, h.count]
    rfl
  · by_cases hut : u = t
    · subst hut
      simp
    · simpa [hut] using h.suspended u hu
  · exact Nat.lt_succ_of_lt (h.spare hne)
  · by_cases hut : u = t
    · subst hut
      exact Or.inr (by simp [hscopes, hoff])
    · simpa [System.Scoped, hut] using h.unnested u hu

theorem exitScope_counted (hp : s.Placed) (h : s.Counted) (ht : t ∈ s.alive)
    (hrunning : s.running = some t)
    (hact : s.act params t .exitScope = .ok s') : s'.Counted := by
  simp only [System.act] at hact
  split at hact
  · cases hact
  · rename_i prev rest hscope
    obtain ⟨r, sch, hexec, rfl⟩ := tell_ok hact
    obtain ⟨hnil, _⟩ | ⟨hsingle, hon⟩ := h.unnested t ht
    · rw [hnil] at hscope
      cases hscope
    · rw [hsingle] at hscope
      cases hscope
      have hset := done_ok hexec
      simp only [setLockFree, System.view, Function.update_self, ne_eq,
        not_true_eq_false, if_false, Bool.false_eq_true] at hset
      split at hset
      · cases hset
      · obtain ⟨hcount, hsub, hless⟩ := lfResume_subperm hset
        have hlength := @lockFree_length_reset s.alive s.attrs t hp.nodup ht hon
        have hreset : sch.lfThreadCount = s.scheduler.lfThreadCount - 1 := hcount
        have htotal := h.count
        simp only [System.lockFreeThreads] at htotal
        refine ⟨?_, fun u hu => ?_, fun hne => ?_, fun u hu => ?_⟩
        · refine hreset.trans ?_
          rw [htotal, hlength, Nat.add_sub_cancel]
          rfl
        · have hmem : u ∈ s.scheduler.suspendedThreads := hsub.subset hu
          have hut : u ≠ t := by
            intro heq
            have hne := (hp.owned_alive u (List.mem_append_right _ hmem)).2
            exact hne (heq ▸ hrunning)
          simpa [hut] using h.suspended u hmem
        · have hne' : s.scheduler.suspendedThreads ≠ [] := by
            intro hnil
            have hsub : sch.suspendedThreads.Subperm [] := hnil ▸ hsub
            exact hne (List.subperm_nil.mp hsub)
          have hlt : sch.suspendedThreads.length <
              s.scheduler.suspendedThreads.length := hless hne'
          have hspare := h.spare hne'
          show sch.suspendedThreads.length < sch.lfThreadCount
          omega
        · by_cases hut : u = t
          · subst hut
            exact Or.inl (by simp)
          · simpa [System.Scoped, hut] using h.unnested u hu

theorem interrupt_counted {action : ActionType} (h : s.Counted)
    (hact : s.act params t (.interrupt action) = .ok s') : s'.Counted := by
  obtain ⟨r, sch, hexec, rfl⟩ := tell_ok hact
  obtain hmode | ⟨hcount, hsuspended, hlockFree, hless⟩ := interrupt_mode (done_ok hexec)
  · exact h.keep rfl rfl rfl hmode
  · refine ⟨hcount.trans h.count, fun u hu => ?_, fun _ => ?_, h.unnested⟩
    · rw [hsuspended] at hu
      obtain hu | hu := List.mem_append.mp hu
      · exact h.suspended u hu
      · rw [List.mem_singleton.mp hu]
        exact hlockFree
    · rw [hcount, hsuspended, List.length_append, List.length_singleton, Nat.add_comm]
      exact hless

theorem progress_counted (h : s.Counted)
    (hact : s.act params t .progress = .ok s') : s'.Counted := by
  obtain ⟨r, sch, hexec, rfl⟩ := tell_ok hact
  have hprogress := done_ok hexec
  unfold progress lfProgress at hprogress
  dsimp only at hprogress
  split at hprogress
  · split at hprogress
    · obtain ⟨s₁, hresume, rfl⟩ := map_eq_ok hprogress
      obtain ⟨hcount, hsub, _⟩ := lfResume_subperm hresume
      exact h.resume rfl rfl rfl hcount hsub
    · cases hprogress
      exact h.keep rfl rfl rfl ⟨rfl, rfl⟩
  · cases hprogress
    exact h.keep rfl rfl rfl ⟨rfl, rfl⟩

theorem pickNext_counted (h : s.Counted) (hpick : s.pickNext params = .ok s') :
    s'.Counted := by
  unfold System.pickNext at hpick
  cases hexec : (scheduler params).exec (s.view none, .pickNext) s.scheduler with
  | error p =>
      rw [hexec] at hpick
      cases hpick
  | ok result =>
      obtain ⟨r, sch⟩ := result
      rw [hexec] at hpick
      obtain ⟨t, rfl, _⟩ := pickNext_spec hexec
      cases hpick
      exact h.keep rfl rfl rfl (pickNext_mode hexec)

theorem act_counted {e : Event} (hp : s.Placed) (h : s.Counted)
    (hrunning : s.running = some t) (henabled : s.enabled e = true)
    (hnest : ¬ s.nests e = true) (hact : s.act params t e = .ok s') :
    s'.Counted := by
  have ht := hp.running_alive t hrunning
  cases e with
  | setPreemptive on =>
      cases hact
      apply h.sameAttrs
      intro u
      by_cases hut : u = t
      · subst hut
        simp
      · simp [hut]
  | enterScope =>
      have hoff : (s.attrs t).lockFree = false := by
        simpa [System.nests, hrunning] using hnest
      exact enterScope_counted hp h ht hoff hact
  | exitScope => exact exitScope_counted hp h ht hrunning hact
  | progress => exact progress_counted h hact
  | interrupt action => exact interrupt_counted h hact
  | yield =>
      obtain ⟨r, sch, hexec, rfl⟩ := tell_ok hact
      exact h.keep rfl rfl rfl (enqueue_mode (done_ok hexec))
  | block =>
      cases hact
      exact h.keep rfl rfl rfl ⟨rfl, rfl⟩
  | exit =>
      have hscopes : s.scopes t = [] := by
        simpa [System.enabled, hrunning] using henabled
      exact exit_counted h ht hscopes hact
  | spawn child => cases hact
  | advance ticks => cases hact
  | wake u => cases hact
  | pickNext => cases hact

/-- The second step lemma: outside of nested scopes the count stays right. -/
theorem apply_counted {e : Event} (hp : s.Placed) (h : s.Counted)
    (henabled : s.enabled e = true) (hnest : ¬ s.nests e = true)
    (happly : s.apply params e = .ok s') : s'.Counted := by
  have hact : ∀ t, s.running = some t → s.act params t e = .ok s' → s'.Counted :=
    fun t hrunning => act_counted hp h hrunning henabled hnest
  cases hrunning : s.running with
  | none =>
      cases e with
      | spawn child => exact spawn_counted hp h (by simpa [System.enabled] using henabled) happly
      | advance ticks =>
          cases happly
          exact h.keep rfl rfl rfl ⟨rfl, rfl⟩
      | wake t =>
          obtain ⟨r, sch, hexec, rfl⟩ := tell_ok happly
          exact h.keep rfl rfl rfl (enqueue_mode (done_ok hexec))
      | pickNext => exact pickNext_counted h happly
      | _ => simp [System.apply, hrunning] at happly
  | some t =>
      cases e with
      | spawn child => exact spawn_counted hp h (by simpa [System.enabled] using henabled) happly
      | advance ticks =>
          cases happly
          exact h.keep rfl rfl rfl ⟨rfl, rfl⟩
      | wake t =>
          obtain ⟨r, sch, hexec, rfl⟩ := tell_ok happly
          exact h.keep rfl rfl rfl (enqueue_mode (done_ok hexec))
      | pickNext => exact pickNext_counted h happly
      | _ =>
          simp only [System.apply, hrunning] at happly
          exact hact t hrunning happly

/-! ### Runs -/

theorem start_placed (sch : State) (tick : Nat) : (System.start sch tick).Placed where
  nodup := List.nodup_nil
  owned_nodup := List.nodup_nil
  owned_alive t ht := by cases ht
  running_alive t ht := by cases ht
  slot hsome := by cases hsome
  waiting _ := rfl

theorem start_counted (sch : State) (tick : Nat) : (System.start sch tick).Counted where
  count := rfl
  suspended t ht := by cases ht
  spare hne := absurd rfl hne
  unnested t ht := by cases ht

/-- The run lemma. -/
theorem Run.tracked (h : Run params (fun s e => ¬ s.nests e = true) s) :
    s.Placed ∧ s.Counted := by
  induction h with
  | start sch tick => exact ⟨start_placed sch tick, start_counted sch tick⟩
  | step _ henabled hnest happly ih =>
      exact ⟨apply_placed ih.1 henabled happly,
        apply_counted ih.1 ih.2 henabled hnest happly⟩

/-- A shorter list without repetitions leaves something of a longer one. -/
theorem exists_not_mem {small large : List ThreadId} (hlarge : large.Nodup)
    (hlength : small.length < large.length) : ∃ t ∈ large, t ∉ small := by
  by_contra hall
  simp only [not_exists, not_and, not_not] at hall
  have hsub := (List.subperm_of_subset hlarge hall).length_le
  exact absurd hlength (Nat.not_lt.mpr hsub)

/-- What lock-free mode promises of a state. -/
structure System.Promise (s : System) : Prop where
  count : s.scheduler.lfThreadCount = s.lockFreeThreads.length
  spare : s.scheduler.suspendedThreads ≠ [] →
    ∃ t ∈ s.lockFreeThreads, t ∉ s.scheduler.suspendedThreads
  once : ∀ t ∈ s.scheduler.suspendedThreads,
    s.scheduler.suspendedThreads.count t = 1 ∧ t ∉ s.scheduler.runQueue ∧
      s.scheduler.next ≠ some t ∧ ∀ q, t ∉ s.scheduler.waitSets q
  /-- Between two turns, when no lock-free thread is blocked. -/
  runnable : s.running = none → (∀ t ∈ s.lockFreeThreads, t ∈ s.owned) →
    s.scheduler.suspendedThreads ≠ [] → s.isIdle = false

theorem System.Placed.once (h : s.Placed) (ht : t ∈ s.scheduler.suspendedThreads) :
    s.scheduler.suspendedThreads.count t = 1 ∧ t ∉ s.scheduler.runQueue ∧
      s.scheduler.next ≠ some t ∧ ∀ q, t ∉ s.scheduler.waitSets q := by
  obtain ⟨hheld, hsuspended, hdisjoint⟩ := List.nodup_append'.mp h.owned_nodup
  have hnot : t ∉ s.scheduler.next.toList ++ s.scheduler.runQueue :=
    fun hmem => hdisjoint hmem ht
  simp only [List.mem_append, Option.mem_toList, not_or] at hnot
  refine ⟨List.count_eq_one_of_mem hsuspended ht, hnot.2, hnot.1, fun q => ?_⟩
  rw [h.waiting q]
  exact List.not_mem_nil

theorem promise_of_tracked (hp : s.Placed) (hc : s.Counted) : s.Promise := by
  have hspare : s.scheduler.suspendedThreads ≠ [] →
      ∃ t ∈ s.lockFreeThreads, t ∉ s.scheduler.suspendedThreads := by
    intro hne
    have hless := hc.spare hne
    rw [hc.count] at hless
    exact exists_not_mem (hp.nodup.filter _) hless
  refine ⟨hc.count, hspare, fun t ht => hp.once ht, fun _ hheld hne => ?_⟩
  obtain ⟨t, ht, hnot⟩ := hspare hne
  have howned := hheld t ht
  rw [System.owned, List.mem_append] at howned
  obtain hmem | hmem := howned
  · obtain hnext | hqueue := List.mem_append.mp hmem
    · rw [Option.mem_toList] at hnext
      simp [System.isIdle, hnext]
    · have hempty : s.scheduler.runQueue.isEmpty = false := by
        rw [List.isEmpty_eq_false_iff]
        exact List.ne_nil_of_mem hqueue
      simp [System.isIdle, hempty]
  · exact absurd hmem hnot

/-- While no scope is entered inside of another, lock-free mode keeps its
promise in every state of every run. -/
theorem lockFree_promise (params : Params) {s : System}
    (hrun : Run params (fun s e => ¬ s.nests e = true) s) : s.Promise :=
  promise_of_tracked hrun.tracked.1 hrun.tracked.2

/-- Run a list of events, each of which has to be enabled and allowed. -/
def execute (params : Params) (allow : System → Event → Bool) :
    List Event → System → Option System
  | [], s => some s
  | e :: rest, s =>
      if s.enabled e && allow s e then
        match s.apply params e with
        | .ok s => execute params allow rest s
        | .error _ => none
      else none

theorem execute_run {P : System → Event → Prop} {allow : System → Event → Bool}
    (hallow : ∀ s e, allow s e = true → P s e) {events : List Event}
    (h : Run params P s) (hexec : execute params allow events s = some s') :
    Run params P s' := by
  induction events generalizing s with
  | nil =>
      cases hexec
      exact h
  | cons e rest ih =>
      simp only [execute] at hexec
      split at hexec
      · rename_i hnext
        rw [Bool.and_eq_true] at hnext
        split at hexec
        · rename_i s₁ happly
          exact ih (h.step hnext.1 (hallow s e hnext.2) happly) hexec
        · cases hexec
      · cases hexec

/-- What a run shows of lock-free mode. -/
def System.summary (s : System) : List ThreadId × List ThreadId × Nat × Bool :=
  (s.scheduler.suspendedThreads, s.lockFreeThreads, s.scheduler.lfThreadCount,
    s.isIdle)

theorem execute_summary {params : Params} {allow : System → Event → Bool}
    {events : List Event} {s : System}
    {r : List ThreadId × List ThreadId × Nat × Bool}
    (h : (execute params allow events s).map System.summary = some r) :
    ∃ s', execute params allow events s = some s' ∧ s'.summary = r :=
  Option.map_eq_some_iff.mp h

/-- Two threads in a scope each: one of them is suspended, the other is left. -/
theorem twoScopes_promise :
    ∃ s, Run { seed := 29 } (fun s e => ¬ s.nests e = true) s ∧
      s.summary = ([2], [2, 1], 2, false) ∧ s.Promise := by
  have hexec : (execute { seed := 29 } (fun s e => !s.nests e)
      [.spawn 1, .spawn 2, .pickNext, .enterScope, .yield, .pickNext, .enterScope,
        .interrupt .atomicStore]
      (System.start (State.new { seed := 29 }) 0)).map System.summary =
      some ([2], [2, 1], 2, false) := by decide +kernel
  obtain ⟨s, hs, hsummary⟩ := execute_summary hexec
  have hallow : ∀ (s : System) (e : Event), (!s.nests e) = true →
      ¬ s.nests e = true := by
    intro s e h
    simpa using h
  have hrun := execute_run hallow (Run.start (State.new { seed := 29 }) 0) hs
  exact ⟨s, hrun, hsummary, lockFree_promise _ hrun⟩

/-- One thread in a scope inside of another is counted twice: it is suspended,
though no other thread is left, and the scheduler is idle. -/
theorem lockFree_promise_broken :
    ∃ s, Run { seed := 42 } (fun _ _ => True) s ∧
      s.summary = ([1], [1], 2, true) ∧ ¬ s.Promise := by
  have hexec : (execute { seed := 42 } (fun _ _ => true)
      [.spawn 1, .pickNext, .enterScope, .enterScope, .interrupt .atomicStore]
      (System.start (State.new { seed := 42 }) 0)).map System.summary =
      some ([1], [1], 2, true) := by decide +kernel
  obtain ⟨s, hs, hsummary⟩ := execute_summary hexec
  have hrun := execute_run (fun _ _ _ => trivial)
    (Run.start (State.new { seed := 42 }) 0) hs
  refine ⟨s, hrun, hsummary, fun hpromise => ?_⟩
  have hcount := hpromise.count
  simp only [System.summary, Prod.mk.injEq] at hsummary
  rw [hsummary.2.1, hsummary.2.2.1] at hcount
  cases hcount

end Random

end TwistSim

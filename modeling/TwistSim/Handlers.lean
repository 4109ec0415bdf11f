/-
What the handlers of system calls do to the places of threads: most only look at the
caller, and the others move the caller or wake somebody.
-/
import TwistSim.Waking
import TwistSim.Knowledge
import TwistSim.Runs

namespace TwistSim

open Effect
open Sim (Linked Placed Untouched Place Runs Detached Moves)

/-! ### The memory model -/

namespace Memory

variable {m m' : Memory} {t : ThreadId} {action : Action} {e : Stop}

/-- How an operation of the memory model may fail. -/
def Benign : Stop → Prop
  | .abort status _ => status = .invalidMemoryAccess
  | .panic p => p ∉ Kernel.impossible

theorem benign_panic {p : Panic} (h : p ∉ Kernel.impossible) : Benign (.panic p) := h

theorem benign_map {α β : Type} {x : Except Stop α} {f : α → β}
    (h : x.map f = .error e) (hx : ∀ e, x = .error e → Benign e) : Benign e := by
  cases x with
  | ok a => cases h
  | error e =>
      cases h
      exact hx e rfl

theorem benign_tick (h : m.tick t = .error e) : Benign e := by
  unfold tick at h
  split at h
  · rename_i p hp
    cases h
    unfold VectorClock.tick at hp
    split at hp
    · cases hp
    · cases hp
      exact benign_panic (by decide)
  · cases h

theorem benign_invalidAccess {α : Type} {err : String}
    (h : (invalidAccess err : Except Stop α) = .error e) : Benign e := by
  cases h
  rfl

theorem benign_getShadowAtomicVar (h : m.getShadowAtomicVar action = .error e) :
    Benign e := by
  unfold getShadowAtomicVar at h
  split at h
  · exact benign_invalidAccess h
  · split at h
    · exact benign_invalidAccess h
    · cases h

theorem benign_loadThenFence (h : m.loadThenFence t action = .error e) : Benign e := by
  unfold loadThenFence at h
  split at h
  · rename_i hshadow
    cases h
    exact benign_getShadowAtomicVar hshadow
  · cases h

theorem benign_fenceThenWrite {write : Memory → AtomicVar → Memory}
    (h : m.fenceThenWrite t action write = .error e) : Benign e :=
  benign_map h fun _ => benign_getShadowAtomicVar

theorem benign_syncAction (h : m.syncAction t action = .error e) : Benign e := by
  unfold syncAction at h
  split at h
  · cases h
  · exact benign_map h fun _ h => benign_map h fun _ => benign_getShadowAtomicVar
  · unfold atomicLoad at h
    split at h
    · exact benign_loadThenFence h
    · cases h
      exact benign_panic (by decide)
  · exact benign_map h fun _ => benign_getShadowAtomicVar
  · refine benign_map h fun e h => ?_
    unfold atomicStore at h
    split at h
    · exact benign_fenceThenWrite h
    · cases h
      exact benign_panic (by decide)
  · exact benign_loadThenFence h
  · exact benign_map h fun _ => benign_fenceThenWrite
  · refine benign_map h fun e h => ?_
    unfold atomicThreadFence at h
    split at h
    · cases h
    · cases h
    · cases h
    · cases h
      exact benign_panic (by decide)

theorem benign_syncCall (h : m.syncCall t action = .error e) : Benign e := by
  unfold syncCall at h
  split at h
  · rename_i htick
    cases h
    exact benign_tick htick
  · exact benign_syncAction h

theorem syncCall_threadCount {value : Nat} (h : m.syncCall t action = .ok (value, m')) :
    m'.threadCount = m.threadCount := by
  unfold syncCall at h
  split at h
  · cases h
  · rename_i htick
    obtain ⟨-, rfl⟩ := tick_ok htick
    have hcount := syncAction_threadCount h
    exact hcount

theorem benign_accessNonAtomicVar {access : Access}
    (h : m.accessNonAtomicVar t access = .error e) : Benign e := by
  unfold accessNonAtomicVar at h
  split at h
  · rename_i htick
    cases h
    exact benign_tick htick
  · split at h
    · unfold initNonAtomicVar at h
      dsimp only at h
      split at h
      · cases h
      · split at h
        · exact benign_invalidAccess h
        · split at h <;> cases h
    · unfold accessLiveNonAtomicVar at h
      split at h
      · exact benign_invalidAccess h
      · split at h <;> cases h

theorem accessNonAtomicVar_threadCount {access : Access} {race : Option OldAccess}
    (h : m.accessNonAtomicVar t access = .ok (race, m')) :
    m'.threadCount = m.threadCount := by
  unfold accessNonAtomicVar at h
  split at h
  · cases h
  · rename_i htick
    obtain ⟨-, rfl⟩ := tick_ok htick
    split at h
    · unfold initNonAtomicVar at h
      dsimp only at h
      split at h
      · cases h
        rfl
      · split at h
        · cases h
        · split at h <;> cases h <;> rfl
    · unfold accessLiveNonAtomicVar at h
      split at h
      · cases h
      · split at h <;> cases h <;> rfl

theorem benign_futexAtomic {loc : Addr} (h : m.futexAtomic loc = .error e) : Benign e := by
  unfold futexAtomic at h
  dsimp only at h
  split at h
  · exact benign_invalidAccess h
  · split at h
    · exact benign_invalidAccess h
    · cases h

end Memory

/-! ### Nobody moves -/

/-- The fields that say where a thread is. -/
structure Thread.SameRole (thread other : Thread) : Prop where
  state : thread.state = other.state
  futex : thread.futex = other.futex
  timer : thread.timer = other.timer

theorem Thread.SameRole.refl (thread : Thread) : thread.SameRole thread := ⟨rfl, rfl, rfl⟩

theorem Thread.SameRole.trans {x y z : Thread} (h : x.SameRole y) (h' : y.SameRole z) :
    x.SameRole z :=
  ⟨h.state.trans h'.state, h.futex.trans h'.futex, h.timer.trans h'.timer⟩

namespace Sim

/-- No thread has moved. -/
structure SamePlaces (sim : Sim) (a : Holdings) (sim' : Sim) (a' : Holdings) : Prop where
  role : ∀ u, (sim'.threads u).SameRole (sim.threads u)
  alive : sim'.alive = sim.alive
  futex : sim'.futex = sim.futex
  timerQueue : sim'.timerQueue = sim.timerQueue
  count : sim'.memory.threadCount = sim.memory.threadCount
  keeps : a.Keeps a'

/-- No thread has moved, and only the record of `t` may have changed. -/
structure Unmoved (sim : Sim) (a : Holdings) (sim' : Sim) (a' : Holdings) (t : ThreadId) :
    Prop extends sim.SamePlaces a sim' a' where
  others : ∀ u, u ≠ t → sim'.threads u = sim.threads u
  ticks : sim'.ticks = sim.ticks
  params : sim'.params = sim.params

variable {sim sim' sim'' : Sim} {a a' a'' : Holdings} {t u : ThreadId}
  {running inHand : Option ThreadId}

theorem samePlaces_of_fields (hthreads : sim'.threads = sim.threads)
    (halive : sim'.alive = sim.alive) (hfutex : sim'.futex = sim.futex)
    (htimers : sim'.timerQueue = sim.timerQueue)
    (hcount : sim'.memory.threadCount = sim.memory.threadCount) (hkeeps : a.Keeps a') :
    sim.SamePlaces a sim' a' :=
  ⟨fun u => congrFun hthreads u ▸ Thread.SameRole.refl _, halive, hfutex, htimers, hcount,
    hkeeps⟩

theorem unmoved_of_fields (hthreads : sim'.threads = sim.threads)
    (halive : sim'.alive = sim.alive) (hfutex : sim'.futex = sim.futex)
    (htimers : sim'.timerQueue = sim.timerQueue)
    (hcount : sim'.memory.threadCount = sim.memory.threadCount)
    (hticks : sim'.ticks = sim.ticks) (hparams : sim'.params = sim.params) :
    sim.Unmoved a sim' a t :=
  ⟨samePlaces_of_fields hthreads halive hfutex htimers hcount (Holdings.Keeps.refl a),
    fun u _ => congrFun hthreads u, hticks, hparams⟩

theorem Unmoved.refl (sim : Sim) (a : Holdings) (t : ThreadId) : sim.Unmoved a sim a t :=
  unmoved_of_fields rfl rfl rfl rfl rfl rfl rfl

theorem SamePlaces.trans (h : sim.SamePlaces a sim' a')
    (h' : sim'.SamePlaces a' sim'' a'') : sim.SamePlaces a sim'' a'' where
  role u := (h'.role u).trans (h.role u)
  alive := h'.alive.trans h.alive
  futex := h'.futex.trans h.futex
  timerQueue := h'.timerQueue.trans h.timerQueue
  count := h'.count.trans h.count
  keeps := ⟨h'.keeps.owned.trans h.keeps.owned,
    ⟨h'.keeps.same.1.trans h.keeps.same.1, h'.keeps.same.2.trans h.keeps.same.2⟩,
    h'.keeps.slot.trans h.keeps.slot⟩

theorem Unmoved.trans (h : sim.Unmoved a sim' a' t) (h' : sim'.Unmoved a' sim'' a'' t) :
    sim.Unmoved a sim'' a'' t where
  toSamePlaces := h.toSamePlaces.trans h'.toSamePlaces
  others u hu := (h'.others u hu).trans (h.others u hu)
  ticks := h'.ticks.trans h.ticks
  params := h'.params.trans h.params

/-- The record of a thread changes, but not its role. -/
theorem unmoved_setThread {thread : Thread} (h : thread.SameRole (sim.threads t)) :
    sim.Unmoved a (sim.setThread t thread) a t where
  others _ hu := Function.update_of_ne hu _ _
  role := update_cases (P := fun u (thread : Thread) => thread.SameRole (sim.threads u)) h
    fun _ _ => Thread.SameRole.refl _
  alive := rfl
  futex := rfl
  timerQueue := rfl
  count := rfl
  ticks := rfl
  params := rfl
  keeps := Holdings.Keeps.refl a

theorem SamePlaces.waiters (h : sim.SamePlaces a sim' a') :
    sim'.waiters a' = sim.waiters a := by
  funext key
  simp only [Sim.waiters, contents, h.futex, h.keeps.same.1]

theorem Unmoved.untouched (h : sim.Unmoved a sim' a' t) (hu : u ≠ t) :
    sim.Untouched a sim' a' u where
  alive := by rw [h.alive]
  thread := h.others u hu
  owned := by rw [h.keeps.owned]
  waiting key := by rw [h.waiters]
  armed := by rw [Sim.Armed, Sim.Armed, h.timerQueue]
  timer := by rw [h.timerQueue]

theorem Unmoved.moves (h : sim.Unmoved a sim' a' t) : sim.Moves a sim' a' t :=
  ⟨fun _ hu => h.untouched hu, h.alive, h.count, h.ticks, h.params⟩

theorem Linked.samePlaces (h : sim.Linked inHand a) (hsame : sim.SamePlaces a sim' a') :
    sim'.Linked inHand a' where
  filed := by
    rw [hsame.waiters, hsame.futex]
    exact h.filed.shrink hsame.keeps.same hsame.keeps.owned.le
  indexed := hsame.timerQueue ▸ h.indexed
  nodup := hsame.alive ▸ h.nodup
  known u hu := by
    rw [hsame.count]
    exact h.known u (hsame.alive ▸ hu)
  count := hsame.count ▸ h.count
  born u hu := by
    rw [hsame.count]
    exact h.born u (hsame.keeps.owned ▸ hu)
  futex u hu hne key := by
    rw [hsame.waiters, (hsame.role u).futex]
    exact h.futex u (hsame.alive ▸ hu) hne key
  timer u hu hne := by
    rw [Sim.Armed, hsame.timerQueue, (hsame.role u).timer]
    exact h.timer u (hsame.alive ▸ hu) hne
  gone u hu := by
    rw [Sim.Armed, hsame.waiters, hsame.timerQueue]
    exact h.gone u (hsame.alive ▸ hu)

theorem Place.samePlaces (h : sim.Place a u) (hsame : sim.SamePlaces a sim' a') :
    sim'.Place a' u := by
  have hrole := hsame.role u
  cases h with
  | held howned hstate hfutex htimer =>
      refine Place.held (hsame.keeps.owned.symm ▸ howned) ?_ (hrole.futex.trans hfutex)
        (hrole.timer.trans htimer)
      rw [hrole.state]
      exact hstate
  | parked howned hstate hfutex halarm =>
      refine Place.parked (hsame.keeps.owned.symm ▸ howned) (hrole.state.trans hstate)
        (hrole.futex.trans hfutex) ?_
      rw [Sim.Armed, hsame.timerQueue]
      exact halarm
  | sleeping howned hstate hfutex htimer halarm =>
      refine Place.sleeping (hsame.keeps.owned.symm ▸ howned) (hrole.state.trans hstate)
        (hrole.futex.trans hfutex) (hrole.timer.trans htimer) ?_
      rw [hsame.timerQueue]
      exact halarm

theorem Placed.samePlaces (h : sim.Placed running inHand a)
    (hsame : sim.SamePlaces a sim' a') : sim'.Placed running inHand a' where
  toLinked := h.toLinked.samePlaces hsame
  place u hu hne hnot := (h.place u (hsame.alive ▸ hu) hne hnot).samePlaces hsame
  runs u hu := by
    have hruns := h.runs u hu
    have hrole := hsame.role u
    exact ⟨hsame.alive.symm ▸ hruns.alive, hsame.keeps.owned.symm ▸ hruns.owned,
      hrole.state.trans hruns.state, hrole.futex.trans hruns.futex,
      hrole.timer.trans hruns.timer, hsame.keeps.slot.trans hruns.slot⟩

/-! ### What the others see of a call -/

/-- Another thread is where it was, and has the status it had. -/
structure Stays (sim : Sim) (a : Holdings) (sim' : Sim) (a' : Holdings) (u : ThreadId) :
    Prop where
  role : (sim'.threads u).SameRole (sim.threads u)
  status : (sim'.threads u).status = (sim.threads u).status
  owned : u ∈ a'.owned ↔ u ∈ a.owned
  waiting : ∀ key, u ∈ sim'.waiters a' key ↔ u ∈ sim.waiters a key
  armed : sim'.Armed u ↔ sim.Armed u
  timer : { sim'.timerQueue.heap.timers u with loc := 0 } =
    { sim.timerQueue.heap.timers u with loc := 0 }

/-- The thread is runnable, and will find the status when it runs. -/
structure Roused (sim : Sim) (a : Holdings) (u : ThreadId) (status : CallStatus) :
    Prop where
  state : (sim.threads u).state = .runnable
  futex : (sim.threads u).futex = none
  timer : (sim.threads u).timer = false
  status : (sim.threads u).status = status
  owned : u ∈ a.owned

/-- The caller has woken some threads; the others that are still alive are where they
were, and a new one has not waited for anything. -/
structure Wakes (sim : Sim) (a : Holdings) (sim' : Sim) (a' : Holdings) (me : ThreadId)
    (woken : Multiset ThreadId) : Prop where
  born : ∀ u ∈ sim'.alive, u ∉ sim.alive → (sim'.threads u).state.Ready
  others : ∀ u ∈ sim'.alive, u ∈ sim.alive → u ≠ me → u ∉ woken → sim.Stays a sim' a' u
  woken : ∀ u ∈ woken, sim'.Roused a' u .ok
  ticks : sim'.ticks = sim.ticks
  params : sim'.params = sim.params

variable {me : ThreadId} {woken : Multiset ThreadId}

theorem Untouched.stays (h : sim.Untouched a sim' a' u) : sim.Stays a sim' a' u :=
  ⟨h.thread ▸ Thread.SameRole.refl _, by rw [h.thread], h.owned, h.waiting, h.armed, h.timer⟩

theorem Stays.trans (h : sim.Stays a sim' a' u) (h' : sim'.Stays a' sim'' a'' u) :
    sim.Stays a sim'' a'' u where
  role := h'.role.trans h.role
  status := h'.status.trans h.status
  owned := h'.owned.trans h.owned
  waiting key := (h'.waiting key).trans (h.waiting key)
  armed := h'.armed.trans h.armed
  timer := h'.timer.trans h.timer

theorem Roused.stays {status : CallStatus} (h : sim.Roused a u status)
    (h' : sim.Stays a sim' a' u) : sim'.Roused a' u status where
  state := h'.role.state.trans h.state
  futex := h'.role.futex.trans h.futex
  timer := h'.role.timer.trans h.timer
  status := h'.status.trans h.status
  owned := h'.owned.mpr h.owned

theorem Awakened.roused {status : CallStatus} (h : sim.Awakened a sim' a' t status) :
    sim'.Roused a' t status := by
  refine ⟨?_, ?_, ?_, ?_, h.owned⟩
  · rw [h.thread]
  · rw [h.thread]
  · rw [h.thread]
  · rw [h.thread]

theorem wakes_of_moves (h : sim.Moves a sim' a' me) : sim.Wakes a sim' a' me 0 where
  born _ hu hnot := absurd (h.alive ▸ hu) hnot
  others u _ _ hne _ := (h.others u hne).stays
  woken u hu := absurd hu (Multiset.notMem_zero u)
  ticks := h.ticks
  params := h.params

/-- Then the caller is resumed. -/
theorem Wakes.resumed (h : sim.Wakes a sim' a' me woken) (hme : me ∉ woken)
    (hsame : sim'.Unmoved a' sim'' a'' me) : sim.Wakes a sim'' a'' me woken where
  born u hu hnot := by
    rw [(hsame.role u).state]
    exact h.born u (hsame.alive ▸ hu) hnot
  others u hu halive hne hnot := by
    have hu' : u ∈ sim'.alive := hsame.alive ▸ hu
    exact (h.others u hu' halive hne hnot).trans (hsame.untouched hne).stays
  woken u hu := by
    have hne : u ≠ me := fun heq => hme (heq ▸ hu)
    exact (h.woken u hu).stays (hsame.untouched hne).stays
  ticks := hsame.ticks.trans h.ticks
  params := hsame.params.trans h.params

end Sim

namespace Kernel

variable {α : Type} {links : Links} {stuck : Prop} {sim : Sim} {a : Holdings}
  {t me : ThreadId} {running : Option ThreadId}

/-! ### Ways to fail -/

theorem ensures_panic {p : Panic} {post : α → Sim → Holdings → Prop}
    (h : p ∉ impossible) : Ensures links stuck (panic p) post sim a :=
  fun hp => absurd hp h

theorem ensures_verify {cond : Bool} {error : String} {post : Unit → Sim → Holdings → Prop}
    (h : cond = true → post () sim a) (herror : .verify error ∉ impossible) :
    Ensures links stuck (verify cond error) post sim a := by
  cases cond with
  | true => exact h rfl
  | false => exact ensures_panic herror

theorem ensures_sysAbort {status : Status} {post : α → Sim → Holdings → Prop}
    (h : sim.Linked none a) (hstatus : status = .deadlock → stuck) :
    Ensures links stuck (sysAbort status) post sim a := by
  unfold sysAbort
  refine ensures_get ?_
  split
  · have hsame : sim.SamePlaces a { sim with status := some status } a :=
      Sim.samePlaces_of_fields rfl rfl rfl rfl rfl (Holdings.Keeps.refl a)
    exact ⟨h.samePlaces hsame, fun heq => hstatus (Option.some.inj heq)⟩
  · exact ensures_panic (by simp [impossible])

theorem unmoved_stderr {text : String} :
    sim.Unmoved a { sim with stderr := sim.stderr ++ text } a t :=
  Sim.unmoved_of_fields rfl rfl rfl rfl rfl rfl rfl

theorem ensures_abortIter {status : Status} {err : String}
    {post : α → Sim → Holdings → Prop} (h : sim.Linked none a)
    (hstatus : status = .deadlock → stuck) :
    Ensures links stuck (abortIter status err) post sim a := by
  unfold abortIter
  refine Ensures.bind (P := fun _ sim' a' => sim'.Linked none a') ?_ fun _ _ _ h =>
    ensures_sysAbort h hstatus
  exact h.samePlaces (@unmoved_stderr sim a 0 (err ++ "\n")).toSamePlaces

theorem ensures_onMemory {op : Memory → Except Stop (α × Memory)}
    {post : α → Sim → Holdings → Prop} (h : sim.Linked none a)
    (hbenign : ∀ e, op sim.memory = .error e → Memory.Benign e)
    (hpost : ∀ value memory, op sim.memory = .ok (value, memory) →
      post value { sim with memory } a) :
    Ensures links stuck (onMemory op) post sim a := by
  unfold onMemory
  refine ensures_get ?_
  split
  · rename_i value memory hop
    exact hpost value memory hop
  · rename_i status err hop
    refine ensures_abortIter h fun heq => ?_
    have hstatus := hbenign _ hop
    rw [Memory.Benign, heq] at hstatus
    cases hstatus
  · rename_i p hop
    exact ensures_panic (hbenign _ hop)

theorem unmoved_memory {memory : Memory} (h : memory.threadCount = sim.memory.threadCount) :
    sim.Unmoved a { sim with memory } a t :=
  Sim.unmoved_of_fields rfl rfl rfl rfl h rfl rfl

/-! ### The caller is resumed -/

theorem ensures_resume (v : Int) :
    Ensures links stuck (resume me v)
      (fun r sim' a' => r = some (.value v) ∧ sim.Unmoved a sim' a' me) sim a :=
  ⟨rfl, Sim.unmoved_setThread ⟨rfl, rfl, rfl⟩⟩

/-- The caller goes on; nobody else notices. -/
structure Answered (sim : Sim) (a : Holdings) (me : ThreadId) (r : Option Answer)
    (sim' : Sim) (a' : Holdings) : Prop where
  placed : sim'.Placed (r.map fun _ => me) none a'
  returns : r ≠ none
  wakes : sim.Wakes a sim' a' me 0

theorem answered_of_unmoved {sim' : Sim} {a' : Holdings} (h : sim.Placed (some me) none a)
    (hsame : sim.Unmoved a sim' a' me) (v : Int) :
    Answered sim a me (some (.value v)) sim' a' :=
  ⟨h.samePlaces hsame.toSamePlaces, nofun, Sim.wakes_of_moves hsame.moves⟩

/-- A call that moves nobody. -/
theorem ensures_answered {m : KernelM α} (h : sim.Placed (some me) none a)
    (hm : Ensures links stuck m (fun _ sim' a' => sim.Unmoved a sim' a' me) sim a)
    (v : α → Int) :
    Ensures links stuck (m >>= fun x => resume me (v x)) (Answered sim a me) sim a := by
  refine hm.bind fun x sim₁ a₁ hsame => ?_
  refine (ensures_resume (v x)).mono ?_
  rintro _ sim₂ a₂ ⟨rfl, hsame'⟩
  exact answered_of_unmoved h (hsame.trans hsame') (v x)

/-- A question that does not change what the scheduler holds. -/
theorem ensures_ask {q : Query} (h : sim.Placed running none a)
    (hpre : a.pre (sim.view, q)) (hqueue : q.onQueue = false)
    (hallowed : a.allowed true (sim.view, q))
    (hkeeps : ∀ r a', a.post (sim.view, q) r a' → a.Keeps a') :
    Ensures links stuck (query q) (fun _ sim' a' => sim.Unmoved a sim' a' t) sim a := by
  refine ensures_query h.filed.sound hpre hqueue hallowed fun r a' hgrants => ?_
  exact { Sim.Unmoved.refl sim a t with keeps := hkeeps r a' hgrants.post }

theorem keeps_of_eq {a' : Holdings} (h : a' = a) : a.Keeps a' :=
  h ▸ Holdings.Keeps.refl a

theorem ensures_sysAccessNonAtomicVar {access : Access} (h : sim.Placed (some me) none a) :
    Ensures links stuck (sysAccessNonAtomicVar me access)
      (fun _ sim' a' => sim.Unmoved a sim' a' me) sim a := by
  unfold sysAccessNonAtomicVar
  refine (ensures_onMemory h.toLinked (fun _ => Memory.benign_accessNonAtomicVar)
    fun race memory hop => ?_ :
    Ensures links stuck _ (fun _ sim' a' => sim.Unmoved a sim' a' me) sim a).bind ?_
  · exact unmoved_memory (Memory.accessNonAtomicVar_threadCount hop)
  · intro race sim₁ a₁ hsame
    cases race with
    | none => exact hsame
    | some race =>
        have hreported := hsame.trans (@unmoved_stderr sim₁ a₁ me (raceReport me access race))
        have hlinked := h.toLinked.samePlaces hreported.toSamePlaces
        exact Ensures.bind (P := fun _ sim' a' => sim'.Linked none a') hlinked
          fun _ _ _ hlinked => ensures_sysAbort hlinked nofun

theorem ensures_sysMalloc {addr : Addr} {size : Nat} {scope : Option SourceLocation} :
    Ensures links stuck (sysMalloc me addr size scope)
      (fun _ sim' a' => sim.Unmoved a sim' a' me) sim a := by
  simp only [Ensures, sysMalloc, wp_modify]
  split
  · exact Sim.unmoved_of_fields rfl rfl rfl rfl rfl rfl rfl
  · exact Sim.Unmoved.refl sim a me

theorem ensures_sysFree {addr : Addr} :
    Ensures links stuck (sysFree me addr)
      (fun _ sim' a' => sim.Unmoved a sim' a' me) sim a := by
  simp only [Ensures, sysFree, wp_modify]
  split
  · exact Sim.unmoved_of_fields rfl rfl rfl rfl rfl rfl rfl
  · exact Sim.Unmoved.refl sim a me

theorem ensures_sysWrite {fd : Int} {buf : String} :
    Ensures links stuck (sysWrite fd buf)
      (fun _ sim' a' => sim.Unmoved a sim' a' me) sim a := by
  unfold sysWrite
  split
  · exact Sim.unmoved_of_fields rfl rfl rfl rfl rfl rfl rfl
  · split
    · exact unmoved_stderr
    · exact ensures_panic (by simp [impossible])

/-! ### The caller leaves -/

/-- The caller is with the scheduler; nobody else notices. -/
structure Handed (sim : Sim) (a : Holdings) (me : ThreadId) (r : Option Answer)
    (sim' : Sim) (a' : Holdings) : Prop where
  placed : sim'.Placed (r.map fun _ => me) none a'
  leaves : r = none
  owned : me ∈ a'.owned
  wakes : sim.Wakes a sim' a' me 0

theorem free_of_runs (h : sim.Placed (some me) none a) : (sim.threads me).Free := by
  have hruns := h.runs me rfl
  exact ⟨Or.inr (Or.inr hruns.state), hruns.futex, hruns.timer⟩

/-- A caller that asks to be taken, after it has changed its record. -/
theorem ensures_leave {sim₀ : Sim} {q : Query} (h : sim.Placed (some me) none a)
    (hsame : sim₀.Unmoved a sim a me) (hqueue : q.onQueue = false)
    (hpre : a.Lacks me → a.slot = false → a.pre (sim.view, q))
    (hallowed : a.allowed true (sim.view, q))
    (htakes : ∀ r a', a.post (sim.view, q) r a' → a.Takes a' me) :
    Ensures links stuck (query q >>= fun _ => suspend) (Handed sim₀ a me) sim a := by
  obtain ⟨hplaced, hdetached⟩ := h.stop
  refine Ensures.bind (P := fun _ sim' a' => sim'.Placed none none a' ∧
    sim₀.Moves a sim' a' me ∧ me ∈ a'.owned) ?_ ?_
  · refine ensures_hand hplaced hdetached nofun (free_of_runs h) hqueue
      (fun hlacks => hpre hlacks (h.runs me rfl).slot) hallowed
      (fun r a' hpost => ⟨htakes r a' hpost, fun hne => absurd rfl hne⟩) ?_
    exact fun _ _ hplaced' hmoves howned => ⟨hplaced', hsame.moves.trans hmoves, howned⟩
  · rintro _ sim' a' ⟨hplaced', hmoves, howned⟩
    exact ⟨hplaced', rfl, howned, Sim.wakes_of_moves hmoves⟩

theorem ensures_sysSwitchTo {target : ThreadId} (h : sim.Placed (some me) none a) :
    Ensures links stuck (sysSwitchTo me target >>= fun _ => suspend) (Handed sim a me)
      sim a := by
  unfold sysSwitchTo
  refine Ensures.bind (P := fun _ sim' a' => sim'.Placed none none a' ∧
    sim.Moves a sim' a' me ∧ me ∈ a'.owned) (ensures_get ?_) ?_
  · refine (ensures_verify (fun _ => ⟨rfl, rfl⟩) (by decide) :
      Ensures links stuck _ (fun _ sim' a' => sim' = sim ∧ a' = a) sim a).bind ?_
    rintro _ _ a ⟨rfl, rfl⟩
    obtain ⟨hplaced, hdetached⟩ := h.stop
    refine ensures_hand hplaced hdetached nofun (free_of_runs h) rfl id trivial
      (fun _ _ hpost => ⟨hpost.1, fun hne => absurd rfl hne⟩) ?_
    exact fun _ _ hplaced' hmoves howned => ⟨hplaced', hmoves, howned⟩
  · rintro _ sim' a' ⟨hplaced', hmoves, howned⟩
    exact ⟨hplaced', rfl, howned, Sim.wakes_of_moves hmoves⟩

theorem ensures_sysSync {action : Action} (h : sim.Placed (some me) none a) :
    Ensures links stuck (sysSync me action >>= fun _ => suspend) (Handed sim a me)
      sim a := by
  have hsame : sim.Unmoved a (sim.setThread me { sim.threads me with action := some action })
      a me := Sim.unmoved_setThread ⟨rfl, rfl, rfl⟩
  exact ensures_leave (h.samePlaces hsame.toSamePlaces) hsame rfl (fun hlacks hslot => ⟨hlacks, hslot⟩)
    trivial fun _ _ hpost => hpost

/-! ### Sleeping -/

/-- The caller sleeps until the deadline. -/
structure Sleeps (sim : Sim) (a : Holdings) (me : ThreadId) (deadline : Int)
    (r : Option Answer) (sim' : Sim) (a' : Holdings) : Prop where
  placed : sim'.Placed (r.map fun _ => me) none a'
  leaves : r = none
  state : (sim'.threads me).state = .sleeping
  armed : sim'.Armed me
  when : (sim'.timerQueue.heap.timers me).when = deadline
  wakes : sim.Wakes a sim' a' me 0

theorem ensures_sysSleep {deadline : Int} (h : sim.Placed (some me) none a) :
    Ensures links stuck (sysSleep me deadline >>= fun _ => suspend)
      (Sleeps sim a me deadline) sim a := by
  obtain ⟨hplaced, hdetached⟩ := h.stop
  unfold sysSleep
  refine Ensures.bind (P := fun _ sim' a' => sim'.Placed none none a' ∧
    sim.Moves a sim' a' me ∧ (sim'.threads me).state = .sleeping ∧ sim'.Armed me ∧
    (sim'.timerQueue.heap.timers me).when = deadline) ?_ ?_
  · refine (ensures_addTimer h.indexed hdetached.armed).bind ?_
    rintro _ sim₁ a ⟨rfl, hchange, hwhen, halarm⟩
    have hmoves : sim.Moves a sim₁ a me := Sim.moves_of_timerChange hchange
    have hfiled : Filed sim₁.futex a (sim₁.waiters a) := by
      rw [hchange.waiters, hchange.eq Sim.futex]
      exact h.filed
    have hplaced₁ := hplaced.moves (Or.inr rfl) hdetached.alive nofun hmoves hfiled
      hchange.indexed (fun _ hu => Or.inr hu) rfl
    have halive : me ∈ sim₁.alive := hmoves.alive ▸ hdetached.alive
    let thread : Thread :=
      { sim₁.threads me with state := .sleeping, futex := none, timer := true, waiter := none }
    have hself := Sim.setThread_self sim₁ me thread
    have hmoves' := Sim.moves_setThread sim₁ a me thread
    have hplaced₂ : (sim₁.setThread me thread).Placed none (some me) a :=
      hplaced₁.moves (Or.inr rfl) halive nofun hmoves' hfiled hchange.indexed
        (fun _ hu => Or.inr hu) rfl
    have harmed : sim₁.Armed me := hchange.self.mpr trivial
    refine ⟨hplaced₂.settle halive ?_ (fun key => ?_) ?_, hmoves.trans hmoves', ?_, harmed,
      hwhen⟩
    · refine Place.sleeping hdetached.owned ?_ ?_ ?_ halarm
      · rw [hself]
      · rw [hself]
      · rw [hself]
    · rw [hself]
      refine iff_of_false (fun hmem => hdetached.waiting key ?_) nofun
      rw [← @TimerChange.waiters _ _ _ _ _ hchange]
      exact hmem
    · rw [hself]
      exact iff_of_true harmed rfl
    · exact congrArg Thread.state hself
  · rintro _ sim' a' ⟨hplaced', hmoves, hstate, harmed, hwhen⟩
    exact ⟨hplaced', rfl, hstate, harmed, hwhen, Sim.wakes_of_moves hmoves⟩

/-! ### Waiting on a futex -/

/-- `GetFutexValue` of the futex as it is now. -/
def FutexHolds (sim : Sim) (loc : FutexLoc) (value : Nat) : Prop :=
  ∃ atomic, sim.memory.atomics loc.atomic = some atomic ∧
    getFutexValue atomic atomic.lastStore.value loc = .ok value

/-- The caller waits on the futex, perhaps with a deadline. -/
structure Parks (sim : Sim) (loc : FutexLoc) (old : Nat) (deadline : Option Int)
    (me : ThreadId) (sim' : Sim) : Prop where
  value : FutexHolds sim loc old
  state : (sim'.threads me).state = .parked
  futex : (sim'.threads me).futex = some loc.futexKey
  timer : (sim'.threads me).timer = deadline.isSome
  when : ∀ when, deadline = some when → (sim'.timerQueue.heap.timers me).when = when

/-- The caller goes back to the scheduler at once. -/
structure Declines (sim : Sim) (loc : FutexLoc) (old : Nat) (me : ThreadId) (sim' : Sim)
    (a' : Holdings) : Prop where
  owned : me ∈ a'.owned
  role : (sim'.threads me).SameRole (sim.threads me)
  status : (sim'.threads me).status = .interrupted ∨
    (sim'.threads me).status = .ok ∧ ∃ value, FutexHolds sim loc value ∧ value ≠ old

/-- What `FutexWait` does. -/
structure Waits (sim : Sim) (a : Holdings) (me : ThreadId) (loc : FutexLoc) (old : Nat)
    (deadline : Option Int) (r : Option Answer) (sim' : Sim) (a' : Holdings) : Prop where
  placed : sim'.Placed (r.map fun _ => me) none a'
  leaves : r = none
  outcome : Parks sim loc old deadline me sim' ∨ Declines sim loc old me sim' a'
  wakes : sim.Wakes a sim' a' me 0

theorem ensures_spuriousWakeup {ctx : WaiterContext} (h : sim.Placed running none a) :
    Ensures links stuck (spuriousWakeup ctx) (fun _ sim' a' => sim' = sim ∧ a' = a)
      sim a := by
  unfold spuriousWakeup
  split
  · exact ensures_query h.filed.sound trivial rfl trivial fun _ _ hgrants =>
      ⟨rfl, hgrants.post⟩
  · exact ⟨rfl, rfl⟩

theorem getFutexValue_error {atomic : AtomicVar} {value : Nat} {loc : FutexLoc} {p : Panic}
    (h : getFutexValue atomic value loc = .error p) : p ∉ impossible := by
  unfold getFutexValue at h
  split at h
  · split at h
    · cases h
    · cases h
      decide
  · split at h
    · cases h
      decide
    · split at h
      · cases h
        decide
      · split at h
        · cases h
        · cases h
        · cases h
          decide
  · cases h

theorem ensures_futexValue {loc : FutexLoc} (h : sim.Linked none a) :
    Ensures links stuck (futexValue loc)
      (fun value sim' a' => sim' = sim ∧ a' = a ∧ FutexHolds sim loc value) sim a := by
  unfold futexValue
  refine ensures_get ?_
  refine (ensures_onMemory h
    (fun e he => Memory.benign_map he fun _ => Memory.benign_futexAtomic)
    (fun atomic memory hop => ?_) : Ensures links stuck _ (fun atomic sim' a' =>
      sim' = sim ∧ a' = a ∧ sim.memory.atomics loc.atomic = some atomic) sim a).bind ?_
  · obtain ⟨atomic', hatomic, heq⟩ := map_eq_ok hop
    cases heq
    refine ⟨rfl, rfl, ?_⟩
    unfold Memory.futexAtomic at hatomic
    dsimp only at hatomic
    split at hatomic
    · cases hatomic
    · rename_i found hfound
      split at hatomic
      · cases hatomic
      · cases hatomic
        exact hfound
  · rintro atomic sim a ⟨rfl, rfl, hatomic⟩
    exact ensures_checked (fun value hvalue => ⟨rfl, rfl, atomic, hatomic, hvalue⟩)
      fun _ => getFutexValue_error

/-- The timer of a waiter has been added, if there is a deadline. -/
structure TimerAdded (sim : Sim) (a : Holdings) (me : ThreadId) (deadline : Option Int)
    (sim' : Sim) : Prop where
  placed : sim'.Placed none (some me) a
  moves : sim.Moves a sim' a me
  waiters : sim'.waiters a = sim.waiters a
  armed : sim'.Armed me ↔ deadline.isSome = true
  alarm : sim'.Armed me → (sim'.timerQueue.heap.timers me).alarm = .futexTimer
  when : ∀ when, deadline = some when → (sim'.timerQueue.heap.timers me).when = when

theorem ensures_addDeadline {deadline : Option Int} {f : Unit → KernelM α}
    {post : α → Sim → Holdings → Prop} (h : sim.Placed none (some me) a)
    (halive : me ∈ sim.alive) (harmed : ¬ sim.Armed me)
    (hf : ∀ sim', TimerAdded sim a me deadline sim' → Ensures links stuck (f ()) post sim' a) :
    Ensures links stuck
      (match deadline with
        | some when => addTimer me when .futexTimer >>= f
        | none => f ()) post sim a := by
  cases deadline with
  | none =>
      exact hf sim ⟨h, Sim.Moves.refl sim a me, rfl, iff_of_false harmed nofun,
        fun hnow => absurd hnow harmed, nofun⟩
  | some when =>
      refine (ensures_addTimer h.indexed harmed).bind ?_
      rintro _ sim₁ a ⟨rfl, hchange, hwhen, halarm⟩
      have hmoves : sim.Moves a sim₁ a me := Sim.moves_of_timerChange hchange
      have hfiled : Filed sim₁.futex a (sim₁.waiters a) := by
        rw [hchange.waiters, hchange.eq Sim.futex]
        exact h.filed
      refine hf sim₁ ⟨?_, hmoves, hchange.waiters, iff_of_true (hchange.self.mpr trivial) rfl,
        fun _ => halarm, ?_⟩
      · exact h.moves (Or.inr rfl) halive nofun hmoves hfiled hchange.indexed
          (fun _ hu => Or.inr hu) rfl
      · intro _ heq
        cases heq
        exact hwhen

theorem ensures_park {loc : FutexLoc} {old : Nat} {deadline : Option Int}
    {ctx : WaiterContext} (h : sim.Placed (some me) none a) (hvalue : FutexHolds sim loc old) :
    Ensures links stuck (park me loc.futexKey deadline ctx)
      (fun _ sim' a' => sim'.Placed none none a' ∧ sim.Moves a sim' a' me ∧
        Parks sim loc old deadline me sim') sim a := by
  obtain ⟨hplaced, hdetached⟩ := h.stop
  have hloose := hplaced.loose hdetached
  unfold park
  refine (ensures_waitQueuePush h.filed hloose).bind ?_
  intro _ sim₁ a₁ hchange
  have hmoves : sim.Moves a sim₁ a₁ me := Sim.moves_of_queueChange hchange fun u hu => by
    rw [Multiset.mem_cons, or_iff_right hu]
  have hindexed : sim₁.timerQueue.heap.Indexed := hchange.timerQueue ▸ h.indexed
  have hplaced₁ := hplaced.moves (Or.inr rfl) hdetached.alive nofun hmoves hchange.filed
    hindexed (fun u hu => Or.inr (hchange.runs.owned ▸ hu)) hchange.slot
  have halive : me ∈ sim₁.alive := hmoves.alive ▸ hdetached.alive
  have harmed : ¬ sim₁.Armed me := by
    rw [Sim.Armed, hchange.timerQueue]
    exact hdetached.armed
  refine ensures_addDeadline hplaced₁ halive harmed fun sim₂ hadded => ?_
  obtain ⟨hplaced₂, hmoves₂, hwaiters, harmed₂, halarm, hwhen⟩ := hadded
  let thread : Thread :=
    { sim₂.threads me with
      state := .parked
      futex := some loc.futexKey
      timer := deadline.isSome
      waiter := some ctx }
  have hself := Sim.setThread_self sim₂ me thread
  have hmoves₃ := Sim.moves_setThread sim₂ a₁ me thread
  have halive₂ : me ∈ sim₂.alive := hmoves₂.alive ▸ halive
  have hplaced₃ : (sim₂.setThread me thread).Placed none (some me) a₁ :=
    hplaced₂.moves (Or.inr rfl) halive₂ nofun hmoves₃ hplaced₂.filed hplaced₂.indexed
      (fun _ hu => Or.inr hu) rfl
  have hall : ∀ key, me ∈ sim₂.waiters a₁ key ↔ some loc.futexKey = some key := by
    intro key
    rw [hwaiters, hchange.waiters]
    by_cases hkey : key = loc.futexKey
    · subst hkey
      rw [Function.update_self]
      exact iff_of_true (Multiset.mem_cons_self me _) rfl
    · rw [Function.update_of_ne hkey]
      exact iff_of_false (hdetached.waiting key) fun heq => hkey (Option.some.inj heq).symm
  refine ⟨hplaced₃.settle halive₂ ?_ (fun key => ?_) ?_, (hmoves.trans hmoves₂).trans hmoves₃,
    hvalue, ?_, ?_, ?_, hwhen⟩
  · refine @Place.parked (sim₂.setThread me thread) a₁ me loc.futexKey ?_ ?_ ?_ halarm
    · rw [hchange.runs.owned]
      exact hdetached.owned
    · rw [hself]
    · rw [hself]
  · rw [hself]
    exact hall key
  · rw [hself]
    exact harmed₂
  · rw [hself]
  · rw [hself]
  · rw [hself]

theorem ensures_sysFutexWait {loc : FutexLoc} {old : Nat} {deadline : Option Int}
    {ctx : WaiterContext} (h : sim.Placed (some me) none a) :
    Ensures links stuck (sysFutexWait me loc old deadline ctx >>= fun _ => suspend)
      (Waits sim a me loc old deadline) sim a := by
  obtain ⟨hplaced, hdetached⟩ := h.stop
  have hdeclines : ∀ status : CallStatus, (status = .interrupted ∨
      status = .ok ∧ ∃ value, FutexHolds sim loc value ∧ value ≠ old) →
      Ensures links stuck (scheduleWaiter me status) (fun _ sim' a' =>
        sim'.Placed none none a' ∧ sim.Moves a sim' a' me ∧
        (Parks sim loc old deadline me sim' ∨ Declines sim loc old me sim' a')) sim a := by
    intro status hstatus
    refine (ensures_scheduleWaiter hplaced hdetached nofun (free_of_runs h) status).mono ?_
    rintro _ sim' a' ⟨hplaced', hmoves, hthread, howned⟩
    refine ⟨hplaced', hmoves, Or.inr ⟨howned, ?_, ?_⟩⟩
    · rw [hthread]
      exact ⟨rfl, rfl, rfl⟩
    · rw [hthread]
      exact hstatus
  refine Ensures.bind (P := fun _ sim' a' => sim'.Placed none none a' ∧
    sim.Moves a sim' a' me ∧
    (Parks sim loc old deadline me sim' ∨ Declines sim loc old me sim' a')) ?_ ?_
  · unfold sysFutexWait
    refine (ensures_spuriousWakeup h).bind ?_
    rintro spurious _ _ ⟨rfl, rfl⟩
    split
    · exact hdeclines .interrupted (Or.inl rfl)
    · refine (ensures_futexValue h.toLinked).bind ?_
      rintro value _ _ ⟨rfl, rfl, hvalue⟩
      split
      · rename_i hne
        exact hdeclines .ok (Or.inr ⟨rfl, value, hvalue, hne⟩)
      · rename_i heq
        obtain rfl : value = old := not_not.mp heq
        refine (ensures_park h hvalue).mono fun _ _ _ ⟨hplaced', hmoves, hparks⟩ => ?_
        exact ⟨hplaced', hmoves, Or.inl hparks⟩
  · rintro _ sim' a' ⟨hplaced', hmoves, houtcome⟩
    exact ⟨hplaced', rfl, houtcome, Sim.wakes_of_moves hmoves⟩

end Kernel

/-! ### Waking the waiters of a futex -/

namespace Sim

variable {sim sim' : Sim} {a a' : Holdings} {t me : ThreadId} {key : FutexKey}
  {running inHand : Option ThreadId}

/-- Nothing that matters for the places has changed. -/
theorem Placed.untouched (h : sim.Placed running inHand a)
    (hall : ∀ u, sim.Untouched a sim' a' u) (hfiled : Filed sim'.futex a' (sim'.waiters a'))
    (hindexed : sim'.timerQueue.heap.Indexed) (halive : sim'.alive = sim.alive)
    (hcount : sim'.memory.threadCount = sim.memory.threadCount) (hslot : a'.slot = a.slot) :
    sim'.Placed running inHand a' where
  filed := hfiled
  indexed := hindexed
  nodup := halive ▸ h.nodup
  known u hu := by
    rw [hcount]
    exact h.known u (halive ▸ hu)
  count := hcount ▸ h.count
  born u hu := by
    rw [hcount]
    exact h.born u ((hall u).owned.mp hu)
  futex u hu hne key := by
    rw [(hall u).waiting, (hall u).thread]
    exact h.futex u (halive ▸ hu) hne key
  timer u hu hne := by
    rw [(hall u).armed, (hall u).thread]
    exact h.timer u (halive ▸ hu) hne
  gone u hu := by
    have hgone := h.gone u (halive ▸ hu)
    refine ⟨fun key hmem => hgone.1 key (((hall u).waiting key).mp hmem), ?_⟩
    exact fun harmed => hgone.2 ((hall u).armed.mp harmed)
  place u hu hne hnot := (hall u).place (h.place u (halive ▸ hu) hne hnot)
  runs u hu := by
    have hruns := h.runs u hu
    have hsame := hall u
    refine ⟨hsame.alive.mpr hruns.alive, fun hmem => hruns.owned (hsame.owned.mp hmem),
      ?_, ?_, ?_, hslot.trans hruns.slot⟩
    · rw [hsame.thread, hruns.state]
    · rw [hsame.thread, hruns.futex]
    · rw [hsame.thread, hruns.timer]

/-- A waiter is parked, and does not run. -/
theorem Placed.waiter (h : sim.Placed running none a) (ht : t ∈ sim.waiters a key) :
    t ∈ sim.alive ∧ running ≠ some t ∧ (sim.threads t).state = .parked := by
  have halive : t ∈ sim.alive := by
    by_contra hgone
    exact (h.gone t hgone).1 key ht
  have hfutex := (h.futex t halive nofun key).mp ht
  have hrun : running ≠ some t := by
    intro hrun
    rw [(h.runs t hrun).futex] at hfutex
    cases hfutex
  refine ⟨halive, hrun, ?_⟩
  cases h.place t halive hrun nofun with
  | held _ _ hnone _ =>
      rw [hnone] at hfutex
      cases hfutex
  | parked _ hstate _ _ => exact hstate
  | sleeping _ _ hnone _ _ =>
      rw [hnone] at hfutex
      cases hfutex

end Sim

namespace Kernel

variable {links : Links} {stuck : Prop} {sim sim₁ : Sim} {a a₁ : Holdings}
  {t me : ThreadId} {key : FutexKey}

/-- The wake of a waiter that was taken out of its queue. -/
theorem ensures_wakeWaiter (h : sim.Placed (some me) none a) (ht : t ∈ sim.waiters a key)
    (hchange : QueueChange sim a sim₁ a₁ key ((sim.waiters a key).erase t)) :
    Ensures links stuck (wake (some me) t .futexWake)
      (fun _ sim' a' => sim'.Placed (some me) none a' ∧ sim.Awakened a sim' a' t .ok)
      sim₁ a₁ := by
  obtain ⟨halive, hrun, hstate⟩ := h.waiter ht
  have hmoves : sim.Moves a sim₁ a₁ t :=
    Sim.moves_of_queueChange hchange fun u hu => Multiset.mem_erase_of_ne hu
  have hindexed : sim₁.timerQueue.heap.Indexed := hchange.timerQueue ▸ h.indexed
  have hplaced := h.moves (Or.inl rfl) halive hrun hmoves hchange.filed hindexed
    (fun u hu => Or.inr (hchange.runs.owned ▸ hu)) hchange.slot
  have hthread : sim₁.threads t = sim.threads t := congrFun hchange.threads t
  have hreason : Ensures links stuck (wakeReason (some me) t .futexWake)
      (fun status sim' a' => status = .ok ∧ Ready (some me) sim₁ a₁ sim' a' t) sim₁ a₁ := by
    refine ensures_reasonWake me hplaced hrun (hmoves.alive ▸ halive) ?_ (fun k => ?_) ?_
    · rw [hchange.runs.owned]
      exact (h.filed.apart key).running t ht
    · rw [hchange.waiters]
      exact (h.filed.apart.loose ht).waiting k
    · rw [Sim.Armed, hchange.timerQueue, hthread]
      exact h.timer t halive (by simp)
  refine (ensures_wake (Or.inl (hthread ▸ hstate)) hrun hreason).mono ?_
  rintro _ sim' a' ⟨hplaced', hawakened⟩
  refine ⟨hplaced', hmoves.trans hawakened.moves, ?_, hawakened.owned⟩
  rw [hawakened.thread, hthread]

/-- Who waits after one waiter has been woken. -/
theorem waiters_awakened {sim' : Sim} {a' : Holdings} (h : sim.Placed (some me) none a)
    (ht : t ∈ sim.waiters a key) (h' : sim'.Placed (some me) none a')
    (hawakened : sim.Awakened a sim' a' t .ok) :
    sim'.waiters a' key = (sim.waiters a key).erase t := by
  have hnodup := (h.filed.apart key).nodup
  refine (Multiset.Nodup.ext (h'.filed.apart key).nodup (hnodup.erase t)).mpr fun u => ?_
  rw [hnodup.mem_erase_iff]
  by_cases hut : u = t
  · subst hut
    refine iff_of_false (fun hmem => ?_) fun hmem => hmem.1 rfl
    have halive : u ∈ sim'.alive := hawakened.moves.alive ▸ (h.waiter ht).1
    exact h'.not_waits halive hawakened.roused.futex key hmem
  · rw [(hawakened.moves.others u hut).waiting]
    exact (and_iff_right hut).symm

/-- `FutexWake` has woken some of the waiters: all, or one if there is one. -/
structure Notifies (sim : Sim) (a : Holdings) (me : ThreadId) (loc : FutexLoc)
    (count : Nat) (r : Option Answer) (sim' : Sim) (a' : Holdings) : Prop where
  placed : sim'.Placed (r.map fun _ => me) none a'
  returns : r ≠ none
  alive : sim'.alive = sim.alive
  wakes : ∃ woken, sim.Wakes a sim' a' me woken ∧ woken ≤ sim.waiters a loc.futexKey ∧
    (count = 0 ∧ woken = sim.waiters a loc.futexKey ∨
      count = 1 ∧ woken.card = min 1 (sim.waiters a loc.futexKey).card)

/-- An empty queue was asked for a waiter. -/
theorem unwoken {waiters : Multiset ThreadId} (h : sim.Placed (some me) none a)
    (hempty : sim.waiters a key = 0) (hchange : QueueChange sim a sim₁ a₁ key waiters)
    (hwaiters : waiters = 0) :
    sim₁.Placed (some me) none a₁ ∧ sim.Wakes a sim₁ a₁ me 0 := by
  subst hwaiters
  have hall : ∀ u, sim.Untouched a sim₁ a₁ u := fun u => hchange.untouched (by rw [hempty])
  have hcount : sim₁.memory.threadCount = sim.memory.threadCount := by rw [hchange.memory]
  refine ⟨h.untouched hall hchange.filed (hchange.timerQueue ▸ h.indexed) hchange.alive
    hcount hchange.slot, Sim.wakes_of_moves ⟨fun u _ => hall u, hchange.alive, hcount, ?_, ?_⟩⟩
  · exact hchange.rest.eq Sim.ticks
  · exact hchange.rest.eq Sim.params

/-- By induction on the fuel, which bounds the number of waiters. -/
theorem ensures_wakeAll (h : sim.Placed (some me) none a) (fuel : Nat) :
    Ensures links stuck (wakeAll me key fuel)
      (fun _ sim' a' => sim'.Placed (some me) none a' ∧ sim'.alive = sim.alive ∧
        sim.Wakes a sim' a' me (sim.waiters a key)) sim a := by
  induction fuel generalizing sim a with
  | zero => exact ensures_panic (by decide)
  | succ fuel ih =>
      unfold wakeAll
      refine (ensures_waitQueuePop h.filed fun q => Or.inr rfl).bind ?_
      intro r sim₁ a₁ hpop
      cases r with
      | none =>
          obtain ⟨hempty, hchange⟩ := hpop
          obtain ⟨hplaced, hwakes⟩ := unwoken h hempty hchange rfl
          exact ⟨hplaced, hchange.alive, hempty.symm ▸ hwakes⟩
      | some t =>
          obtain ⟨ht, hchange⟩ := hpop
          refine (ensures_wakeWaiter h ht hchange).bind ?_
          rintro _ sim₂ a₂ ⟨hplaced, hawakened⟩
          refine (ih hplaced).mono ?_
          rintro _ sim' a' ⟨hplaced', hkept, hwakes⟩
          have hwaiters := waiters_awakened h ht hplaced hawakened
          have hrest : ∀ u, u ∈ sim₂.waiters a₂ key ↔ u ≠ t ∧ u ∈ sim.waiters a key :=
            fun u => by rw [hwaiters, (h.filed.apart key).nodup.mem_erase_iff]
          have halive' := hkept.trans hawakened.moves.alive
          refine ⟨hplaced', halive', fun u hu hnot => absurd (halive' ▸ hu) hnot,
            fun u hu halive hne hnot => ?_, fun u hu => ?_,
            hwakes.ticks.trans hawakened.moves.ticks,
            hwakes.params.trans hawakened.moves.params⟩
          · have hut : u ≠ t := fun heq => hnot (heq ▸ ht)
            have hfirst := hawakened.moves.others u hut
            exact hfirst.stays.trans (hwakes.others u hu (hfirst.alive.mpr halive) hne
              fun hmem => hnot ((hrest u).mp hmem).2)
          · by_cases hut : u = t
            · subst hut
              have hnot : u ∉ sim₂.waiters a₂ key := fun hmem => ((hrest u).mp hmem).1 rfl
              have halive : u ∈ sim₂.alive := hawakened.moves.alive ▸ (h.waiter ht).1
              refine hawakened.roused.stays (hwakes.others u (hkept ▸ halive) halive ?_
                hnot)
              exact fun heq => (h.waiter ht).2.1 (heq ▸ rfl)
            · exact hwakes.woken u ((hrest u).mpr ⟨hut, hu⟩)

theorem ensures_sysFutexWake {loc : FutexLoc} {count : Nat}
    (h : sim.Placed (some me) none a) :
    Ensures links stuck (sysFutexWake me loc count >>= fun _ => resume me 0)
      (Notifies sim a me loc count) sim a := by
  have hfinish : ∀ {sim' : Sim} {a' : Holdings} (woken : Multiset ThreadId),
      sim'.Placed (some me) none a' → sim'.alive = sim.alive →
      sim.Wakes a sim' a' me woken → woken ≤ sim.waiters a loc.futexKey →
      (count = 0 ∧ woken = sim.waiters a loc.futexKey ∨
        count = 1 ∧ woken.card = min 1 (sim.waiters a loc.futexKey).card) →
      Ensures links stuck (resume me 0) (Notifies sim a me loc count) sim' a' := by
    intro sim' a' woken hplaced halive hwakes hle hcount
    refine (ensures_resume 0).mono ?_
    rintro _ sim₂ a₂ ⟨rfl, hsame⟩
    refine ⟨hplaced.samePlaces hsame.toSamePlaces, nofun, hsame.alive.trans halive, woken,
      hwakes.resumed (fun hmem => ?_) hsame, hle, hcount⟩
    exact (h.waiter (Multiset.mem_of_le hle hmem)).2.1 rfl
  unfold sysFutexWake
  by_cases hone : count = 1
  · rw [if_pos hone]
    refine Ensures.bind (P := fun _ sim' a' => ∃ woken, sim'.Placed (some me) none a' ∧
      sim'.alive = sim.alive ∧ sim.Wakes a sim' a' me woken ∧ woken ≤ sim.waiters a loc.futexKey ∧
      woken.card = min 1 (sim.waiters a loc.futexKey).card) ?_ ?_
    · refine (ensures_waitQueuePop h.filed fun q => Or.inl rfl).bind ?_
      intro r sim₁ a₁ hpop
      cases r with
      | none =>
          obtain ⟨hempty, hchange⟩ := hpop
          obtain ⟨hplaced, hwakes⟩ := unwoken h hempty hchange rfl
          exact ⟨0, hplaced, hchange.alive, hwakes, Multiset.zero_le _, by rw [hempty]; rfl⟩
      | some t =>
          obtain ⟨ht, hchange⟩ := hpop
          refine (ensures_wakeWaiter h ht hchange).mono ?_
          rintro _ sim₂ a₂ ⟨hplaced, hawakened⟩
          have hpos : 1 ≤ (sim.waiters a loc.futexKey).card :=
            Multiset.card_pos_iff_exists_mem.mpr ⟨t, ht⟩
          have halive := hawakened.moves.alive
          refine ⟨{t}, hplaced, halive, ⟨fun u hu hnot => absurd (halive ▸ hu) hnot,
            fun u _ _ _ hnot => ?_, fun u hu => ?_, hawakened.moves.ticks, hawakened.moves.params⟩,
            Multiset.singleton_le.mpr ht, ?_⟩
          · exact (hawakened.moves.others u fun heq => hnot (by rw [heq]; simp)).stays
          · rw [Multiset.mem_singleton.mp hu]
            exact hawakened.roused
          · rw [Multiset.card_singleton, Nat.min_eq_left hpos]
    · rintro _ sim' a' ⟨woken, hplaced, halive, hwakes, hle, hcard⟩
      exact hfinish woken hplaced halive hwakes hle (Or.inr ⟨hone, hcard⟩)
  · rw [if_neg hone]
    by_cases hzero : count = 0
    · rw [if_pos hzero]
      refine (ensures_wakeAll h (maxThreads + 1)).bind ?_
      rintro _ sim' a' ⟨hplaced, halive, hwakes⟩
      exact hfinish _ hplaced halive hwakes (le_refl _) (Or.inl ⟨hzero, rfl⟩)
    · rw [if_neg hzero]
      exact Ensures.bind (P := fun _ _ _ => False) (ensures_panic (by simp [impossible]))
        fun _ _ _ hfalse => absurd hfalse id

end Kernel

end TwistSim

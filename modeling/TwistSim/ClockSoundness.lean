/-
Every operation of the memory model preserves the meaning of the clocks, hence
so does every run in which no epoch overflows.
-/
import TwistSim.ClockTracking

namespace TwistSim

variable {tr : List Op} {n : Nat}

/-- The state between the tick of a synchronization action of thread `t` and
the action itself. -/
structure Midway (tr : List Op) (n : Nat) (t : Nat) (m : Memory) : Prop where
  thread : (opAt tr n).thread = t
  wellScoped : Scoped tr (n + 1) m.threadCount
  special : specialEvents tr n = ∅
  current : (timeline tr).Represents (n + 1) (m.sync t).current
    (insert n (hbPast tr (ownEvents tr n t)))
  release : (timeline tr).Represents (n + 1) (m.sync t).release
    (hbPast tr (releaseEvents tr n t))
  acquire : (timeline tr).Represents (n + 1) (m.sync t).acquire
    (hbPast tr (observedEvents tr n t))
  epoch : (m.sync t).epoch = (timeline tr).tickCount (n + 1) (t - 1)
  atomics : TracksAtomics tr n m

/-- An action of thread `t` changes its own context and the atomics only. -/
structure Acted (tr : List Op) (n : Nat) (t : Nat) (m m' : Memory) : Prop where
  thread : TracksThread tr (n + 1) t (m'.sync t)
  atomics : TracksAtomics tr (n + 1) m'
  others : ∀ u, u ≠ t → m'.sync u = m.sync u
  allocs : m'.allocs = m.allocs
  threadCount : m'.threadCount = m.threadCount

/-! ### The tick -/

/-- A thread whose context has become `ctx` ticks. -/
theorem tick_tracks {m m' : Memory} {S : Set Nat} {t : Nat} {ctx : ThreadContext}
    (h : (m.setSync t ctx).tick t = .ok m')
    (hthread : (opAt tr n).thread = t) (hticks : (opAt tr n).ticks = true)
    (hscoped : Scoped tr (n + 1) m.threadCount)
    (hcur : (timeline tr).Represents n ctx.current (hbPast tr S))
    (hS : ∀ s ∈ S, s < n) (hown : ownEvents tr n t ⊆ hbPast tr S)
    (hepoch : ctx.epoch = (timeline tr).tickCount n (t - 1))
    (hroom : (timeline tr).tickCount (n + 1) (t - 1) < epochSize) :
    ∃ current, m' = m.setSync t
        { ctx with
          current
          epoch := (timeline tr).tickCount (n + 1) (t - 1) } ∧
      (timeline tr).Represents (n + 1) current (insert n (hbPast tr S)) := by
  have hposn := hscoped n (Nat.lt_succ_self n)
  rw [hthread] at hposn
  have hslotn : (timeline tr).thread n = t - 1 := by
    change (opAt tr n).thread - 1 = t - 1
    rw [hthread]
  have hcover : ∀ i < n, (timeline tr).ticks i = true →
      (timeline tr).thread i = (timeline tr).thread n → i ∈ hbPast tr S := by
    intro i hi _ hslot
    have hpos := hscoped i (Nat.lt_succ_of_lt hi)
    rw [hslotn] at hslot
    change (opAt tr i).thread - 1 = t - 1 at hslot
    exact hown ⟨hi, by omega⟩
  have hcount : (timeline tr).tickCount (n + 1) (t - 1) =
      (timeline tr).tickCount n (t - 1) + 1 := by
    have hboth : (timeline tr).ticks n = true ∧ (timeline tr).thread n = t - 1 :=
      ⟨hticks, hslotn⟩
    rw [Timeline.tickCount, if_pos hboth]
  have hclock := hcur.own hcover
  have hticked := hcur.tick (not_mem_hbPast hS) hticks hcover
  rw [hslotn] at hclock hticked
  have hmod : ((timeline tr).tickCount n (t - 1) + 1) % epochSize =
      (timeline tr).tickCount (n + 1) (t - 1) := by
    rw [← hcount, Nat.mod_eq_of_lt hroom]
  refine ⟨_, ?_, hticked⟩
  rw [hclock, ← hcount]
  simp only [Memory.tick, VectorClock.tick, Memory.setSync_sync_self,
    Memory.setSync_threadCount, Memory.setSync_setSync, hposn.2, if_true, hclock,
    hepoch, hmod, Except.ok.injEq] at h
  exact h.symm

/-! ### Synchronization actions -/

namespace Midway

variable {t : Nat} {m : Memory}

theorem current_plain (h : Midway tr n t m) (hacq : (opAt tr n).acquires = false) :
    (timeline tr).Represents (n + 1) (m.sync t).current
      (hbPast tr (ownEvents tr (n + 1) t)) := by
  obtain ⟨rfl, _, hspecial, hcur, _⟩ := h
  exact Represents.own_plain hspecial hacq hcur

theorem release_idle (h : Midway tr n t m) (hrel : (opAt tr n).releases = false) :
    (timeline tr).Represents (n + 1) (m.sync t).release
      (hbPast tr (releaseEvents tr (n + 1) t)) := by
  rw [releaseEvents_idle (Or.inr hrel)]
  exact h.release

theorem acquire_idle (h : Midway tr n t m) (hload : (opAt tr n).isLoad = false) :
    (timeline tr).Represents (n + 1) (m.sync t).acquire
      (hbPast tr (observedEvents tr (n + 1) t)) := by
  rw [observedEvents_idle (Or.inr hload)]
  exact h.acquire

/-- An action without synchronization. -/
theorem keep (h : Midway tr n t m) (hacq : (opAt tr n).acquires = false)
    (hrel : (opAt tr n).releases = false) (hload : (opAt tr n).isLoad = false) :
    TracksThread tr (n + 1) t (m.sync t) :=
  ⟨h.current_plain hacq, h.release_idle hrel, h.acquire_idle hload, h.epoch⟩

/-- A release fence snapshots the current clock. -/
theorem release_fence (h : Midway tr n t m) (hrel : (opAt tr n).releases = true)
    {c : VectorClock} (hc : (timeline tr).Represents (n + 1) c
      (hbPast tr (ownEvents tr (n + 1) t))) :
    (timeline tr).Represents (n + 1)
      (VectorClock.assign m.threadCount (m.sync t).release c)
      (hbPast tr (releaseEvents tr (n + 1) t)) := by
  obtain ⟨rfl, hscoped, _, _, hrelease, _⟩ := h
  rw [hbPast_releaseEvents_self hrel]
  exact Represents.assign hscoped hrelease hc

/-- The release half of a store or a commit. -/
theorem publish (h : Midway tr n t m) {rel : Bool}
    (hacq : (opAt tr n).acquires = false) (hrel : (opAt tr n).releases = rel)
    (hload : (opAt tr n).isLoad = false) :
    TracksThread tr (n + 1) t
      ((if rel = true then m.fenceRelease t else m).sync t) := by
  cases rel with
  | false => exact h.keep hacq hrel hload
  | true =>
      rw [if_pos rfl, Memory.fenceRelease, Memory.setSync_sync_self]
      exact ⟨h.current_plain hacq, h.release_fence hrel (h.current_plain hacq),
        h.acquire_idle hload, h.epoch⟩

/-- A load, followed by an acquire fence if its order asks for it. -/
theorem load (h : Midway tr n t m) {acq : Bool} {atomic : AtomicVar}
    (hload : (opAt tr n).isLoad = true) (hacq : (opAt tr n).acquires = acq)
    (hrel : (opAt tr n).releases = false)
    (hatomic : m.atomics (opAt tr n).location = some atomic) :
    TracksThread tr (n + 1) t
      ((if acq = true then (m.atomicLoadRelaxed t atomic).2.fenceAcquire t
        else (m.atomicLoadRelaxed t atomic).2).sync t) := by
  have hstored := Represents.advance (h.atomics _ _ hatomic) storedEvents_lt
  have hacquire : (timeline tr).Represents (n + 1)
      (VectorClock.join m.threadCount (m.sync t).acquire atomic.lastStore.clock)
      (hbPast tr (observedEvents tr (n + 1) t)) := by
    have hjoin := Represents.join h.wellScoped h.acquire hstored
    rw [← h.thread, observedEvents_load hload, hbPast, past_union]
    rw [h.thread]
    exact hjoin
  cases acq with
  | false =>
      simp only [Bool.false_eq_true, if_false, Memory.atomicLoadRelaxed,
        Memory.setSync_sync_self]
      exact ⟨h.current_plain hacq, h.release_idle hrel, hacquire, h.epoch⟩
  | true =>
      simp only [if_true, Memory.fenceAcquire, Memory.atomicLoadRelaxed,
        Memory.setSync_sync_self, Memory.setSync_threadCount]
      refine ⟨?_, h.release_idle hrel, hacquire, h.epoch⟩
      obtain ⟨rfl, hscoped, hspecial, hcur, _⟩ := h
      exact Represents.own_acquire hscoped hspecial hacq hcur hacquire

/-- The current clock after an acquire fence. -/
theorem current_fence (h : Midway tr n t m) (hacq : (opAt tr n).acquires = true)
    (hload : (opAt tr n).isLoad = false) :
    (timeline tr).Represents (n + 1)
      (VectorClock.join m.threadCount (m.sync t).current (m.sync t).acquire)
      (hbPast tr (ownEvents tr (n + 1) t)) := by
  have hacquire := h.acquire_idle hload
  obtain ⟨rfl, hscoped, hspecial, hcur, _⟩ := h
  exact Represents.own_acquire hscoped hspecial hacq hcur hacquire

variable {a : Action} {value : Nat} {m' : Memory}

theorem acted_init (h : Midway tr n t m) (hop : opAt tr n = .sync t a)
    (htype : a.type = .atomicInit) : Acted tr n t m (m.atomicInit a) where
  thread := by
    apply h.keep <;> simp [hop, Op.acquires, Op.releases, Op.isLoad, htype]
  atomics := by
    apply h.atomics.update rfl
    · rw [storedEvents_init (by simp [hop, Op.storesTo, htype])
        (by simp [hop, Op.startsOver, htype]), hbPast, past_empty]
      exact Timeline.Represents.zero (n + 1)
    · intro loc _
      simp [hop, Op.storesTo, htype]
    · intro loc hloc
      simp [hop, Op.startsOver, Ne.symm hloc]
  others _ _ := rfl
  allocs := rfl
  threadCount := rfl

theorem acted_destroy (h : Midway tr n t m) (hop : opAt tr n = .sync t a)
    (htype : a.type = .atomicDestroy) (hok : m.atomicDestroy a = .ok m') :
    Acted tr n t m m' := by
  obtain ⟨atomic, hatomic, rfl⟩ := map_eq_ok hok
  have hfound := Memory.getShadowAtomicVar_ok hatomic
  have hstore : ∀ loc, (opAt tr n).storesTo loc = false := by
    simp [hop, Op.storesTo, htype]
  have hover : ∀ loc, (opAt tr n).startsOver loc = false := by
    simp [hop, Op.startsOver, htype]
  refine ⟨?_, ?_, fun _ _ => rfl, rfl, rfl⟩
  · apply h.keep <;> simp [hop, Op.acquires, Op.releases, Op.isLoad, htype]
  · apply h.atomics.update rfl _ (fun loc _ => hstore loc)
      fun loc _ => hover loc
    rw [storedEvents_idle (hstore _) (hover _)]
    exact Represents.advance (h.atomics _ atomic hfound) storedEvents_lt

theorem acted_debugLoad (h : Midway tr n t m) (hop : opAt tr n = .sync t a)
    (htype : a.type = .atomicDebugLoad)
    (hok : m.atomicDebugLoad a = .ok (value, m')) : Acted tr n t m m' := by
  obtain ⟨atomic, _, heq⟩ := map_eq_ok hok
  cases heq
  refine ⟨?_, ?_, fun _ _ => rfl, rfl, rfl⟩
  · apply h.keep <;> simp [hop, Op.acquires, Op.releases, Op.isLoad, htype]
  · apply h.atomics.idle rfl <;> simp [hop, Op.storesTo, Op.startsOver, htype]

theorem acted_load (h : Midway tr n t m) (hop : opAt tr n = .sync t a)
    (htype : a.type = .atomicLoad ∨ a.type = .atomicRmwLoad)
    (hok : m.loadThenFence t a = .ok (value, m')) : Acted tr n t m m' := by
  unfold Memory.loadThenFence at hok
  cases hatomic : m.getShadowAtomicVar a with
  | error e =>
      rw [hatomic] at hok
      cases hok
  | ok atomic =>
      rw [hatomic] at hok
      cases hok
      have hfound := Memory.getShadowAtomicVar_ok hatomic
      have hload : (opAt tr n).isLoad = true := by
        rcases htype with htype | htype <;> simp [hop, Op.isLoad, htype]
      have hacq : (opAt tr n).acquires = a.mo.isAcquireOrder := by
        rcases htype with htype | htype <;> simp [hop, Op.acquires, htype]
      have hrel : (opAt tr n).releases = false := by
        rcases htype with htype | htype <;> simp [hop, Op.releases, htype]
      have hloc : m.atomics (opAt tr n).location = some atomic := by
        simpa [hop, Op.location] using hfound
      have hthread := h.load hload hacq hrel hloc
      refine ⟨hthread, ?_, ?_, ?_, ?_⟩
      · apply h.atomics.idle
        · cases a.mo.isAcquireOrder <;> rfl
        · rcases htype with htype | htype <;> simp [hop, Op.storesTo, htype]
        · rcases htype with htype | htype <;> simp [hop, Op.startsOver, htype]
      · intro u hu
        cases a.mo.isAcquireOrder <;> simp [Memory.fenceAcquire, hu]
      · cases a.mo.isAcquireOrder <;> rfl
      · cases a.mo.isAcquireOrder <;> rfl

/-- A store or a commit: the release half, then the new clock of the atomic,
made from its old clock and the release clock by `combine`. -/
theorem acted_write (h : Midway tr n t m) (hop : opAt tr n = .sync t a)
    (htype : a.type = .atomicStore ∨ a.type = .atomicRmwCommit)
    {combine : Nat → VectorClock → VectorClock → VectorClock}
    (hcombine : ∀ c r,
      (timeline tr).Represents (n + 1) c (hbPast tr (storedEvents tr n a.loc)) →
      (timeline tr).Represents (n + 1) r
        (hbPast tr (releaseEvents tr (n + 1) t)) →
      (timeline tr).Represents (n + 1) (combine m.threadCount c r)
        (hbPast tr (storedEvents tr (n + 1) a.loc)))
    (hok : (m.fenceThenWrite t a fun m atomic =>
      m.setAtomic a.loc
        { atomic with
          lastStore := ⟨combine m.threadCount atomic.lastStore.clock
            (m.sync t).release, a.value⟩ }) = .ok m') :
    Acted tr n t m m' := by
  have hacq : (opAt tr n).acquires = false := by
    rcases htype with htype | htype <;> simp [hop, Op.acquires, htype]
  have hrel : (opAt tr n).releases = a.mo.isReleaseOrder := by
    rcases htype with htype | htype <;> simp [hop, Op.releases, htype]
  have hload : (opAt tr n).isLoad = false := by
    rcases htype with htype | htype <;> simp [hop, Op.isLoad, htype]
  obtain ⟨atomic, hatomic, rfl⟩ := map_eq_ok hok
  have hfound := Memory.getShadowAtomicVar_ok hatomic
  have hold := Represents.advance (h.atomics _ _ hfound) storedEvents_lt
  have hthread := h.publish hacq hrel hload
  -- The optional fence leaves everything but the context of `t` alone.
  have hfence : ∃ ctx, (if a.mo.isReleaseOrder = true then m.fenceRelease t
      else m) = m.setSync t ctx := by
    cases a.mo.isReleaseOrder with
    | false => exact ⟨m.sync t, by simp [Memory.setSync]⟩
    | true => exact ⟨_, rfl⟩
  obtain ⟨ctx, hctx⟩ := hfence
  rw [hctx] at hthread ⊢
  refine ⟨hthread, ?_, fun u hu => by simp [hu], rfl, rfl⟩
  apply h.atomics.update rfl
  · exact hcombine _ _ hold hthread.release
  · intro loc hloc
    simp [hop, Op.storesTo, Ne.symm hloc]
  · intro loc hloc
    simp [hop, Op.startsOver, Ne.symm hloc]

theorem acted_store (h : Midway tr n t m) (hop : opAt tr n = .sync t a)
    (htype : a.type = .atomicStore) (hok : m.atomicStore t a = .ok m') :
    Acted tr n t m m' := by
  unfold Memory.atomicStore at hok
  by_cases horder : a.mo.isStoreOrder = true
  · rw [if_pos horder] at hok
    apply h.acted_write hop (Or.inl htype) _ hok
    intro c r hc hr
    rw [storedEvents_store (by simp [hop, Op.storesTo, htype])
      (by simp [hop, Op.startsOver, htype]), h.thread]
    exact Represents.assign h.wellScoped hc hr
  · rw [if_neg horder] at hok
    cases hok

theorem acted_commit (h : Midway tr n t m) (hop : opAt tr n = .sync t a)
    (htype : a.type = .atomicRmwCommit) (hok : m.atomicRmwCommit t a = .ok m') :
    Acted tr n t m m' := by
  apply h.acted_write hop (Or.inr htype) _ hok
  intro c r hc hr
  rw [storedEvents_commit (by simp [hop, Op.storesTo, htype])
    (by simp [hop, Op.startsOver, htype]), h.thread, hbPast, past_union]
  exact Represents.join h.wellScoped hc hr

theorem acted_fence (h : Midway tr n t m) (hop : opAt tr n = .sync t a)
    (htype : a.type = .atomicThreadFence)
    (hok : m.atomicThreadFence t a = .ok m') : Acted tr n t m m' := by
  have hload : (opAt tr n).isLoad = false := by
    simp [hop, Op.isLoad, htype]
  have hacq : (opAt tr n).acquires = a.mo.isAcquireOrder := by
    simp [hop, Op.acquires, htype]
  have hrel : (opAt tr n).releases = a.mo.isReleaseOrder := by
    simp [hop, Op.releases, htype]
  have hatomics : ∀ {m'' : Memory}, m''.atomics = m.atomics →
      TracksAtomics tr (n + 1) m'' := by
    intro m'' heq
    apply h.atomics.idle heq <;> simp [hop, Op.storesTo, Op.startsOver, htype]
  unfold Memory.atomicThreadFence at hok
  cases hmo : a.mo with
  | acquire =>
      rw [hmo] at hok hacq hrel
      cases hok
      refine ⟨?_, hatomics rfl, fun u hu => by simp [Memory.fenceAcquire, hu],
        rfl, rfl⟩
      rw [Memory.fenceAcquire, Memory.setSync_sync_self]
      exact ⟨h.current_fence hacq hload, h.release_idle hrel,
        h.acquire_idle hload, h.epoch⟩
  | release =>
      rw [hmo] at hok hacq hrel
      cases hok
      refine ⟨?_, hatomics rfl, fun u hu => by simp [Memory.fenceRelease, hu],
        rfl, rfl⟩
      rw [Memory.fenceRelease, Memory.setSync_sync_self]
      exact ⟨h.current_plain hacq, h.release_fence hrel (h.current_plain hacq),
        h.acquire_idle hload, h.epoch⟩
  | acqRel =>
      rw [hmo] at hok hacq hrel
      cases hok
      refine ⟨?_, hatomics rfl, fun u hu => by
        simp [Memory.fenceRelease, Memory.fenceAcquire, hu], rfl, rfl⟩
      have hcur := h.current_fence hacq hload
      simp only [Memory.fenceRelease, Memory.fenceAcquire,
        Memory.setSync_sync_self, Memory.setSync_threadCount]
      exact ⟨hcur, h.release_fence hrel hcur, h.acquire_idle hload, h.epoch⟩
  | _ =>
      rw [hmo] at hok
      cases hok

theorem acted (h : Midway tr n t m) (hop : opAt tr n = .sync t a)
    (hok : m.syncAction t a = .ok (value, m')) : Acted tr n t m m' := by
  unfold Memory.syncAction at hok
  cases htype : a.type with
  | atomicInit =>
      rw [htype] at hok
      cases hok
      exact h.acted_init hop htype
  | atomicDestroy =>
      rw [htype] at hok
      obtain ⟨m₁, hok, heq⟩ := map_eq_ok hok
      cases heq
      exact h.acted_destroy hop htype hok
  | atomicLoad =>
      rw [htype] at hok
      simp only [Memory.atomicLoad] at hok
      by_cases horder : a.mo.isLoadOrder = true
      · rw [if_pos horder] at hok
        exact h.acted_load hop (Or.inl htype) hok
      · rw [if_neg horder] at hok
        cases hok
  | atomicDebugLoad =>
      rw [htype] at hok
      exact h.acted_debugLoad hop htype hok
  | atomicStore =>
      rw [htype] at hok
      obtain ⟨m₁, hok, heq⟩ := map_eq_ok hok
      cases heq
      exact h.acted_store hop htype hok
  | atomicRmwLoad =>
      rw [htype] at hok
      exact h.acted_load hop (Or.inr htype) hok
  | atomicRmwCommit =>
      rw [htype] at hok
      obtain ⟨m₁, hok, heq⟩ := map_eq_ok hok
      cases heq
      exact h.acted_commit hop htype hok
  | atomicThreadFence =>
      rw [htype] at hok
      obtain ⟨m₁, hok, heq⟩ := map_eq_ok hok
      cases heq
      exact h.acted_fence hop htype hok

end Midway

/-! ### Operations -/

section Operations

variable {k t : Nat} {m m' : Memory}

theorem ownEvents_beyond (hscoped : Scoped tr n k) (ht : k < t) :
    ownEvents tr n t = ∅ := by
  ext i
  simp only [Set.mem_empty_iff_false, iff_false]
  rintro ⟨hi, rfl⟩
  exact Nat.lt_irrefl _ (Nat.lt_of_le_of_lt (hscoped i hi).2 ht)

theorem releaseEvents_beyond (hscoped : Scoped tr n k) (ht : k < t) :
    releaseEvents tr n t = ∅ := by
  have hsub : releaseEvents tr n t ⊆ ownEvents tr n t :=
    fun i hi => ⟨hi.1, hi.2.1⟩
  rw [ownEvents_beyond hscoped ht] at hsub
  exact Set.subset_empty_iff.mp hsub

theorem observedEvents_beyond (hscoped : Scoped tr n k) (ht : k < t) :
    observedEvents tr n t = ∅ := by
  ext s
  simp only [Set.mem_empty_iff_false, iff_false]
  rintro ⟨y, hy, rfl, _⟩
  exact Nat.lt_irrefl _ (Nat.lt_of_le_of_lt (hscoped y hy).2 ht)

theorem Scoped.succ (h : Scoped tr n k) {k' : Nat} (hk : k ≤ k')
    (hpos : 0 < (opAt tr n).thread) (hle : (opAt tr n).thread ≤ k') :
    Scoped tr (n + 1) k' := by
  intro i hi
  rcases Nat.lt_succ_iff_lt_or_eq.mp hi with hlt | rfl
  · exact ⟨(h i hlt).1, (h i hlt).2.trans hk⟩
  · exact ⟨hpos, hle⟩

/-- The tick of a thread that learns nothing before it. -/
theorem Tracks.tick (h : Tracks tr n m) (ht : 0 < t) (hle : t ≤ m.threadCount)
    (hthread : (opAt tr n).thread = t) (hticks : (opAt tr n).ticks = true)
    (hspecial : specialEvents tr n = ∅)
    (hroom : ∀ i, (timeline tr).tickCount (n + 1) i < epochSize)
    (hok : m.tick t = .ok m') :
    Midway tr n t m' ∧ (∀ u, u ≠ t → m'.sync u = m.sync u) ∧
      m'.atomics = m.atomics ∧ m'.allocs = m.allocs ∧
      m'.nonAtomics = m.nonAtomics ∧ m'.threadCount = m.threadCount := by
  have hself := h.threads t ht
  have hscoped : Scoped tr (n + 1) m.threadCount :=
    h.wellScoped.succ (Nat.le_refl _) (hthread ▸ ht) (hthread ▸ hle)
  rw [← m.setSync_self t] at hok
  obtain ⟨current, rfl, hcur⟩ := tick_tracks hok hthread hticks hscoped
    hself.current (fun s hs => hs.1) (subset_past _) hself.epoch (hroom _)
  refine ⟨⟨hthread, hscoped, hspecial, ?_, ?_, ?_, ?_, h.atomics⟩,
    fun u hu => by simp [hu], rfl, rfl, rfl, rfl⟩
  · simpa using hcur
  · simpa using Represents.advance hself.release fun s hs => hs.1
  · simpa using Represents.advance hself.acquire observedEvents_lt
  · simp

theorem Tracks.exec_sync {a : Action} {value : Nat} (h : Tracks tr n m)
    (hop : opAt tr n = .sync t a) (ht : 0 < t) (hle : t ≤ m.threadCount)
    (hroom : ∀ i, (timeline tr).tickCount (n + 1) i < epochSize)
    (hok : m.syncCall t a = .ok (value, m')) : Tracks tr (n + 1) m' := by
  have hthread : (opAt tr n).thread = t := by rw [hop, Op.thread]
  have hspecial : specialEvents tr n = ∅ := by
    simp [specialEvents, SpecialEdge, hop]
  unfold Memory.syncCall at hok
  cases hticked : m.tick t with
  | error e =>
      rw [hticked] at hok
      cases hok
  | ok m₁ =>
      rw [hticked] at hok
      obtain ⟨hmid, hsync, hatomics, hallocs, _, hcount⟩ := h.tick ht hle hthread
        (by simp [hop, Op.ticks]) hspecial hroom hticked
      have hacted := hmid.acted hop hok
      have hcount' : m'.threadCount = m.threadCount :=
        hacted.threadCount.trans hcount
      apply h.step (Nat.le_of_eq hcount'.symm) (hthread ▸ ht)
      · rw [hthread, hcount']
        exact hle
      · intro u hu
        rw [hthread] at hu
        rw [hacted.others u hu, hsync u hu]
      · rw [hthread]
        exact hacted.thread
      · exact hacted.atomics
      · apply h.allocs.idle (hacted.allocs.trans hallocs)
        simp [hop, Op.frees]

end Operations

end TwistSim

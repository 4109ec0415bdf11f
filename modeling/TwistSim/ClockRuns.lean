/-
The invariant of the clocks along a run: one lemma for each kind of operation,
and induction over the run.
-/
import TwistSim.ClockSoundness

namespace TwistSim

variable {tr : List Op} {n t : Nat} {m m' : Memory}

/-- The child starts from what its parent knows. -/
theorem Tracks.exec_spawn {p : Nat} {m₁ : Memory} (h : Tracks tr n m)
    (hop : opAt tr n = .spawn p t) (hp : 0 < p) (hple : p ≤ m.threadCount)
    (ht : t = m.threadCount + 1)
    (hroom : ∀ i, (timeline tr).tickCount (n + 1) i < epochSize)
    (hcreate : m.createThread = .ok (t, m₁)) (hok : m₁.spawn p t = .ok m') :
    Tracks tr (n + 1) m' := by
  have hthread : (opAt tr n).thread = t := by rw [hop, Op.thread]
  have hfresh : m.threadCount < t := by omega
  have hslot : m.threadCount ≤ t - 1 := by omega
  have hm₁ : m₁ = { m with
      threadCount := m.threadCount + 1
      sync := Function.update m.sync (m.threadCount + 1) ThreadContext.init } := by
    unfold Memory.createThread at hcreate
    by_cases hlimit : m.threadCount < maxThreads
    · rw [if_pos hlimit] at hcreate
      cases hcreate
      rfl
    · rw [if_neg hlimit] at hcreate
      cases hcreate
  have hchild : m₁.sync t = ThreadContext.init := by
    rw [hm₁, ht]
    exact Function.update_self _ _ _
  have hothers : ∀ u, u ≠ t → m₁.sync u = m.sync u := by
    intro u hu
    rw [hm₁]
    rw [ht] at hu
    exact Function.update_of_ne hu _ _
  have hcount : m₁.threadCount = t := by rw [hm₁, ht]
  have hscoped : Scoped tr (n + 1) m₁.threadCount := by
    rw [hcount]
    exact h.wellScoped.succ (by omega) (by omega) (by omega)
  have hscoped' : Scoped tr n m₁.threadCount :=
    fun i hi => hscoped i (Nat.lt_succ_of_lt hi)
  have hnew : (timeline tr).Represents n
      (VectorClock.assign m₁.threadCount ThreadContext.init.current
        (m.sync p).current) (hbPast tr (ownEvents tr n p)) :=
    Represents.assign hscoped' (Timeline.Represents.zero n)
      (h.threads p hp).current
  have hown := ownEvents_beyond h.wellScoped hfresh
  have hparent : m₁.sync p = m.sync p := hothers p (by omega)
  -- The clocks of the child are clear before it is given its parent's.
  unfold Memory.spawn at hok
  rw [hchild, hparent] at hok
  obtain ⟨current, rfl, hcur⟩ := tick_tracks hok hthread
    (by simp [hop, Op.ticks]) hscoped hnew (fun s hs => hs.1)
    (by rw [hown]; exact Set.empty_subset _)
    (tickCount_beyond h.wellScoped hslot).symm (hroom _)
  have hpast : hbPast tr (ownEvents tr (n + 1) t) =
      insert n (hbPast tr (ownEvents tr n p)) := by
    have hself := @hbPast_ownEvents_self tr n
    have hspecial : specialEvents tr n = ownEvents tr n p := by
      simp [specialEvents, SpecialEdge, hop, ownEvents]
    rw [hthread, hown, hspecial, acquiredEvents_empty (by simp [hop, Op.acquires])]
      at hself
    simpa [hbPast, past_empty] using hself
  apply h.step
  · simp [hm₁]
  · omega
  · simp [hm₁, hthread, ht]
  · intro u hu
    rw [hthread] at hu
    simp [hu, hothers u hu]
  · rw [hthread]
    simp only [Memory.setSync_sync_self]
    refine ⟨?_, ?_, ?_, rfl⟩
    · rw [hpast]
      exact hcur
    · rw [releaseEvents_idle (Or.inr (by simp [hop, Op.releases])),
        releaseEvents_beyond h.wellScoped hfresh, hbPast, past_empty]
      exact Timeline.Represents.zero (n + 1)
    · rw [observedEvents_idle (Or.inr (by simp [hop, Op.isLoad])),
        observedEvents_beyond h.wellScoped hfresh, hbPast, past_empty]
      exact Timeline.Represents.zero (n + 1)
  · apply h.atomics.idle
    · rw [hm₁]
      rfl
    · simp [hop, Op.storesTo]
    · simp [hop, Op.startsOver]
  · apply h.allocs.idle
    · rw [hm₁]
      rfl
    · simp [hop, Op.frees]

/-- The waiter learns what the waker has released. -/
theorem Tracks.exec_wake {w : Nat} (h : Tracks tr n m)
    (hop : opAt tr n = .wake w t) (hw : 0 < w) (ht : 0 < t)
    (hle : t ≤ m.threadCount)
    (hroom : ∀ i, (timeline tr).tickCount (n + 1) i < epochSize)
    (hok : m.wake w t = .ok m') : Tracks tr (n + 1) m' := by
  have hthread : (opAt tr n).thread = t := by rw [hop, Op.thread]
  have hself := h.threads t ht
  have hscoped : Scoped tr (n + 1) m.threadCount :=
    h.wellScoped.succ (Nat.le_refl _) (hthread ▸ ht) (hthread ▸ hle)
  have hnew := Represents.join h.wellScoped hself.current (h.threads w hw).release
  rw [← past_union] at hnew
  have hlt : ∀ s ∈ ownEvents tr n t ∪ releaseEvents tr n w, s < n := by
    rintro s (hs | hs)
    · exact hs.1
    · exact hs.1
  unfold Memory.wake at hok
  obtain ⟨current, rfl, hcur⟩ := tick_tracks hok hthread
    (by simp [hop, Op.ticks]) hscoped hnew hlt
    (fun i hi => subset_past _ (Or.inl hi)) hself.epoch (hroom _)
  have hpast : hbPast tr (ownEvents tr (n + 1) t) =
      insert n (hbPast tr (ownEvents tr n t ∪ releaseEvents tr n w)) := by
    have hgrow := @hbPast_ownEvents_self tr n
    have hspecial : specialEvents tr n = releaseEvents tr n w := by
      simp [specialEvents, SpecialEdge, hop, releaseEvents]
    rw [hthread, hspecial, acquiredEvents_empty (by simp [hop, Op.acquires])]
      at hgrow
    simpa [hbPast, past_empty, past_union] using hgrow
  apply h.step
  · exact Nat.le_refl _
  · exact hthread ▸ ht
  · rw [hthread]
    exact hle
  · intro u hu
    rw [hthread] at hu
    simp [hu]
  · rw [hthread]
    simp only [Memory.setSync_sync_self]
    refine ⟨?_, ?_, ?_, rfl⟩
    · rw [hpast]
      exact hcur
    · rw [releaseEvents_idle (Or.inr (by simp [hop, Op.releases]))]
      exact Represents.advance hself.release fun s hs => hs.1
    · rw [observedEvents_idle (Or.inr (by simp [hop, Op.isLoad]))]
      exact Represents.advance hself.acquire observedEvents_lt
  · apply h.atomics.idle rfl <;> simp [hop, Op.storesTo, Op.startsOver]
  · apply h.allocs.idle rfl
    simp [hop, Op.frees]

/-- All that an access can do after its tick: report a race and change
nothing, or log itself in the variable.  An `Init` starts a new variable. -/
theorem accessNonAtomicVar_cases {access : Access} {race : Option OldAccess}
    (hok : m.accessNonAtomicVar t access = .ok (race, m')) :
    ∃ m₁, m.tick t = .ok m₁ ∧
      ((m' = m₁ ∧ ∃ var r, race = some r ∧
          m₁.nonAtomics access.loc = some var ∧
          m₁.checkDataRaces t var access = some r) ∨
        ∃ var', race = none ∧ m' = m₁.setNonAtomic access.loc var' ∧
          (∀ var, m₁.nonAtomics access.loc = some var →
            m₁.checkDataRaces t var access = none) ∧
          ((access.type = .init ∧ var' = (NonAtomicVar.init access.sourceLoc).log
              (m₁.currAccess t access)) ∨
            ∃ var dtor, m₁.nonAtomics access.loc = some var ∧
              var' = { var with dtor := dtor }.log (m₁.currAccess t access))) := by
  unfold Memory.accessNonAtomicVar at hok
  cases hticked : m.tick t with
  | error e =>
      rw [hticked] at hok
      cases hok
  | ok m₁ =>
      rw [hticked] at hok
      refine ⟨m₁, rfl, ?_⟩
      simp only at hok
      by_cases hinit : access.type = .init
      · rw [if_pos hinit] at hok
        unfold Memory.initNonAtomicVar Memory.invalidAccess at hok
        cases hvar : m₁.nonAtomics access.loc with
        | none =>
            simp only [hvar] at hok
            cases hok
            exact Or.inr ⟨_, rfl, rfl, fun _ h => (by cases h),
              Or.inl ⟨hinit, rfl⟩⟩
        | some var =>
            simp only [hvar] at hok
            split at hok
            · cases hok
            · cases hrace : m₁.checkDataRaces t var access with
              | none =>
                  simp only [hrace] at hok
                  cases hok
                  refine Or.inr ⟨_, rfl, rfl, ?_, Or.inl ⟨hinit, rfl⟩⟩
                  rintro _ ⟨⟩
                  exact hrace
              | some r =>
                  simp only [hrace] at hok
                  cases hok
                  exact Or.inl ⟨rfl, var, r, rfl, rfl, hrace⟩
      · rw [if_neg hinit] at hok
        unfold Memory.accessLiveNonAtomicVar Memory.invalidAccess at hok
        cases hvar : m₁.nonAtomics access.loc with
        | none =>
            simp only [hvar] at hok
            cases hok
        | some var =>
            simp only [hvar] at hok
            cases hrace : m₁.checkDataRaces t var access with
            | none =>
                simp only [hrace] at hok
                cases hok
                refine Or.inr ⟨_, rfl, rfl, ?_, Or.inr ?_⟩
                · rintro _ ⟨⟩
                  exact hrace
                · by_cases hdestroy : access.type = .destroy
                  · exact ⟨var, some (m₁.currAccess t access), rfl,
                      by rw [if_pos hdestroy]⟩
                  · exact ⟨var, var.dtor, rfl, by rw [if_neg hdestroy]⟩
            | some r =>
                simp only [hrace] at hok
                cases hok
                exact Or.inl ⟨rfl, var, r, rfl, rfl, hrace⟩

/-- An access changes no clock after its tick. -/
theorem accessNonAtomicVar_frame {access : Access} {race : Option OldAccess}
    (hok : m.accessNonAtomicVar t access = .ok (race, m')) :
    ∃ m₁, m.tick t = .ok m₁ ∧ m'.sync = m₁.sync ∧ m'.atomics = m₁.atomics ∧
      m'.allocs = m₁.allocs ∧ m'.threadCount = m₁.threadCount := by
  obtain ⟨m₁, hticked, ⟨rfl, _⟩ | ⟨_, _, rfl, _⟩⟩ := accessNonAtomicVar_cases hok
  · exact ⟨m', hticked, rfl, rfl, rfl, rfl⟩
  · exact ⟨m₁, hticked, rfl, rfl, rfl, rfl⟩

theorem Tracks.exec_access {access : Access} {race : Option OldAccess}
    (h : Tracks tr n m) (hop : opAt tr n = .access t access) (ht : 0 < t)
    (hle : t ≤ m.threadCount)
    (hroom : ∀ i, (timeline tr).tickCount (n + 1) i < epochSize)
    (hok : m.accessNonAtomicVar t access = .ok (race, m')) :
    Tracks tr (n + 1) m' := by
  have hthread : (opAt tr n).thread = t := by rw [hop, Op.thread]
  obtain ⟨m₁, hticked, hsync, hatomics, hallocs, hcount⟩ :=
    accessNonAtomicVar_frame hok
  obtain ⟨hmid, hothers, hatomics₁, hallocs₁, _, hcount₁⟩ := h.tick ht hle hthread
    (by simp [hop, Op.ticks]) (by simp [specialEvents, SpecialEdge, hop]) hroom
    hticked
  have hcount' := hcount.trans hcount₁
  apply h.step (Nat.le_of_eq hcount'.symm) (hthread ▸ ht)
  · rw [hthread, hcount']
    exact hle
  · intro u hu
    rw [hthread] at hu
    rw [hsync, hothers u hu]
  · rw [hthread, hsync]
    apply hmid.keep <;> simp [hop, Op.acquires, Op.releases, Op.isLoad]
  · apply h.atomics.idle (hatomics.trans hatomics₁) <;>
      simp [hop, Op.storesTo, Op.startsOver]
  · apply h.allocs.idle (hallocs.trans hallocs₁)
    simp [hop, Op.frees]

/-- Neither `Malloc` nor `Free` ticks. -/
theorem tickCount_idle (hticks : (opAt tr n).ticks = false) (i : Nat) :
    (timeline tr).tickCount (n + 1) i = (timeline tr).tickCount n i := by
  have hnot : ¬ ((timeline tr).ticks n = true ∧ (timeline tr).thread n = i) := by
    rintro ⟨hyes, _⟩
    change (opAt tr n).ticks = true at hyes
    rw [hticks] at hyes
    cases hyes
  rw [Timeline.tickCount, if_neg hnot, Nat.add_zero]

/-- A `Malloc` learns what was known at the last `Free` of the address. -/
theorem Tracks.exec_malloc {addr : Addr} {size : Nat}
    {scope : Option SourceLocation} (h : Tracks tr n m)
    (hop : opAt tr n = .malloc t addr size scope) (ht : 0 < t)
    (hle : t ≤ m.threadCount) :
    Tracks tr (n + 1) (m.malloc t addr size scope) := by
  have hthread : (opAt tr n).thread = t := by rw [hop, Op.thread]
  have hticks : (timeline tr).ticks n = false := by simp [timeline, hop, Op.ticks]
  have hself := h.threads t ht
  have hnew := Represents.join h.wellScoped hself.current (h.allocs addr)
  rw [← past_union] at hnew
  have hlt : ∀ s ∈ ownEvents tr n t ∪ freedEvents tr n addr, s < n := by
    rintro s (hs | hs)
    · exact hs.1
    · exact hs.1
  have hcur := (Represents.advance hnew hlt).insert_idle hticks
  have hpast : hbPast tr (ownEvents tr (n + 1) t) =
      insert n (hbPast tr (ownEvents tr n t ∪ freedEvents tr n addr)) := by
    have hgrow := @hbPast_ownEvents_self tr n
    have hspecial : specialEvents tr n = freedEvents tr n addr := by
      simp [specialEvents, SpecialEdge, hop, freedEvents]
    rw [hthread, hspecial, acquiredEvents_empty (by simp [hop, Op.acquires])]
      at hgrow
    simpa [hbPast, past_empty, past_union] using hgrow
  apply h.step
  · exact Nat.le_refl _
  · exact hthread ▸ ht
  · rw [hthread]
    exact hle
  · intro u hu
    rw [hthread] at hu
    simp [Memory.malloc, hu]
  · rw [hthread]
    simp only [Memory.malloc, Memory.setSync_sync_self, Memory.setAlloc_sync,
      Memory.setAlloc_threadCount]
    refine ⟨?_, ?_, ?_, ?_⟩
    · rw [hpast]
      exact hcur
    · rw [releaseEvents_idle (Or.inr (by simp [hop, Op.releases]))]
      exact Represents.advance hself.release fun s hs => hs.1
    · rw [observedEvents_idle (Or.inr (by simp [hop, Op.isLoad]))]
      exact Represents.advance hself.acquire observedEvents_lt
    · rw [tickCount_idle (by simp [hop, Op.ticks])]
      exact hself.epoch
  · apply h.atomics.idle rfl <;> simp [hop, Op.storesTo, Op.startsOver]
  · intro addr'
    rw [freedEvents_idle (by simp [hop, Op.frees])]
    have hold := Represents.advance (h.allocs addr') fun s hs => hs.1
    by_cases haddr : addr' = addr
    · subst haddr
      simpa [Memory.malloc, Memory.getShadowAllocation] using hold
    · simpa [Memory.malloc, Memory.getShadowAllocation, haddr] using hold

/-- A `Free` leaves behind what its thread knows. -/
theorem Tracks.exec_free {addr : Addr} (h : Tracks tr n m)
    (hop : opAt tr n = .free t addr) (ht : 0 < t) (hle : t ≤ m.threadCount) :
    Tracks tr (n + 1) (m.free t addr) := by
  have hthread : (opAt tr n).thread = t := by rw [hop, Op.thread]
  have hticks : (timeline tr).ticks n = false := by simp [timeline, hop, Op.ticks]
  have hself := h.threads t ht
  have hcur :=
    (Represents.advance hself.current fun s hs => hs.1).insert_idle hticks
  have hpast : hbPast tr (ownEvents tr (n + 1) t) =
      insert n (hbPast tr (ownEvents tr n t)) := by
    have hgrow := @hbPast_ownEvents_self tr n
    have hspecial : specialEvents tr n = ∅ := by
      simp [specialEvents, SpecialEdge, hop]
    rw [hthread, hspecial, acquiredEvents_empty (by simp [hop, Op.acquires])]
      at hgrow
    simpa [hbPast, past_empty] using hgrow
  rw [← hpast] at hcur
  have hscoped : Scoped tr (n + 1) m.threadCount :=
    h.wellScoped.succ (Nat.le_refl _) (hthread ▸ ht) (hthread ▸ hle)
  apply h.step
  · exact Nat.le_refl _
  · exact hthread ▸ ht
  · rw [hthread]
    exact hle
  · intro u _
    rfl
  · rw [hthread]
    refine ⟨hcur, ?_, ?_, ?_⟩
    · rw [releaseEvents_idle (Or.inr (by simp [hop, Op.releases]))]
      exact Represents.advance hself.release fun s hs => hs.1
    · rw [observedEvents_idle (Or.inr (by simp [hop, Op.isLoad]))]
      exact Represents.advance hself.acquire observedEvents_lt
    · rw [tickCount_idle (by simp [hop, Op.ticks])]
      exact hself.epoch
  · apply h.atomics.idle rfl <;> simp [hop, Op.storesTo, Op.startsOver]
  · intro addr'
    have hold := Represents.advance (h.allocs addr') fun s hs => hs.1
    by_cases haddr : addr' = addr
    · subst haddr
      rw [freedEvents_free (by simp [hop, Op.frees]), hbPast_singleton, hthread]
      simpa [Memory.free, Memory.getShadowAllocation] using
        Represents.assign hscoped hold hcur
    · rw [freedEvents_idle (by simp [hop, Op.frees, Ne.symm haddr])]
      simpa [Memory.free, Memory.getShadowAllocation, haddr] using hold

/-- Every operation keeps the clocks meaningful. -/
theorem Tracks.exec {race : Option OldAccess} (h : Tracks tr n m)
    (hroom : ∀ i, (timeline tr).tickCount (n + 1) i < epochSize)
    (hok : m.exec (opAt tr n) = .ok (race, m')) : Tracks tr (n + 1) m' := by
  unfold Memory.exec at hok
  by_cases hscoped : (opAt tr n).wellScoped m.threadCount = true
  · rw [if_pos hscoped] at hok
    cases hop : opAt tr n with
    | spawn p c =>
        simp only [hop, Op.wellScoped, decide_eq_true_eq] at hscoped hok
        obtain ⟨hp, hple, hc⟩ := hscoped
        cases hcreate : m.createThread with
        | error e =>
            rw [hcreate] at hok
            cases hok
        | ok created =>
            obtain ⟨id, m₁⟩ := created
            have hid : id = c := by
              unfold Memory.createThread at hcreate
              split at hcreate <;> cases hcreate
              exact hc.symm
            subst hid
            rw [hcreate] at hok
            obtain ⟨m₂, hspawn, heq⟩ := map_eq_ok hok
            cases heq
            exact h.exec_spawn hop hp hple hc hroom hcreate hspawn
    | wake w u =>
        simp only [hop, Op.wellScoped, decide_eq_true_eq] at hscoped hok
        obtain ⟨hw, _, hu, hule⟩ := hscoped
        obtain ⟨m₂, hwake, heq⟩ := map_eq_ok hok
        cases heq
        exact h.exec_wake hop hw hu hule hroom hwake
    | sync u a =>
        simp only [hop, Op.wellScoped, Op.thread] at hscoped hok
        obtain ⟨hu, hule⟩ := of_decide_eq_true hscoped
        obtain ⟨⟨value, m₂⟩, hsync, heq⟩ := map_eq_ok hok
        cases heq
        exact h.exec_sync hop hu hule hroom hsync
    | access u a =>
        simp only [hop, Op.wellScoped, Op.thread] at hscoped hok
        obtain ⟨hu, hule⟩ := of_decide_eq_true hscoped
        exact h.exec_access hop hu hule hroom hok
    | malloc u addr size scope =>
        simp only [hop, Op.wellScoped, Op.thread] at hscoped hok
        obtain ⟨hu, hule⟩ := of_decide_eq_true hscoped
        cases hok
        exact h.exec_malloc hop hu hule
    | free u addr =>
        simp only [hop, Op.wellScoped, Op.thread] at hscoped hok
        obtain ⟨hu, hule⟩ := of_decide_eq_true hscoped
        cases hok
        exact h.exec_free hop hu hule
  · rw [if_neg hscoped] at hok
    cases hok

/-- At the start nothing has happened. -/
theorem Tracks.start : Tracks tr 0 Memory.start := by
  have hzero : ∀ S : Set Nat, (timeline tr).Represents 0 VectorClock.init S :=
    fun S => ⟨fun _ => Nat.zero_le _, fun i hi => absurd hi (Nat.not_lt_zero i)⟩
  refine ⟨fun i hi => absurd hi (Nat.not_lt_zero i), ?_, ?_, fun _ => hzero _⟩
  · exact fun t _ => ⟨hzero _, hzero _, hzero _, rfl⟩
  · intro loc atomic hatomic
    cases hatomic

end TwistSim

/-
What the critical sections of a `shared_mutex` know of the earlier ones.  `Lock`
and `LockShared` acquire by the load that comes before their compare-exchange, so
that a release between the two goes unnoticed when the word comes back.
-/
import TwistSim.SharedMutex

namespace TwistSim

namespace SharedMutex

variable {v : SyncVar} {guarded : Addr → Bool} {s s' : State} {t : ThreadId}

/-- No conflicting section was released since the thread loaded the state. -/
def Method.UpToDate (method : Method) (seen now : Seen) : Prop :=
  match method with
  | .lock => seen = now
  | .lockShared | .tryLockShared => seen.unlocks = now.unlocks

instance (method : Method) (seen now : Seen) : Decidable (method.UpToDate seen now) := by
  unfold Method.UpToDate
  cases method <;> infer_instance

/-- A thread whose compare-exchange of `Lock` or `LockShared` succeeds has missed
nothing since its load. -/
def State.MissedNothing (s : State) (t : ThreadId) : Prop :=
  match s.pc t with
  | .casCommitting method _ seen => method.UpToDate seen s.seen
  | _ => True

instance (s : State) (t : ThreadId) : Decidable (s.MissedNothing t) := by
  unfold State.MissedNothing
  cases s.pc t <;> infer_instance

/-- Nobody has missed anything, and no clock is about to overflow. -/
def State.Fresh (s : State) : Prop :=
  s.memory.Roomy ∧ ∀ t < s.memory.threadCount + 1, s.MissedNothing t

instance (s : State) : Decidable s.Fresh := by
  unfold State.Fresh
  infer_instance

/-- What a thread knows that has loaded the state, as long as there is no writer and
nothing was released since. -/
structure View (s : State) (u : ThreadId) (method : Method) (seen : Seen) : Prop where
  unlocks : seen.unlocks ≤ s.seen.unlocks
  sharedUnlocks : seen.sharedUnlocks ≤ s.seen.sharedUnlocks
  exclusive : (∀ w, (s.pc w).writing = false) → seen.unlocks = s.seen.unlocks →
    ∀ a ∈ s.exclusive, s.memory.Knows u a
  shared : (∀ w, (s.pc w).writing = false) → seen = s.seen → method = .lock →
    ∀ a ∈ s.shared, s.memory.Knows u a ∨ (s.pc a.thread).reading = true

/-- Between the load and the commit of a compare-exchange. -/
def Pc.Views (pc : Pc) (method : Method) (seen : Seen) : Prop :=
  ∃ expected, pc = .casLoading method expected seen ∨
    pc = .casCommitting method expected seen

/-- What the threads know of the accesses made so far. -/
structure Ordered (v : SyncVar) (guarded : Addr → Bool) (s : State) : Prop where
  own : s.memory.OwnEpochs
  attributed : ∀ a, a ∈ s.exclusive ∨ a ∈ s.shared ∨ a ∈ s.alone → s.memory.Attributed a
  raw : s.constructed = false → s.exclusive = [] ∧ s.shared = []
  early : ∀ a ∈ s.alone, ∀ u ≤ s.memory.threadCount, 0 < u → s.memory.Knows u a
  byOwner : ∀ a ∈ s.shared, s.memory.Knows a.thread a
  freeExclusive : s.constructed = true → (∀ u, (s.pc u).writing = false) →
    ∀ a ∈ s.exclusive, s.memory.Carries v.loc a
  freeShared : s.constructed = true → (∀ u, (s.pc u).writing = false) →
    ∀ a ∈ s.shared, s.memory.Carries v.loc a ∨ (s.pc a.thread).reading = true
  writer : ∀ u, (s.pc u).writing = true →
    ∀ a, a ∈ s.exclusive ∨ a ∈ s.shared → s.memory.Knows u a
  reader : ∀ u, (s.pc u).reading = true → ∀ a ∈ s.exclusive, s.memory.Knows u a
  views : ∀ u method seen, (s.pc u).Views method seen → View s u method seen
  fenced : ∀ u, s.pc u = .tryFencing →
    ∀ a, a ∈ s.exclusive ∨ a ∈ s.shared → s.memory.Observed u a
  tried : ∀ u, s.pc u = .tryCommitting →
    ∀ a, a ∈ s.exclusive ∨ a ∈ s.shared → s.memory.Knows u a
  remembered : ∀ loc, guarded loc = true → s.memory.Remembers loc
    (fun a => a ∈ s.exclusive ∨ a ∈ s.alone)
    (fun a => a ∈ s.exclusive ∨ a ∈ s.shared ∨ a ∈ s.alone)

theorem Ordered.start : Ordered v guarded State.start where
  own _ _ := Nat.zero_le _
  attributed a ha := by rcases ha with ha | ha | ha <;> exact absurd ha List.not_mem_nil
  raw _ := ⟨rfl, rfl⟩
  early a ha := absurd ha List.not_mem_nil
  byOwner a ha := absurd ha List.not_mem_nil
  freeExclusive h := absurd h Bool.false_ne_true
  freeShared h := absurd h Bool.false_ne_true
  writer u h := absurd h Bool.false_ne_true
  reader u h := absurd h Bool.false_ne_true
  views u method seen h := by
    obtain ⟨expected, h | h⟩ := h <;> exact Pc.noConfusion h
  fenced u h := Pc.noConfusion h
  tried u h := Pc.noConfusion h
  remembered loc _ var hvar := by cases hvar

section Order

variable {pc : Pc} {m : Memory}

theorem writing_ne_outside (h : pc.writing = true) : pc ≠ .outside := by
  rintro rfl
  cases h

theorem reading_ne_outside (h : pc.reading = true) : pc ≠ .outside := by
  rintro rfl
  cases h

theorem views_ne_outside {method : Method} {seen : Seen} (h : pc.Views method seen) :
    pc ≠ .outside := by
  obtain ⟨expected, rfl | rfl⟩ := h <;> exact Pc.noConfusion

/-- Who reads is counted. -/
theorem Safe.unread (h : Safe v s) (hnone : s.readers = 0) (u : ThreadId) :
    (s.pc u).reading = false := by
  refine Bool.eq_false_of_not_eq_true fun hu => ?_
  have hpos := (Memory.hasThread_iff.mp (h.fresh u (reading_ne_outside hu))).1
  have := @tally_pos (fun u => (s.pc u).reading) _ u hu hpos (h.reading_le hu)
  exact absurd hnone (Nat.ne_of_gt this)

/-- Nobody holds the mutex: the word carries everything. -/
theorem Ordered.carried (h : Safe v s) (ho : Ordered v guarded s)
    (hbuilt : s.constructed = true) (hword : s.memory.Word v.loc (pack false 0)) (a)
    (ha : a ∈ s.exclusive ∨ a ∈ s.shared) : s.memory.Carries v.loc a := by
  have hunwritten := h.unwritten hword rfl
  have hunread := h.unread (h.readers_eq hbuilt (by decide) hword)
  rcases ha with ha | ha
  · exact ho.freeExclusive hbuilt hunwritten a ha
  · refine (ho.freeShared hbuilt hunwritten a ha).resolve_right fun hreading => ?_
    rw [hunread] at hreading
    cases hreading

/-- What a thread learns in a turn in which it does not get the mutex. -/
structure Pass.Learns (v : SyncVar) (s : State) (t : ThreadId) (pc : Pc) (m : Memory) :
    Prop where
  grows : s.memory.Grows m
  nonAtomics : m.nonAtomics = s.memory.nonAtomics
  views : ∀ method seen, pc.Views method seen →
    (s.pc t).Views method seen ∨ seen = s.seen ∧
      (∀ w, (s.pc w).writing = false) ∧ (∀ a ∈ s.exclusive, m.Knows t a) ∧
      (method = .lock → ∀ a ∈ s.shared, m.Knows t a)
  fenced : pc = .tryFencing → ∀ a, a ∈ s.exclusive ∨ a ∈ s.shared → m.Observed t a
  tried : pc = .tryCommitting → ∀ a, a ∈ s.exclusive ∨ a ∈ s.shared → m.Knows t a

theorem Pass.learns (h : Safe v s) (ho : Ordered v guarded s) (hroomy : s.memory.Roomy)
    (hbuilt : s.constructed = true) (hpass : Pass v s t pc m) :
    Pass.Learns v s t pc m := by
  have hplain : ∀ {m : Memory} {pc : Pc}, s.memory.Grows m →
      m.nonAtomics = s.memory.nonAtomics →
      (∀ method seen, ¬ pc.Views method seen) →
      pc ≠ .tryFencing → pc ≠ .tryCommitting → Pass.Learns v s t pc m :=
    fun hgrows hnon hviews hfence hcommit =>
      ⟨hgrows, hnon, fun method seen hv => absurd hv (hviews method seen),
        fun heq => absurd heq hfence, fun heq => absurd heq hcommit⟩
  cases hpass with
  | call _ | tryLock _ | unlock _ | unlockShared _ | retry _ =>
      exact hplain (Memory.Grows.refl _) rfl (by simp [Pc.Views]) Pc.noConfusion
        Pc.noConfusion
  | park _ hreply _ _ | fail _ hreply _ | casFails _ hreply | tryFails _ hreply
  | unlockLoad _ hreply =>
      exact hplain (Memory.reply_grows hroomy hreply) (Memory.reply_nonAtomics hreply)
        (by simp [Pc.Views]) Pc.noConfusion Pc.noConfusion
  | @load method state m hpc hreply hadmits =>
      obtain ⟨hword, -, hlearns⟩ :=
        Memory.load_spec (Memory.reply_ok hreply).2 (Or.inl rfl)
      refine ⟨Memory.reply_grows hroomy hreply, Memory.reply_nonAtomics hreply,
        fun method' seen hviews => Or.inr ?_, Pc.noConfusion, Pc.noConfusion⟩
      obtain ⟨expected, heq | heq⟩ := hviews
      · cases heq
        have hunwritten : ∀ w, (s.pc w).writing = false := by
          refine h.unwritten hword ?_
          cases method <;> simp [Method.admits] at hadmits <;> simp [hadmits]
        refine ⟨rfl, hunwritten, fun a ha => ?_, ?_⟩
        · exact (hlearns a (ho.attributed a (Or.inl ha))
            (ho.freeExclusive hbuilt hunwritten a ha)).2 rfl
        · rintro rfl a ha
          obtain rfl := admits_lock hadmits
          exact (hlearns a (ho.attributed a (Or.inr (Or.inl ha)))
            (ho.carried h hbuilt hword a (Or.inr ha))).2 rfl
      · cases heq
  | casLoad hpc hreply =>
      refine ⟨Memory.reply_grows hroomy hreply, Memory.reply_nonAtomics hreply,
        fun method' seen hviews => Or.inl ?_, Pc.noConfusion, Pc.noConfusion⟩
      obtain ⟨expected, heq | heq⟩ := hviews
      · cases heq
      · cases heq
        exact ⟨_, Or.inl hpc⟩
  | tryLoad _ hreply =>
      obtain ⟨hword, -, hlearns⟩ :=
        Memory.load_spec (Memory.reply_ok hreply).2 (Or.inr rfl)
      refine ⟨Memory.reply_grows hroomy hreply, Memory.reply_nonAtomics hreply,
        fun _ _ hviews => by simp [Pc.Views] at hviews, fun _ a ha => ?_,
        Pc.noConfusion⟩
      refine (hlearns a (ho.attributed a ?_) (ho.carried h hbuilt hword a ha)).1
      rcases ha with ha | ha
      · exact Or.inl ha
      · exact Or.inr (Or.inl ha)
  | tryFence hpc hreply =>
      obtain ⟨-, hlearns⟩ := Memory.fence_spec (Memory.reply_ok hreply).2 rfl rfl
      refine ⟨Memory.reply_grows hroomy hreply, Memory.reply_nonAtomics hreply,
        fun _ _ hviews => by simp [Pc.Views] at hviews, Pc.noConfusion,
        fun _ a ha => ?_⟩
      refine hlearns a (ho.attributed a ?_) (ho.fenced t hpc a ha)
      rcases ha with ha | ha
      · exact Or.inl ha
      · exact Or.inr (Or.inl ha)

theorem Ordered.pass (h : Safe v s) (ho : Ordered v guarded s) (hroomy : s.memory.Roomy)
    (hbuilt : s.constructed = false → s.pc t ≠ .outside) (hpass : Pass v s t pc m) :
    Ordered v guarded { s.goto t pc with memory := m } := by
  have hconstructed : s.constructed = true := by
    by_contra hraw
    have hfalse := Bool.eq_false_of_not_eq_true hraw
    exact hbuilt hfalse (h.raw hfalse t)
  obtain ⟨hgrows, hnon, hviews, hfenced, htried⟩ :=
    hpass.learns h ho hroomy hconstructed
  obtain ⟨hwriting, hreading, -⟩ := hpass.shifts
  have hsame : m.atomics v.loc = s.memory.atomics v.loc := congrFun hpass.atomics _
  have hwrite : ∀ u, ((s.goto t pc).pc u).writing = (s.pc u).writing :=
    update_cases (P := fun u (pc : Pc) => pc.writing = (s.pc u).writing) hwriting
      fun _ _ => rfl
  have hread : ∀ u, ((s.goto t pc).pc u).reading = (s.pc u).reading :=
    update_cases (P := fun u (pc : Pc) => pc.reading = (s.pc u).reading) hreading
      fun _ _ => rfl
  have hcount := hpass.threadCount
  have hkept : ∀ u method seen, (s.pc u).Views method seen →
      View { s.goto t pc with memory := m } u method seen := by
    intro u method seen hv
    obtain ⟨hle, hle', hex, hsh⟩ := ho.views u method seen hv
    have hu := h.le (views_ne_outside hv)
    refine ⟨hle, hle', fun hfree heq a ha => ?_, fun hfree heq hlock a ha => ?_⟩
    · exact hgrows.knows hu (hex (fun w => hwrite w ▸ hfree w) heq a ha)
    · rw [hread]
      exact (hsh (fun w => hwrite w ▸ hfree w) heq hlock a ha).imp_left (hgrows.knows hu)
  exact {
    own := hgrows.own ho.own
    attributed := fun a ha => hgrows.attributed (ho.attributed a ha)
    raw := ho.raw
    early := fun a ha u hu hpos =>
      hgrows.knows (hcount ▸ hu) (ho.early a ha u (hcount ▸ hu) hpos)
    byOwner := fun a ha =>
      hgrows.knows (ho.attributed a (Or.inr (Or.inl ha))).2 (ho.byOwner a ha)
    freeExclusive := fun _ hfree a ha =>
      (ho.freeExclusive hconstructed (fun u => hwrite u ▸ hfree u) a ha).congr hsame
    freeShared := fun _ hfree a ha => by
      rw [hread]
      exact (ho.freeShared hconstructed (fun u => hwrite u ▸ hfree u) a ha).imp_left
        fun hcarries => hcarries.congr hsame
    writer := fun u hu a ha => by
      have hu' : (s.pc u).writing = true := hwrite u ▸ hu
      exact hgrows.knows (h.le (writing_ne_outside hu')) (ho.writer u hu' a ha)
    reader := fun u hu a ha => by
      have hu' : (s.pc u).reading = true := hread u ▸ hu
      exact hgrows.knows (h.le (reading_ne_outside hu')) (ho.reader u hu' a ha)
    views := by
      refine update_cases (P := fun u (pc' : Pc) => ∀ method seen,
        pc'.Views method seen → View { s.goto t pc with memory := m } u method seen) ?_
        fun u _ => hkept u
      intro method seen hv
      rcases hviews method seen hv with hold | ⟨rfl, hunwritten, hex, hsh⟩
      · exact hkept t method seen hold
      · exact ⟨Nat.le_refl _, Nat.le_refl _, fun _ _ => hex,
          fun _ _ hlock a ha => Or.inl (hsh hlock a ha)⟩
    fenced := update_cases
      (P := fun u (pc : Pc) => pc = .tryFencing →
        ∀ a, a ∈ s.exclusive ∨ a ∈ s.shared → m.Observed u a) hfenced
      fun u _ hu a ha =>
        hgrows.observed (h.le (by rw [hu]; exact Pc.noConfusion)) (ho.fenced u hu a ha)
    tried := update_cases
      (P := fun u (pc : Pc) => pc = .tryCommitting →
        ∀ a, a ∈ s.exclusive ∨ a ∈ s.shared → m.Knows u a) htried
      fun u _ hu a ha =>
        hgrows.knows (h.le (by rw [hu]; exact Pc.noConfusion)) (ho.tried u hu a ha)
    remembered := fun loc hloc => (ho.remembered loc hloc).congr (congrFun hnon loc) }

/-- The access that the operation adds to one of the lists. -/
def Noted (s : State) (m : Memory) (op : Op) (p : Pc → Bool) (a : OldAccess) : Prop :=
  ∃ t access, op = .access t access ∧ a = m.currAccess t access ∧ p (s.pc t) = true

theorem note_exclusive {op : Op} {a : OldAccess} (ha : a ∈ (s.note m op).exclusive) :
    a ∈ s.exclusive ∨ Noted s m op Pc.writing a := by
  unfold State.note at ha
  split at ha
  · rename_i t access
    dsimp only at ha
    split at ha
    · exact Or.inl ha
    · split at ha
      · rename_i hwriting
        rcases List.mem_cons.mp ha with rfl | ha
        · exact Or.inr ⟨t, access, rfl, rfl, hwriting⟩
        · exact Or.inl ha
      · split at ha <;> exact Or.inl ha
  · exact Or.inl ha

theorem note_shared {op : Op} {a : OldAccess} (ha : a ∈ (s.note m op).shared) :
    a ∈ s.shared ∨ Noted s m op Pc.reading a := by
  unfold State.note at ha
  split at ha
  · rename_i t access
    dsimp only at ha
    split at ha
    · exact Or.inl ha
    · split at ha
      · exact Or.inl ha
      · split at ha
        · rename_i hreading
          rcases List.mem_cons.mp ha with rfl | ha
          · exact Or.inr ⟨t, access, rfl, rfl, hreading⟩
          · exact Or.inl ha
        · exact Or.inl ha
  · exact Or.inl ha

theorem note_alone {op : Op} {a : OldAccess} (ha : a ∈ (s.note m op).alone) :
    a ∈ s.alone ∨ m.threadCount = 1 ∧ Noted s m op (fun _ => true) a := by
  unfold State.note at ha
  split at ha
  · rename_i t access
    dsimp only at ha
    split at ha
    · rename_i hone
      rcases List.mem_cons.mp ha with rfl | ha
      · exact Or.inr ⟨hone, t, access, rfl, rfl, rfl⟩
      · exact Or.inl ha
    · split at ha
      · exact Or.inl ha
      · split at ha <;> exact Or.inl ha
  · exact Or.inl ha

/-- The lists only grow. -/
theorem note_mono (s : State) (m : Memory) (op : Op) :
    (∀ a ∈ s.exclusive, a ∈ (s.note m op).exclusive) ∧
      (∀ a ∈ s.shared, a ∈ (s.note m op).shared) ∧
      ∀ a ∈ s.alone, a ∈ (s.note m op).alone := by
  unfold State.note
  split
  · dsimp only
    split
    · exact ⟨fun _ => id, fun _ => id, fun _ => List.mem_cons_of_mem _⟩
    · split
      · exact ⟨fun _ => List.mem_cons_of_mem _, fun _ => id, fun _ => id⟩
      · split
        · exact ⟨fun _ => id, fun _ => List.mem_cons_of_mem _, fun _ => id⟩
        · exact ⟨fun _ => id, fun _ => id, fun _ => id⟩
  · exact ⟨fun _ => id, fun _ => id, fun _ => id⟩

theorem note_seen (s : State) (m : Memory) (op : Op) : (s.note m op).seen = s.seen := by
  unfold State.note
  split
  · dsimp only
    split
    · rfl
    · split
      · rfl
      · split <;> rfl
  · rfl

/-- An access that respects the locking is in the right list. -/
theorem note_locked {u : ThreadId} {access : Access}
    (hcount : m.threadCount = s.memory.threadCount)
    (hguarded : guarded access.loc = true)
    (hlocked : s.locked guarded (.access u access) = true) :
    if isRead access.type = true
    then m.currAccess u access ∈ (s.note m (.access u access)).exclusive ∨
      m.currAccess u access ∈ (s.note m (.access u access)).shared ∨
      m.currAccess u access ∈ (s.note m (.access u access)).alone
    else m.currAccess u access ∈ (s.note m (.access u access)).exclusive ∨
      m.currAccess u access ∈ (s.note m (.access u access)).alone := by
  simp only [State.locked, hguarded, Bool.not_true, Bool.false_or, Bool.or_eq_true,
    Bool.and_eq_true, beq_iff_eq] at hlocked
  rw [State.note]
  by_cases hone : m.threadCount = 1
  · simp only [hone, if_true, List.mem_cons, true_or, or_true, ite_self]
  · rcases hlocked with (hsingle | hwriting) | ⟨hreading, hread⟩
    · exact absurd (hcount.trans hsingle) hone
    · simp only [hone, hwriting, if_false, if_true, List.mem_cons, true_or, ite_self]
    · by_cases hwriting : (s.pc u).writing = true
      · simp only [hone, hwriting, if_false, if_true, List.mem_cons, true_or, ite_self]
      · simp only [hone, hwriting, hreading, hread, Bool.false_eq_true, if_false,
          if_true, List.mem_cons, true_or, or_true]

theorem Ordered.user {op : Op} (h : Safe v s) (ho : Ordered v guarded s)
    (hroomy : s.memory.Roomy) (hrun : s.MayRun op.performer)
    (htouch : Memory.touches v.loc op = false) (hlocked : s.locked guarded op = true)
    (hperform : s.memory.perform op = some m) :
    Ordered v guarded (s.note m op) := by
  have hgrows := Memory.perform_grows hroomy hperform
  have hpc := note_pc s m op
  have hmem := note_memory s m op
  have hseen := note_seen s m op
  have hsame : m.atomics v.loc = s.memory.atomics v.loc :=
    Memory.exec_atomics htouch (Memory.perform_ok hperform)
  obtain ⟨hex, hsh, hal⟩ := note_mono s m op
  have hthread : ∀ u access, op = .access u access → 0 < u ∧ u ≤ m.threadCount := by
    rintro u access rfl
    exact Memory.hasThread_iff.mp (Memory.hasThread.mono hrun.1 hgrows.threadCount)
  have hself : ∀ u access, op = .access u access → m.Knows u (m.currAccess u access) :=
    fun u access hop =>
      (hgrows.own ho.own).knows_currAccess (hthread u access hop).2 access
  have hnoNew : (∀ u, (s.pc u).writing = false) →
      ∀ a ∈ (s.note m op).exclusive, a ∈ s.exclusive := by
    intro hfree a ha
    rcases note_exclusive ha with ha | ⟨u, _, _, _, hu⟩
    · exact ha
    · rw [hfree u] at hu
      cases hu
  refine ⟨?_, ?_, ?_, ?_, ?_, ?_, ?_, ?_, ?_, ?_, ?_, ?_, ?_⟩
  · rw [hmem]
    exact hgrows.own ho.own
  · rw [hmem]
    have hnew : ∀ {p a}, Noted s m op p a → m.Attributed a := by
      rintro p a ⟨u, access, hop, rfl, -⟩
      exact hthread u access hop
    rintro a (ha | ha | ha)
    · exact (note_exclusive ha).elim
        (fun ha => hgrows.attributed (ho.attributed a (Or.inl ha))) hnew
    · exact (note_shared ha).elim
        (fun ha => hgrows.attributed (ho.attributed a (Or.inr (Or.inl ha)))) hnew
    · exact (note_alone ha).elim
        (fun ha => hgrows.attributed (ho.attributed a (Or.inr (Or.inr ha))))
        fun ha => hnew ha.2
  · rw [note_constructed]
    intro hraw
    obtain ⟨hnil, hnil'⟩ := ho.raw hraw
    constructor
    · refine List.eq_nil_iff_forall_not_mem.mpr fun a ha => ?_
      have := hnoNew (fun u => by rw [h.raw hraw u]; rfl) a ha
      rw [hnil] at this
      exact List.not_mem_nil this
    · refine List.eq_nil_iff_forall_not_mem.mpr fun a ha => ?_
      rcases note_shared ha with ha | ⟨u, _, _, _, hu⟩
      · rw [hnil'] at ha
        exact List.not_mem_nil ha
      · rw [h.raw hraw u] at hu
        cases hu
  · rw [hmem]
    intro a ha
    rcases note_alone ha with ha | ⟨hone, u, access, hop, rfl, -⟩
    · exact Memory.perform_knows hroomy hperform
        (ho.attributed a (Or.inr (Or.inr ha))) (ho.early a ha)
    · intro w hw hpos
      obtain ⟨hpos', hle'⟩ := hthread u access hop
      rw [hone] at hw hle'
      obtain rfl : w = u := (Nat.le_antisymm hw hpos).trans (Nat.le_antisymm hle' hpos').symm
      exact hself w access hop
  · rw [hmem]
    intro a ha
    rcases note_shared ha with ha | ⟨u, access, hop, rfl, -⟩
    · exact hgrows.knows (ho.attributed a (Or.inr (Or.inl ha))).2 (ho.byOwner a ha)
    · exact hself u access hop
  · rw [note_constructed, hpc, hmem]
    intro hconstructed hfree a ha
    exact (ho.freeExclusive hconstructed hfree a (hnoNew hfree a ha)).congr hsame
  · rw [note_constructed, hpc, hmem]
    intro hconstructed hfree a ha
    rcases note_shared ha with ha | ⟨u, access, hop, rfl, hreading⟩
    · exact (ho.freeShared hconstructed hfree a ha).imp_left
        fun hcarries => hcarries.congr hsame
    · exact Or.inr hreading
  · rw [hpc, hmem]
    intro u hu a ha
    have hle := h.le (writing_ne_outside hu)
    rcases ha with ha | ha
    · rcases note_exclusive ha with ha | ⟨w, access, hop, rfl, hw⟩
      · exact hgrows.knows hle (ho.writer u hu a (Or.inl ha))
      · rw [h.apart u w hu (by rw [Pc.holding, hw, Bool.true_or])]
        exact hself w access hop
    · rcases note_shared ha with ha | ⟨w, access, hop, rfl, hw⟩
      · exact hgrows.knows hle (ho.writer u hu a (Or.inr ha))
      · rw [h.apart u w hu (by rw [Pc.holding, hw, Bool.or_true])]
        exact hself w access hop
  · rw [hpc, hmem]
    intro u hu a ha
    rcases note_exclusive ha with ha | ⟨w, access, hop, rfl, hw⟩
    · exact hgrows.knows (h.le (reading_ne_outside hu)) (ho.reader u hu a ha)
    · rw [← h.apart w u hw (by rw [Pc.holding, hu, Bool.or_true])]
      exact hself w access hop
  · rw [hpc]
    intro u method seen hv
    obtain ⟨hle, hle', hexclusive, hshared⟩ := ho.views u method seen hv
    have hu := h.le (views_ne_outside hv)
    refine ⟨hseen.symm ▸ hle, hseen.symm ▸ hle', ?_, ?_⟩
    · rw [hpc, hmem, hseen]
      exact fun hfree heq a ha =>
        hgrows.knows hu (hexclusive hfree heq a (hnoNew hfree a ha))
    · rw [hpc, hmem, hseen]
      intro hfree heq hlock a ha
      rcases note_shared ha with ha | ⟨w, access, hop, rfl, hw⟩
      · exact (hshared hfree heq hlock a ha).imp_left (hgrows.knows hu)
      · exact Or.inr hw
  · rw [hpc, hmem]
    intro u hu a ha
    have hword := h.trying u (Or.inl hu)
    have hbuilt := h.built (by rw [hu]; exact Pc.noConfusion)
    have hunwritten := h.unwritten hword rfl
    have hunread := h.unread (h.readers_eq hbuilt (by decide) hword)
    refine hgrows.observed (h.le (by rw [hu]; exact Pc.noConfusion)) (ho.fenced u hu a ?_)
    rcases ha with ha | ha
    · exact Or.inl (hnoNew hunwritten a ha)
    · rcases note_shared ha with ha | ⟨w, _, _, _, hw⟩
      · exact Or.inr ha
      · rw [hunread w] at hw
        cases hw
  · rw [hpc, hmem]
    intro u hu a ha
    have hword := h.trying u (Or.inr hu)
    have hbuilt := h.built (by rw [hu]; exact Pc.noConfusion)
    have hunwritten := h.unwritten hword rfl
    have hunread := h.unread (h.readers_eq hbuilt (by decide) hword)
    refine hgrows.knows (h.le (by rw [hu]; exact Pc.noConfusion)) (ho.tried u hu a ?_)
    rcases ha with ha | ha
    · exact Or.inl (hnoNew hunwritten a ha)
    · rcases note_shared ha with ha | ⟨w, _, _, _, hw⟩
      · exact Or.inr ha
      · rw [hunread w] at hw
        cases hw
  · rw [hmem]
    intro loc hloc
    refine Memory.perform_remembers hperform
      ((ho.remembered loc hloc).mono (fun a ha => ha.imp (hex a) (hal a))
        fun a ha => ha.imp (hex a) (Or.imp (hsh a) (hal a))) ?_
    rintro u access rfl rfl
    refine note_locked ?_ hloc hlocked
    rcases Memory.exec_threadCount (Memory.perform_ok hperform) with hsame | ⟨⟨_, hop⟩, -⟩
    · exact hsame
    · cases hop

theorem Ordered.init {value : Nat} (h : Safe v s) (ho : Ordered v guarded s)
    (hroomy : s.memory.Roomy) (hraw : s.constructed = false)
    (hreply : s.memory.reply t (v.init (pack false 0)) = some (value, m)) :
    Ordered v guarded { s with memory := m, constructed := true } := by
  have hgrows := Memory.reply_grows hroomy hreply
  have hcount := Memory.reply_threadCount hreply
  have hout := h.raw hraw
  obtain ⟨hnil, hnil'⟩ := ho.raw hraw
  have hnone : ∀ a, ¬ (a ∈ s.exclusive ∨ a ∈ s.shared) := by
    rw [hnil, hnil']
    exact fun a ha => ha.elim List.not_mem_nil List.not_mem_nil
  exact {
    own := hgrows.own ho.own
    attributed := fun a ha => hgrows.attributed (ho.attributed a ha)
    raw := fun hfalse => Bool.noConfusion hfalse
    early := fun a ha u hu hpos =>
      hgrows.knows (hcount ▸ hu) (ho.early a ha u (hcount ▸ hu) hpos)
    byOwner := fun a ha => absurd (Or.inr ha) (hnone a)
    freeExclusive := fun _ _ a ha => absurd (Or.inl ha) (hnone a)
    freeShared := fun _ _ a ha => absurd (Or.inr ha) (hnone a)
    writer := fun _ _ a ha => absurd ha (hnone a)
    reader := fun _ _ a ha => absurd (Or.inl ha) (hnone a)
    views := fun u method seen hv => absurd (hout u) (views_ne_outside hv)
    fenced := fun _ _ a ha => absurd ha (hnone a)
    tried := fun _ _ a ha => absurd ha (hnone a)
    remembered := fun loc hloc =>
      (ho.remembered loc hloc).congr (congrFun (Memory.reply_nonAtomics hreply) loc) }

/-- What a thread knows when it gets the mutex. -/
structure Acquire.Learns (v : SyncVar) (s : State) (t : ThreadId) (pc : Pc) (m : Memory) :
    Prop where
  grows : s.memory.Grows m
  nonAtomics : m.nonAtomics = s.memory.nonAtomics
  carries : ∀ a, s.memory.Carries v.loc a → m.Carries v.loc a
  exclusive : ∀ a ∈ s.exclusive, s.memory.Knows t a
  shared : pc = .writes → ∀ a ∈ s.shared, s.memory.Knows t a

/-- Nothing was missed since the load. -/
theorem Acquire.learns {value : Nat} (h : Safe v s) (ho : Ordered v guarded s)
    (hroomy : s.memory.Roomy)
    (hfresh : ∀ method expected seen, s.pc t = .casCommitting method expected seen →
      method.UpToDate seen s.seen)
    (hacquire : Acquire v s t value pc m) : Acquire.Learns v s t pc m := by
  obtain ⟨-, -, -, hunwritten, hafter⟩ := hacquire.facts h
  cases hacquire with
  | @cas method expected reply seen m hpc hreply =>
      have hup := hfresh method expected seen hpc
      obtain ⟨-, -, hex, hsh⟩ := ho.views t method seen ⟨expected, Or.inr hpc⟩
      obtain ⟨-, -, hcarries, -⟩ := Memory.commit_spec (Memory.reply_ok hreply).2 rfl
      refine ⟨Memory.reply_grows hroomy hreply, Memory.reply_nonAtomics hreply, hcarries,
        hex hunwritten ?_, fun hwrites a ha => ?_⟩
      · cases method with
        | lock => exact congrArg Seen.unlocks hup
        | lockShared | tryLockShared => exact hup
      · cases method with
        | lock =>
            have hnone : s.readers = 0 := by
              rcases hafter with ⟨-, hnone, -⟩ | ⟨heq, -⟩
              · exact hnone
              · cases heq
            refine (hsh hunwritten hup rfl a ha).resolve_right fun hreading => ?_
            rw [h.unread hnone] at hreading
            cases hreading
        | lockShared | tryLockShared => cases hwrites
  | tryLock hpc hreply =>
      obtain ⟨-, -, hcarries, -⟩ := Memory.commit_spec (Memory.reply_ok hreply).2 rfl
      exact ⟨Memory.reply_grows hroomy hreply, Memory.reply_nonAtomics hreply, hcarries,
        fun a ha => ho.tried t hpc a (Or.inl ha),
        fun _ a ha => ho.tried t hpc a (Or.inr ha)⟩

/-- Who gets the mutex knows of the conflicting sections. -/
theorem Ordered.acquire {value : Nat} (h : Safe v s) (ho : Ordered v guarded s)
    (hroomy : s.memory.Roomy) (hrun : s.MayRun t)
    (hfresh : ∀ method expected seen, s.pc t = .casCommitting method expected seen →
      method.UpToDate seen s.seen)
    (hacquire : Acquire v s t value pc m) :
    Ordered v guarded { s.goto t pc with memory := m } := by
  obtain ⟨hgrows, hnon, hcarries, hex, hsh⟩ := hacquire.learns h ho hroomy hfresh
  obtain ⟨hcount, -, ⟨hbefore, -⟩, hunwritten, hafter⟩ := hacquire.facts h
  have houtside : s.pc t ≠ .outside := fun hpc => by
    rw [hpc] at hbefore
    cases hbefore
  have hconstructed := h.built houtside
  have hle := h.le houtside
  have hother : ∀ u, u ≠ t → ((s.goto t pc).pc u).writing = false := fun u hu => by
    rw [goto_pc_of_ne hu]
    exact hunwritten u
  -- Who was reading still is.
  have hreads : ∀ u, (s.pc u).reading = true → ((s.goto t pc).pc u).reading = true ∨
      u = t := fun u hu => by
    by_cases hut : u = t
    · exact Or.inr hut
    · rw [goto_pc_of_ne hut]
      exact Or.inl hu
  have hnotReading : (s.pc t).reading = false := (hacquire.facts h).before.2
  have hkeeps : ∀ u, (s.pc u).reading = true → ((s.goto t pc).pc u).reading = true :=
    fun u hu => (hreads u hu).resolve_right fun heq => by
      rw [heq, hnotReading] at hu
      cases hu
  have hviews : pc = .writes ∨ pc = .reads := by
    rcases hafter with ⟨rfl, -⟩ | ⟨rfl, -⟩
    · exact Or.inl rfl
    · exact Or.inr rfl
  exact {
    own := hgrows.own ho.own
    attributed := fun a ha => hgrows.attributed (ho.attributed a ha)
    raw := ho.raw
    early := fun a ha u hu hpos =>
      hgrows.knows (hcount ▸ hu) (ho.early a ha u (hcount ▸ hu) hpos)
    byOwner := fun a ha =>
      hgrows.knows (ho.attributed a (Or.inr (Or.inl ha))).2 (ho.byOwner a ha)
    freeExclusive := fun _ _ a ha =>
      hcarries a (ho.freeExclusive hconstructed hunwritten a ha)
    freeShared := fun _ _ a ha =>
      (ho.freeShared hconstructed hunwritten a ha).imp (hcarries a) (hkeeps _)
    writer := fun u hu a ha => by
      by_cases hut : u = t
      · subst hut
        rw [goto_pc_self] at hu
        rcases hviews with rfl | rfl
        · exact hgrows.knows hle (ha.elim (hex a) (hsh rfl a))
        · cases hu
      · rw [hother u hut] at hu
        cases hu
    reader := fun u hu a ha => by
      by_cases hut : u = t
      · subst hut
        exact hgrows.knows hle (hex a ha)
      · rw [goto_pc_of_ne hut] at hu
        exact hgrows.knows (h.le (reading_ne_outside hu)) (ho.reader u hu a ha)
    views := by
      refine update_cases (P := fun u (pc' : Pc) => ∀ method seen,
        pc'.Views method seen → View { s.goto t pc with memory := m } u method seen) ?_ ?_
      · rintro method seen ⟨expected, hv⟩
        rcases hviews with rfl | rfl <;> rcases hv with hv | hv <;> cases hv
      · intro u _ method seen hv
        obtain ⟨hseen, hseen', hexclusive, hshared⟩ := ho.views u method seen hv
        have hu := h.le (views_ne_outside hv)
        exact ⟨hseen, hseen',
          fun _ heq a ha => hgrows.knows hu (hexclusive hunwritten heq a ha),
          fun _ heq hlock a ha => (hshared hunwritten heq hlock a ha).imp
            (hgrows.knows hu) (hkeeps _)⟩
    fenced := update_cases
      (P := fun u (pc : Pc) => pc = .tryFencing →
        ∀ a, a ∈ s.exclusive ∨ a ∈ s.shared → m.Observed u a)
      (fun hpc => by rcases hviews with rfl | rfl <;> cases hpc)
      fun u hu hpc => (h.quiet hrun hu hpc rfl).elim
    tried := update_cases
      (P := fun u (pc : Pc) => pc = .tryCommitting →
        ∀ a, a ∈ s.exclusive ∨ a ∈ s.shared → m.Knows u a)
      (fun hpc => by rcases hviews with rfl | rfl <;> cases hpc)
      fun u hu hpc => (h.quiet hrun hu hpc rfl).elim
    remembered := fun loc hloc => (ho.remembered loc hloc).congr (congrFun hnon loc) }

/-- What the word carries when a thread has given up the mutex. -/
structure Release.Passes (v : SyncVar) (s : State) (t : ThreadId) (seen : Seen)
    (m : Memory) : Prop where
  nonAtomics : m.nonAtomics = s.memory.nonAtomics
  exclusive : ∀ a ∈ s.exclusive, m.Carries v.loc a
  shared : ∀ a ∈ s.shared, m.Carries v.loc a ∨
    (s.pc a.thread).reading = true ∧ a.thread ≠ t
  unlocks : s.seen.unlocks ≤ seen.unlocks
  sharedUnlocks : s.seen.sharedUnlocks ≤ seen.sharedUnlocks
  counted : (s.pc t).writing = true → s.seen.unlocks < seen.unlocks
  changed : seen ≠ s.seen

theorem Release.passes {seen : Seen} {wakes : Option Bool} (h : Safe v s)
    (ho : Ordered v guarded s) (hroomy : s.memory.Roomy) (hrun : s.MayRun t)
    (hrelease : Release v s t seen wakes m) : Release.Passes v s t seen m := by
  have hroom := hroomy.hasRoom (Memory.hasThread_iff.mp hrun.1).2
  have hunwritten := (hrelease.facts h hrun).unwritten
  cases hrelease with
  | unlock hpc hreply =>
      obtain ⟨-, -, hcarries⟩ := Memory.store_spec (Memory.reply_ok hreply).2 rfl
      have hwriting : (s.pc t).writing = true := by rw [hpc]; rfl
      have hall : ∀ a, a ∈ s.exclusive ∨ a ∈ s.shared → m.Carries v.loc a := fun a ha =>
        hcarries hroom rfl a (ho.attributed a (ha.imp id Or.inl)) (ho.writer t hwriting a ha)
      exact ⟨Memory.reply_nonAtomics hreply, fun a ha => hall a (Or.inl ha),
        fun a ha => Or.inl (hall a (Or.inr ha)), Nat.le_succ _, Nat.le_refl _,
        fun _ => Nat.lt_succ_self _,
        fun heq => Nat.succ_ne_self _ (congrArg Seen.unlocks heq)⟩
  | unlockShared hpc hreply =>
      obtain ⟨-, -, hkeeps, hcarries⟩ :=
        Memory.commit_spec (Memory.reply_ok hreply).2 rfl
      have hreading : (s.pc t).reading = true := by rw [hpc]; rfl
      have hfree : ∀ u, (s.pc u).writing = false := fun u => by
        by_cases hu : u = t
        · rw [hu, hpc]
          rfl
        · exact hunwritten u hu
      have hbuilt := h.built (by rw [hpc]; exact Pc.noConfusion)
      refine ⟨Memory.reply_nonAtomics hreply,
        fun a ha => hkeeps a (ho.freeExclusive hbuilt hfree a ha), fun a ha => ?_,
        Nat.le_refl _, Nat.le_succ _, fun hwriting => ?_,
        fun heq => Nat.succ_ne_self _ (congrArg Seen.sharedUnlocks heq)⟩
      · by_cases hat : a.thread = t
        · refine Or.inl (hcarries hroom rfl a (ho.attributed a (Or.inr (Or.inl ha))) ?_)
          exact hat ▸ ho.byOwner a ha
        · exact (ho.freeShared hbuilt hfree a ha).imp (hkeeps a) fun hr => ⟨hr, hat⟩
      · rw [hpc] at hwriting
        cases hwriting

theorem parkedThreads_nodup (s : State) : s.parkedThreads.Nodup :=
  (List.nodup_range' 1 Nat.one_pos).filter _

/-- The waiters are some of the sleepers, each once. -/
theorem wakes_sleepers {all : Bool} {waiters : List ThreadId}
    (h : s.Wakes all waiters) : waiters.Nodup ∧ waiters ⊆ s.parkedThreads := by
  unfold State.Wakes at h
  cases all with
  | true => exact ⟨h.symm.nodup (parkedThreads_nodup s), h.subset⟩
  | false =>
      obtain ⟨hlength, hsub, -⟩ := h
      refine ⟨?_, hsub⟩
      match waiters, hlength with
      | [], _ => exact List.nodup_nil
      | [w], _ => simp

/-- The wakes make nobody forget. -/
theorem release_grows {seen : Seen} {wakes : Option Bool} {waiters : List ThreadId}
    {m' : Memory} (h : Safe v s) (hroomy : s.memory.Roomy)
    (hrelease : Release v s t seen wakes m)
    (hwakes : ∀ all, wakes = some all →
      State.Wakes { s.goto t .outside with memory := m, seen := seen } all waiters)
    (hquiet : wakes = none → waiters = [])
    (hmemory : m.wakes t waiters = some m') : s.memory.Grows m' := by
  have hsleepers : waiters.Nodup ∧ waiters ⊆ State.parkedThreads
      { s.goto t .outside with memory := m, seen := seen } := by
    cases hw : wakes with
    | none =>
        rw [hquiet hw]
        exact ⟨List.nodup_nil, List.nil_subset _⟩
    | some all => exact wakes_sleepers (hwakes all hw)
  have hparked : ∀ u ∈ waiters, u ≠ t ∧ s.memory.hasThread u = true := by
    intro u hu
    have hsleeps : ((s.goto t .outside).pc u).isParked = true :=
      (mem_parkedThreads.mp (hsleepers.2 hu)).2
    have hut : u ≠ t := by
      rintro rfl
      rw [goto_pc_self] at hsleeps
      cases hsleeps
    rw [goto_pc_of_ne hut] at hsleeps
    exact ⟨hut, h.fresh u fun hpc => by
      rw [hpc] at hsleeps
      cases hsleeps⟩
  have hnot : t ∉ waiters := fun ht => (hparked t ht).1 rfl
  cases hrelease with
  | unlock _ hreply =>
      refine (Memory.reply_grows hroomy hreply).trans
        (Memory.wakes_grows (fun u hu => ?_) hsleepers.1 hnot hmemory)
      exact Memory.wakeRoom_of_write hroomy (Or.inl rfl) hreply (hparked u hu).2
        (hparked u hu).1
  | unlockShared _ hreply =>
      refine (Memory.reply_grows hroomy hreply).trans
        (Memory.wakes_grows (fun u hu => ?_) hsleepers.1 hnot hmemory)
      exact Memory.wakeRoom_of_write hroomy (Or.inr rfl) hreply (hparked u hu).2
        (hparked u hu).1

theorem wake_views {method : Method} {seen : Seen} (h : pc.wake.Views method seen) :
    pc.Views method seen := by
  obtain ⟨expected, h⟩ := h
  refine ⟨expected, ?_⟩
  cases pc with
  | parked _ => exact absurd h (by simp [Pc.wake])
  | _ => exact h

/-- Who gives up the mutex passes on what it knows. -/
theorem Ordered.release {seen : Seen} {wakes : Option Bool} {waiters : List ThreadId}
    {m' : Memory} (h : Safe v s) (ho : Ordered v guarded s) (hroomy : s.memory.Roomy)
    (hrun : s.MayRun t) (hrelease : Release v s t seen wakes m)
    (hwakes : ∀ all, wakes = some all →
      State.Wakes { s.goto t .outside with memory := m, seen := seen } all waiters)
    (hquiet : wakes = none → waiters = [])
    (hmemory : m.wakes t waiters = some m') :
    Ordered v guarded
      { s.goto t .outside with
        memory := m'
        seen := seen
        pc := wakeAll waiters (s.goto t .outside).pc } := by
  have hgrows := release_grows h hroomy hrelease hwakes hquiet hmemory
  obtain ⟨hnon, hex, hsh, hunlocks, hsharedUnlocks, hcounted, hchanged⟩ :=
    hrelease.passes h ho hroomy hrun
  obtain ⟨hcountm, hholding, hothers, -, -⟩ := hrelease.facts h hrun
  have houtside : s.pc t ≠ .outside := fun hpc => by
    rw [hpc] at hholding
    cases hholding
  have hconstructed := h.built houtside
  have hcount : m'.threadCount = s.memory.threadCount :=
    (Memory.wakes_threadCount hmemory).trans hcountm
  have hsame : m'.atomics v.loc = m.atomics v.loc :=
    congrFun (Memory.wakes_atomics hmemory) _
  have hpcs : ∀ {P : ThreadId → Pc → Prop}, (∀ u pc, P u pc → P u pc.wake) →
      P t .outside → (∀ u, u ≠ t → P u (s.pc u)) →
      ∀ u, P u (wakeAll waiters (s.goto t .outside).pc u) :=
    fun hwake hself hrest => wakeAll_cases hwake (update_cases hself hrest)
  have hunwritten := hpcs (P := fun _ pc => pc.writing = false)
    (fun _ pc hpc => (wake_flags pc).1.trans hpc) rfl hothers
  have hreading : ∀ u, u ≠ t → (s.pc u).reading = true →
      (wakeAll waiters (s.goto t .outside).pc u).reading = true := fun u hu hr => by
    rw [wakeAll_reading, goto_pc_of_ne hu]
    exact hr
  have hmid := hpcs (P := fun _ pc => pc.midRmw = false)
    (fun _ pc hpc => (wake_flags pc).2.2.1.trans hpc) rfl fun u hu => h.notMid hrun hu
  have hnotMid : ∀ u {pc' : Pc}, wakeAll waiters (s.goto t .outside).pc u = pc' →
      pc'.midRmw = true → False := by
    intro u pc' hpc hmid'
    have := hmid u
    rw [hpc, hmid'] at this
    cases this
  exact {
    own := hgrows.own ho.own
    attributed := fun a ha => hgrows.attributed (ho.attributed a ha)
    raw := ho.raw
    early := fun a ha u hu hpos =>
      hgrows.knows (hcount ▸ hu) (ho.early a ha u (hcount ▸ hu) hpos)
    byOwner := fun a ha =>
      hgrows.knows (ho.attributed a (Or.inr (Or.inl ha))).2 (ho.byOwner a ha)
    freeExclusive := fun _ _ a ha => (hex a ha).congr hsame
    freeShared := fun _ _ a ha => (hsh a ha).imp (fun hcarries => hcarries.congr hsame)
      fun hr => hreading _ hr.2 hr.1
    writer := fun u hu => absurd hu (by
      rw [hunwritten u]
      exact Bool.false_ne_true)
    reader := by
      refine hpcs (P := fun u pc => pc.reading = true →
        ∀ a ∈ s.exclusive, m'.Knows u a) ?_ ?_ ?_
      · exact fun u pc hpc hr => hpc ((wake_flags pc).2.1 ▸ hr)
      · exact fun hr => absurd hr Bool.false_ne_true
      · exact fun u _ hr a ha =>
          hgrows.knows (h.le (reading_ne_outside hr)) (ho.reader u hr a ha)
    views := by
      refine hpcs (P := fun u pc => ∀ method seen', pc.Views method seen' →
        View { s.goto t .outside with
          memory := m'
          seen := seen
          pc := wakeAll waiters (s.goto t .outside).pc } u method seen') ?_ ?_ ?_
      · exact fun u pc hpc method seen' hv => hpc method seen' (wake_views hv)
      · exact fun method seen' hv => absurd rfl (views_ne_outside hv)
      · intro u hut method seen' hv
        obtain ⟨hle, hle', hexclusive, -⟩ := ho.views u method seen' hv
        refine ⟨hle.trans hunlocks, hle'.trans hsharedUnlocks, fun _ heq a ha => ?_,
          fun _ heq => ?_⟩
        · -- No writer gave up the mutex, so that there was none.
          have hfree : ∀ w, (s.pc w).writing = false := fun w => by
            by_cases hw : w = t
            · refine Bool.eq_false_of_not_eq_true fun hwriting => ?_
              have hlt := hcounted (hw ▸ hwriting)
              rw [← heq] at hlt
              exact absurd hle (Nat.not_le_of_gt hlt)
            · exact hothers w hw
          have hunchanged : seen'.unlocks = s.seen.unlocks :=
            Nat.le_antisymm hle (hunlocks.trans (Nat.le_of_eq heq.symm))
          exact hgrows.knows (h.le (views_ne_outside hv))
            (hexclusive hfree hunchanged a ha)
        · -- Every release is counted.
          subst heq
          refine absurd ?_ hchanged
          cases hs : s.seen with
          | mk unlocks sharedUnlocks =>
              cases seen' with
              | mk unlocks' sharedUnlocks' =>
                  rw [hs] at hle hle' hunlocks hsharedUnlocks
                  exact Seen.mk.injEq .. ▸ ⟨Nat.le_antisymm hle hunlocks,
                    Nat.le_antisymm hle' hsharedUnlocks⟩
    fenced := fun u hpc => (hnotMid u hpc rfl).elim
    tried := fun u hpc => (hnotMid u hpc rfl).elim
    remembered := fun loc hloc => (ho.remembered loc hloc).congr
      (congrFun ((Memory.wakes_nonAtomics hmemory).trans hnon) loc) }

end Order

/-- Every step keeps the order, as long as nothing is missed. -/
theorem Ordered.step (h : Safe v s) (ho : Ordered v guarded s) (hfresh : s.Fresh)
    (hstep : Step v guarded s s') : Ordered v guarded s' := by
  obtain ⟨hroomy, hmissed⟩ := hfresh
  cases hstep with
  | user hrun _ htouch hlocked hperform =>
      exact ho.user h hroomy hrun htouch hlocked hperform
  | init _ hraw hreply => exact ho.init h hroomy hraw hreply
  | pass _ hbuilt hpass => exact ho.pass h hroomy hbuilt hpass
  | @acquire t value pc m hrun hacquire =>
      refine ho.acquire h hroomy hrun (fun method expected seen hpc => ?_) hacquire
      have hnothing := hmissed t (Nat.lt_succ_of_le (Memory.hasThread_iff.mp hrun.1).2)
      rw [State.MissedNothing, hpc] at hnothing
      exact hnothing
  | release hrun hrelease hwakes hquiet hmemory =>
      exact ho.release h hroomy hrun hrelease hwakes hquiet hmemory

theorem reach_ordered
    (h : Reach (State.next v guarded) (fun s _ => s.Fresh) State.start s) :
    Safe v s ∧ Ordered v guarded s :=
  h.invariant (I := fun s => Safe v s ∧ Ordered v guarded s)
    ⟨Safe.start, Ordered.start⟩ fun _ _ _ hs hfresh hnext =>
      ⟨hs.1.step (step_of_next hnext), hs.2.step hs.1 hfresh (step_of_next hnext)⟩

/-! ### What holds of the sections, and where it fails -/

/-- A writer comes after every access under the mutex, a reader after every access
of a writer. -/
def State.InOrder (s : State) : Prop :=
  (∀ t, (s.pc t).writing = true → ∀ a, a ∈ s.exclusive ∨ a ∈ s.shared →
    s.memory.happensBefore a t = true) ∧
  ∀ t, (s.pc t).reading = true → ∀ a ∈ s.exclusive, s.memory.happensBefore a t = true

/-- A guarded variable that is accessed under the mutex is never reported. -/
def State.RaceFree (s : State) (guarded : Addr → Bool) : Prop :=
  ∀ t access race m, guarded access.loc = true →
    ((s.pc t).writing = true ∨ (s.pc t).reading = true ∧ isRead access.type = true) →
    s.memory.exec (.access t access) ≠ .ok (some race, m)

theorem Ordered.raceFree (h : Safe v s) (ho : Ordered v guarded s)
    (hroomy : s.memory.Roomy) : s.RaceFree guarded := by
  intro t access race m hguarded hheld
  have hpc : s.pc t ≠ .outside := by
    rcases hheld with hheld | ⟨hheld, -⟩
    · exact writing_ne_outside hheld
    · exact reading_ne_outside hheld
  obtain ⟨hpos, hle⟩ := Memory.hasThread_iff.mp (h.fresh t hpc)
  refine Memory.exec_access_ne_race (hroomy.hasRoom hle)
    (ho.remembered access.loc hguarded) (fun a ha => ?_) (fun hwrite a ha => ?_) race
  · rcases ha with ha | ha
    · rcases hheld with hheld | ⟨hheld, -⟩
      · exact ho.writer t hheld a (Or.inl ha)
      · exact ho.reader t hheld a ha
    · exact ho.early a ha t hle hpos
  · have hwriting : (s.pc t).writing = true := by
      refine hheld.resolve_right fun ⟨_, hread⟩ => ?_
      rw [isWrite, hread] at hwrite
      cases hwrite
    rcases ha with ha | ha | ha
    · exact ho.writer t hwriting a (Or.inl ha)
    · exact ho.writer t hwriting a (Or.inr ha)
    · exact ho.early a ha t hle hpos

/-- As long as nobody misses a release between its load and its compare-exchange, and
no clock overflows, conflicting sections are ordered and no access under the mutex is
reported as a race. -/
theorem sections_ordered
    (h : Reach (State.next v guarded) (fun s _ => s.Fresh) State.start s) :
    s.InOrder ∧ (s.memory.Roomy → s.RaceFree guarded) := by
  obtain ⟨hsafe, ho⟩ := reach_ordered h
  exact ⟨⟨fun t ht a ha => Memory.happensBefore_iff.mpr (ho.writer t ht a ha),
    fun t ht a ha => Memory.happensBefore_iff.mpr (ho.reader t ht a ha)⟩,
    ho.raceFree hsafe⟩

/-- One thread writes under the mutex, then another one does. -/
def sharedLoc : Addr := 32

def writes : List Event :=
  [.init 1, .user (.access 1 ⟨sharedLoc, .init, exampleVar.site⟩), .user (.spawn 1 2)]

def locks (t : ThreadId) : List Event :=
  [.call t .lock, .resume t [] false, .resume t [] false, .resume t [] false]

def writesAndUnlocks (t : ThreadId) : List Event :=
  [.user (.access t ⟨sharedLoc, .write, exampleVar.site⟩), .unlock t, .resume t [] false]

def guardedLoc (loc : Addr) : Bool := loc == sharedLoc

theorem sections_ordered_twoWriters :
    ∃ s, Reach (State.next exampleVar guardedLoc) (fun s _ => s.Fresh) State.start s ∧
      (s.pc 2).writing = true ∧ s.exclusive.length = 1 ∧ s.InOrder ∧
      s.RaceFree guardedLoc := by
  obtain ⟨s, hreach, hpc, hlength, hroomy⟩ :=
    @exists_reach _ _ (State.next exampleVar guardedLoc) (fun s _ => s.Fresh)
      State.start _ (writes ++ locks 1 ++ writesAndUnlocks 1 ++ locks 2)
      (fun s => (s.pc 2).writing = true ∧ s.exclusive.length = 1 ∧ s.memory.Roomy) _
      (by decide)
  have hordered := sections_ordered hreach
  exact ⟨s, hreach, hpc, hlength, hordered.1, hordered.2 hroomy⟩

/-- The second thread loads the state, the first one locks, writes and unlocks, and
the second one's compare-exchange succeeds. -/
def missedRelease : List Event :=
  writes ++ [.call 2 .lock, .resume 2 [] false] ++ locks 1 ++ writesAndUnlocks 1 ++
    [.resume 2 [] false, .resume 2 [] false]

/-- Is the access reported as a race? -/
def State.reports (s : State) (t : ThreadId) (access : Access) : Bool :=
  match s.memory.exec (.access t access) with
  | .ok (some _, _) => true
  | _ => false

theorem reports_iff {access : Access} : s.reports t access = true ↔
    ∃ race m, s.memory.exec (.access t access) = .ok (some race, m) := by
  unfold State.reports
  constructor
  · intro h
    split at h
    · rename_i race m heq
      exact ⟨race, m, heq⟩
    · cases h
  · rintro ⟨race, m, heq⟩
    rw [heq]

/-- A correctly locked access comes after nothing that was done in the section
before, and is reported as a race. -/
theorem missedRelease_races :
    ∃ s, Reach (State.next exampleVar guardedLoc) (fun _ _ => True) State.start s ∧
      s.memory.Roomy ∧ (s.pc 2).writing = true ∧ ¬ s.InOrder ∧
      ¬ s.RaceFree guardedLoc := by
  obtain ⟨s, hreach, hroomy, hwriting, ⟨a, ha, hnot⟩, hrace⟩ :=
    @exists_reach _ _ (State.next exampleVar guardedLoc) (fun _ _ => True)
      State.start _ missedRelease
      (fun s => s.memory.Roomy ∧ (s.pc 2).writing = true ∧
        (∃ a ∈ s.exclusive, s.memory.happensBefore a 2 = false) ∧
        s.reports 2 ⟨sharedLoc, .write, exampleVar.site⟩ = true) _ (by decide)
  refine ⟨s, hreach, hroomy, hwriting, fun hordered => ?_, fun hfree => ?_⟩
  · have hbefore := hordered.1 2 hwriting a (Or.inl ha)
    rw [hnot] at hbefore
    cases hbefore
  · obtain ⟨race, m, hexec⟩ := reports_iff.mp hrace
    exact hfree 2 _ race m rfl (Or.inl hwriting) hexec

end SharedMutex

end TwistSim

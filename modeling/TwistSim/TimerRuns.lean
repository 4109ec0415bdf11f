/-
What the timer queue does over whole runs: which timers it knows to be active, and
in which order it hands them out.
-/
import TwistSim.Runs
import TwistSim.TimerOrder

namespace TwistSim

namespace TimerHeap

variable {α : Type} [DecidableEq α] {h : TimerHeap α} {index : Nat} {t : α}

instance (h : TimerHeap α) (t : α) : Decidable (h.Stores t) :=
  decidable_of_iff (∃ i, i < h.size + 1 ∧ 1 ≤ i ∧ h.tree i = some t)
    ⟨fun ⟨i, hi, hpos, hslot⟩ => ⟨i, ⟨hpos, Nat.le_of_lt_succ hi⟩, hslot⟩,
      fun ⟨i, ⟨hpos, hi⟩, hslot⟩ => ⟨i, Nat.lt_succ_of_le hi, hpos, hslot⟩⟩

/-- The timer object itself changes. -/
def setTimer (h : TimerHeap α) (t : α) (timer : Timer) : TimerHeap α :=
  { h with timers := Function.update h.timers t timer }

theorem setTimer_self (h : TimerHeap α) (t : α) (timer : Timer) :
    (h.setTimer t timer).timers t = timer := Function.update_self _ _ _

theorem setTimer_of_ne (h : TimerHeap α) {t u : α} (timer : Timer) (hu : u ≠ t) :
    (h.setTimer t timer).timers u = h.timers u := Function.update_of_ne hu _ _

/-! ### Timers that are not stored -/

theorem updateTimerMetadata_away (hin : h.inRange index) (ht : ¬ h.Stores t) :
    (h.updateTimerMetadata index).timers t = h.timers t := by
  rw [updateTimerMetadata_timers, if_neg fun hslot => ht ⟨index, hin, hslot⟩]

omit [DecidableEq α] in
theorem swap_stores {i j : Nat} (hi : h.inRange i) (hj : h.inRange j)
    (ht : ¬ h.Stores t) : ¬ (h.swap i j).Stores t := by
  rintro ⟨k, hk, hslot⟩
  simp only [swap, Function.update_apply] at hslot
  split at hslot
  · exact ht ⟨i, hi, hslot⟩
  · split at hslot
    · exact ht ⟨j, hj, hslot⟩
    · exact ht ⟨k, hk, hslot⟩

/-- A step of a sift. -/
theorem moved_away {i j : Nat} (hi : h.inRange i) (hj : h.inRange j)
    (ht : ¬ h.Stores t) :
    ((h.swap i j).updateTimerMetadata i).timers t = h.timers t ∧
      ¬ ((h.swap i j).updateTimerMetadata i).Stores t ∧
      ((h.swap i j).updateTimerMetadata i).size = h.size := by
  have hswapped := swap_stores hi hj ht
  have hsame := updateTimerMetadata_same (h.swap i j) i
  exact ⟨updateTimerMetadata_away (h := h.swap i j) hi hswapped,
    fun hstores => hswapped ((hsame.stores t).mp hstores), hsame.size⟩

theorem siftDown_away (fuel : Nat) (hin : h.inRange index) (ht : ¬ h.Stores t) :
    (siftDown fuel index h).timers t = h.timers t := by
  induction fuel generalizing index h with
  | zero => exact updateTimerMetadata_away hin ht
  | succ fuel ih =>
      rw [siftDown]
      split
      · exact updateTimerMetadata_away hin ht
      · split
        case isTrue hne =>
          obtain ⟨hi, hj⟩ := minChild_inRange hne hin.1
          obtain ⟨htimers, hstores, hsize⟩ := moved_away hi hj ht
          refine (ih ?_ hstores).trans htimers
          rw [inRange, hsize]
          exact hj
        case isFalse => exact updateTimerMetadata_away hin ht

theorem siftUp_away (fuel : Nat) (hin : h.inRange index) (ht : ¬ h.Stores t) :
    (siftUp fuel index h).timers t = h.timers t := by
  induction fuel generalizing index h with
  | zero => exact updateTimerMetadata_away hin ht
  | succ fuel ih =>
      rw [siftUp]
      split
      · exact updateTimerMetadata_away hin ht
      · split
        case isTrue hroot hless =>
          have hparent : h.inRange (index / 2) := by
            simp only [inRange] at hin ⊢
            omega
          obtain ⟨htimers, hstores, hsize⟩ := moved_away hin hparent ht
          refine (ih ?_ hstores).trans htimers
          rw [inRange, hsize]
          exact hparent
        case isFalse => exact updateTimerMetadata_away hin ht

theorem insert_away {h' : TimerHeap α} {u : α} (hinsert : h.insert t = .ok h')
    (hu : u ≠ t) (hfree : ¬ h.Stores u) : h'.timers u = h.timers u := by
  unfold insert at hinsert
  split at hinsert
  · cases hinsert
    refine siftUp_away (h := { h with
      size := h.size + 1
      tree := Function.update h.tree (h.size + 1) (some t) })
      _ ⟨Nat.succ_pos _, Nat.le_refl _⟩ ?_
    rintro ⟨i, hi, hslot⟩
    dsimp only at hslot
    by_cases hlast : i = h.size + 1
    · rw [hlast, Function.update_self] at hslot
      exact hu (Option.some.inj hslot).symm
    · rw [Function.update_of_ne hlast] at hslot
      exact hfree ⟨i, ⟨hi.1, Nat.le_of_lt_succ (Nat.lt_of_le_of_ne hi.2 hlast)⟩, hslot⟩
  · cases hinsert

/-- A timer that leaves another slot than the last forgets its slot, and the timers
that are not stored stay as they are. -/
theorem remove_away {h' : TimerHeap α} {u : α} (hidx : h.Indexed) (ht : h.Stores t)
    (hlast : (h.timers t).loc ≠ h.size) (hremove : h.remove t = .ok h')
    (hfree : ¬ h'.Stores u) :
    (h'.timers u).loc = if u = t then 0 else (h.timers u).loc := by
  obtain ⟨h₁, hremove', -, hbecomes⟩ := remove_spec hidx ht
  obtain rfl : h₁ = h' := Except.ok.inj (hremove'.symm.trans hremove)
  rw [hbecomes.stores] at hfree
  obtain ⟨i, hi, hslot⟩ := ht
  have hloc := hidx.loc i t hi hslot
  rw [hloc] at hlast
  have hpos : h.size ≠ 0 := Nat.ne_of_gt (Nat.lt_of_lt_of_le hi.1 hi.2)
  unfold remove at hremove
  simp only [hloc, hslot, if_true, hpos, if_false] at hremove
  cases hremove
  obtain ⟨-, hstores⟩ := fill_spec hidx hi hslot { h.setLoc t 0 with
      tree := Function.update h.tree i (h.tree h.size), size := h.size - 1 }
    rfl rfl fun u hu => Function.update_of_ne hu _ _
  rw [siftDown_away _ ⟨hi.1, ?_⟩ fun hstored => hfree ((hstores u).mp hstored)]
  · by_cases hu : u = t
    · subst hu
      simp only [setLoc, Function.update_self, if_true]
    · simp only [setLoc, Function.update_of_ne hu, hu, if_false]
  · have hle := hi.2
    dsimp only
    omega

/-- A timer that leaves the last slot is told its slot again. -/
theorem remove_last {h' : TimerHeap α} (hidx : h.Indexed) (ht : h.Stores t)
    (hlast : (h.timers t).loc = h.size) (hremove : h.remove t = .ok h') :
    (h'.timers t).loc = h.size := by
  obtain ⟨i, hi, hslot⟩ := ht
  have hloc := hidx.loc i t hi hslot
  obtain rfl : i = h.size := hloc.symm.trans hlast
  have hpos : h.size ≠ 0 := Nat.ne_of_gt hi.1
  unfold remove at hremove
  simp only [hloc, hslot, if_true, hpos, if_false] at hremove
  cases hremove
  generalize hfilled : ({ h.setLoc t 0 with
    tree := Function.update h.tree h.size (some t), size := h.size - 1 } :
      TimerHeap α) = filled
  have hend : siftDown (h.size - 1) h.size filled =
      filled.updateTimerMetadata h.size := by
    cases h.size - 1 with
    | zero => rfl
    | succ fuel =>
        rw [siftDown, if_pos]
        rw [isLeaf, decide_eq_true_iff, ← hfilled]
        dsimp only
        omega
  rw [hend, updateTimerMetadata_timers, if_pos]
  rw [← hfilled]
  exact Function.update_self _ _ _

/-- The timer that is extracted keeps its slot number. -/
theorem extractMin_loc (hidx : h.Indexed) (hpos : 0 < h.size) (hslot : h.tree 1 = some t) :
    (h.extractMin.2.timers t).loc = 1 := by
  have hone : h.inRange 1 := ⟨Nat.le_refl 1, hpos⟩
  have hloc := hidx.loc 1 t hone hslot
  obtain ⟨-, hstores⟩ := fill_spec hidx hone hslot { h with
      tree := Function.update h.tree 1 (h.tree h.size), size := h.size - 1 }
    rfl rfl fun _ _ => rfl
  rw [extractMin]
  dsimp only
  split
  · rename_i hmore
    have hkeep := siftDown_away (h := { h with
      tree := Function.update h.tree 1 (h.tree h.size), size := h.size - 1 })
      (h.size - 1) ⟨Nat.le_refl 1, hmore⟩ fun hstored => ((hstores t).mp hstored).1 rfl
    rw [hkeep]
    exact hloc
  · exact hloc

end TimerHeap

namespace TimerQueue

/-- The queue, and which timers were added to it since they were created.  The slot
number of a new timer is not initialized. -/
structure Timers (α : Type) where
  queue : TimerQueue α
  added : α → Bool

/-- A new timer object in a place of the memory, and the operations of the queue. -/
inductive Op (α : Type) where
  | create (t : α) (timer : Timer)
  | add (t : α)
  | remove (t : α)
  | poll (now : Int)
  deriving DecidableEq, Repr

/-- What `Add` inserts into. -/
def withId {α : Type} [DecidableEq α] (q : TimerQueue α) (t : α) : TimerHeap α :=
  q.heap.setTimer t { q.heap.timers t with id := q.nextId + 1 }

namespace Timers

variable {α : Type} [DecidableEq α]

def start (timers : α → Timer) : Timers α := ⟨empty timers, fun _ => false⟩

def Stores (s : Timers α) (t : α) : Prop := s.queue.heap.Stores t

instance (s : Timers α) (t : α) : Decidable (s.Stores t) :=
  inferInstanceAs (Decidable (s.queue.heap.Stores t))

/-- A timer that is stored stays alive and is not added again, and the slot number of
a timer that was never added is not asked for. -/
def next (s : Timers α) : Op α → Option (Timers α)
  | .create t timer =>
      if s.Stores t then none
      else some
        { queue := { s.queue with heap := s.queue.heap.setTimer t timer }
          added := Function.update s.added t false }
  | .add t =>
      if s.Stores t then none
      else (s.queue.add t).toOption.map fun queue =>
        ⟨queue, Function.update s.added t true⟩
  | .remove t =>
      if s.added t then
        (s.queue.remove t).toOption.map fun (_, queue) => { s with queue }
      else none
  | .poll now => some { s with queue := (s.queue.poll now).2 }

/-- Every stored timer was added and knows its slot; the ids tell them apart. -/
structure Filed (s : Timers α) : Prop where
  indexed : s.queue.heap.Indexed
  added : ∀ t, s.Stores t → s.added t = true
  id_le : ∀ t, s.Stores t → (s.queue.heap.timers t).id ≤ s.queue.nextId
  id_inj : ∀ t u, s.Stores t → s.Stores u →
    (s.queue.heap.timers t).id = (s.queue.heap.timers u).id → t = u

/-! ### What an operation does -/

inductive Did (s : Timers α) : Op α → Timers α → Prop where
  | create {t : α} {timer : Timer} (hfree : ¬ s.Stores t) :
      Did s (.create t timer)
        { queue := { s.queue with heap := s.queue.heap.setTimer t timer }
          added := Function.update s.added t false }
  | add {t : α} {heap : TimerHeap α} (hfree : ¬ s.Stores t)
      (h : (s.queue.withId t).insert t = .ok heap) :
      Did s (.add t) ⟨⟨heap, s.queue.nextId + 1⟩, Function.update s.added t true⟩
  | removed {t : α} {heap : TimerHeap α} (hadded : s.added t = true)
      (hactive : s.queue.heap.isActive t = true) (h : s.queue.heap.remove t = .ok heap) :
      Did s (.remove t) { s with queue := { s.queue with heap } }
  | inactive {t : α} (hadded : s.added t = true)
      (hinactive : s.queue.heap.isActive t = false) : Did s (.remove t) s
  | due {now when : Int} (h : s.queue.nextDeadLine = some when) (hle : when ≤ now) :
      Did s (.poll now)
        { s with queue := { s.queue with heap := s.queue.heap.extractMin.2 } }
  | idle {now : Int} (h : ∀ when, s.queue.nextDeadLine = some when → now < when) :
      Did s (.poll now) s

variable {s s' : Timers α} {op : Op α} {t : α}

theorem did_of_next (h : s.next op = some s') : Did s op s' := by
  unfold next at h
  cases op with
  | create t timer =>
      dsimp only at h
      split at h
      · cases h
      · rename_i hfree
        cases h
        exact Did.create hfree
  | add t =>
      dsimp only at h
      split at h
      · cases h
      · rename_i hfree
        obtain ⟨queue, hadd, rfl⟩ := Option.map_eq_some_iff.mp h
        change (((s.queue.withId t).insert t).map fun heap =>
          (⟨heap, s.queue.nextId + 1⟩ : TimerQueue α)).toOption = some queue at hadd
        cases hinsert : (s.queue.withId t).insert t with
        | error e =>
            rw [hinsert] at hadd
            cases hadd
        | ok heap =>
            rw [hinsert] at hadd
            cases hadd
            exact Did.add hfree hinsert
  | remove t =>
      dsimp only at h
      split at h
      · rename_i hadded
        obtain ⟨⟨found, queue⟩, hremove, rfl⟩ := Option.map_eq_some_iff.mp h
        unfold TimerQueue.remove at hremove
        split at hremove
        · rename_i hactive
          cases hheap : s.queue.heap.remove t with
          | error e =>
              rw [hheap] at hremove
              cases hremove
          | ok heap =>
              rw [hheap] at hremove
              cases hremove
              exact Did.removed hadded hactive hheap
        · rename_i hactive
          cases hremove
          exact Did.inactive hadded (Bool.eq_false_of_not_eq_true hactive)
      · cases h
  | poll now =>
      cases h
      unfold poll
      cases hnext : s.queue.nextDeadLine with
      | none => exact Did.idle fun when heq => by rw [hnext] at heq; cases heq
      | some when =>
          dsimp only
          split
          · rename_i hle
            exact Did.due hnext hle
          · rename_i hlt
            refine Did.idle fun when' heq => ?_
            rw [hnext] at heq
            cases heq
            exact Int.not_le.mp hlt

/-! ### What is stored -/

omit [DecidableEq α] in
theorem start_stores (timers : α → Timer) (t : α) : ¬ (start timers).Stores t :=
  fun ⟨_, hi, _⟩ => absurd (Nat.le_trans hi.1 hi.2) (Nat.not_succ_le_zero 0)

omit [DecidableEq α] in
theorem Filed.start (timers : α → Timer) : (start timers).Filed where
  indexed := ⟨fun _ hi => absurd (Nat.le_trans hi.1 hi.2) (Nat.not_succ_le_zero 0),
    fun _ _ hi => absurd (Nat.le_trans hi.1 hi.2) (Nat.not_succ_le_zero 0)⟩
  added t ht := absurd ht (start_stores timers t)
  id_le t ht := absurd ht (start_stores timers t)
  id_inj t _ ht := absurd ht (start_stores timers t)

omit [DecidableEq α] in
theorem stores_ne {u : α} (hfree : ¬ s.Stores t) (hu : s.Stores u) : u ≠ t := by
  rintro rfl
  exact hfree hu

/-- A timer that is not stored may change. -/
theorem indexed_setTimer {timer : Timer} (hidx : s.queue.heap.Indexed)
    (hfree : ¬ s.Stores t) : (s.queue.heap.setTimer t timer).Indexed where
  full := hidx.full
  loc i u hi hslot := by
    rw [TimerHeap.setTimer_of_ne _ _ (stores_ne hfree ⟨i, hi, hslot⟩)]
    exact hidx.loc i u hi hslot

omit [DecidableEq α] in
/-- Some timers leave. -/
theorem Filed.leave (h : s.Filed) {heap : TimerHeap α} {P : α → Prop}
    (hbecomes : s.queue.heap.Becomes heap P) (hsub : ∀ u, P u → s.Stores u) :
    Filed { s with queue := { s.queue with heap } } := by
  have hid : ∀ u, (heap.timers u).id = (s.queue.heap.timers u).id := fun u => by
    have htimers := hbecomes.timers u
    injection htimers
  have hold : ∀ u, heap.Stores u → s.Stores u :=
    fun u hu => hsub u ((hbecomes.stores u).mp hu)
  refine ⟨hbecomes.indexed, fun u hu => h.added u (hold u hu), fun u hu => ?_,
    fun t u ht hu heq => ?_⟩
  · change (heap.timers u).id ≤ s.queue.nextId
    rw [hid u]
    exact h.id_le u (hold u hu)
  · change (heap.timers t).id = (heap.timers u).id at heq
    rw [hid t, hid u] at heq
    exact h.id_inj t u (hold t ht) (hold u hu) heq

theorem Filed.create (h : s.Filed) {timer : Timer} (hfree : ¬ s.Stores t) :
    Filed
      { queue := { s.queue with heap := s.queue.heap.setTimer t timer }
        added := Function.update s.added t false } where
  indexed := indexed_setTimer h.indexed hfree
  added u hu := (Function.update_of_ne (stores_ne hfree hu) _ _).trans (h.added u hu)
  id_le u hu := by
    dsimp only
    rw [TimerHeap.setTimer_of_ne _ _ (stores_ne hfree hu)]
    exact h.id_le u hu
  id_inj u w hu hw heq := by
    dsimp only at heq
    rw [TimerHeap.setTimer_of_ne _ _ (stores_ne hfree hu),
      TimerHeap.setTimer_of_ne _ _ (stores_ne hfree hw)] at heq
    exact h.id_inj u w hu hw heq

theorem add_becomes (h : s.Filed) {heap : TimerHeap α} (hfree : ¬ s.Stores t)
    (hinsert : (s.queue.withId t).insert t = .ok heap) :
    heap.Indexed ∧ (∀ u, heap.Stores u ↔ u = t ∨ s.Stores u) ∧
      (heap.timers t).id = s.queue.nextId + 1 ∧
      ∀ u, u ≠ t → (heap.timers u).id = (s.queue.heap.timers u).id := by
  have hroom : s.queue.heap.size + 1 < timerLimit := by
    by_contra hfull
    have hpanic : (s.queue.withId t).insert t = .error _ := if_neg hfull
    rw [hpanic] at hinsert
    cases hinsert
  obtain ⟨heap', hinsert', -, hbecomes⟩ :=
    TimerHeap.insert_spec (h := s.queue.withId t) (indexed_setTimer h.indexed hfree)
      hfree hroom
  obtain rfl : heap' = heap := Except.ok.inj (hinsert'.symm.trans hinsert)
  refine ⟨hbecomes.indexed, hbecomes.stores, ?_, fun u hu => ?_⟩
  · have htimers := hbecomes.timers t
    rw [withId, TimerHeap.setTimer_self] at htimers
    injection htimers
  · have htimers := hbecomes.timers u
    rw [withId, TimerHeap.setTimer_of_ne _ _ hu] at htimers
    injection htimers

theorem Filed.add (h : s.Filed) {heap : TimerHeap α} (hfree : ¬ s.Stores t)
    (hinsert : (s.queue.withId t).insert t = .ok heap) :
    Filed ⟨⟨heap, s.queue.nextId + 1⟩, Function.update s.added t true⟩ := by
  obtain ⟨hidx, hstores, hnew, hold⟩ := add_becomes h hfree hinsert
  have hid : ∀ u, s.Stores u → (heap.timers u).id ≤ s.queue.nextId := fun u hu => by
    rw [hold u (stores_ne hfree hu)]
    exact h.id_le u hu
  refine ⟨hidx, fun u hu => ?_, fun u hu => ?_, fun u w hu hw heq => ?_⟩
  · change Function.update s.added t true u = true
    rcases (hstores u).mp hu with rfl | hold
    · exact Function.update_self _ _ _
    · rw [Function.update_of_ne (stores_ne hfree hold)]
      exact h.added u hold
  · change (heap.timers u).id ≤ s.queue.nextId + 1
    rcases (hstores u).mp hu with rfl | hold
    · exact Nat.le_of_eq hnew
    · exact Nat.le_succ_of_le (hid u hold)
  · change (heap.timers u).id = (heap.timers w).id at heq
    rcases (hstores u).mp hu with rfl | hu' <;> rcases (hstores w).mp hw with rfl | hw'
    · rfl
    · have hle := hid w hw'
      omega
    · have hle := hid u hu'
      omega
    · rw [hold u (stores_ne hfree hu'), hold w (stores_ne hfree hw')] at heq
      exact h.id_inj u w hu' hw' heq

/-- What is removed is stored, or not even active. -/
def RemovesStored (s : Timers α) (op : Op α) : Prop :=
  ∀ t, op = .remove t → s.Stores t ∨ s.queue.heap.isActive t = false

theorem Filed.step (h : s.Filed) (hop : s.RemovesStored op) (hdid : Did s op s') :
    s'.Filed := by
  cases hdid with
  | create hfree => exact h.create hfree
  | add hfree hinsert => exact h.add hfree hinsert
  | @removed t heap hadded hactive hremove =>
      have hstored := (hop t rfl).resolve_right fun hinactive => by
        rw [hactive] at hinactive
        cases hinactive
      obtain ⟨heap', hremove', -, hbecomes⟩ := TimerHeap.remove_spec h.indexed hstored
      obtain rfl : heap' = heap := Except.ok.inj (hremove'.symm.trans hremove)
      exact h.leave hbecomes fun u hu => hu.2
  | inactive => exact h
  | due hnext =>
      obtain ⟨t, -, -, -, -, hbecomes⟩ :=
        TimerHeap.extractMin_spec h.indexed (nextDeadLine_root hnext).1
      exact h.leave hbecomes fun u hu => hu.2
  | idle => exact h

/-! ### The order of the timers -/

/-- Only active timers are removed. -/
def RemovesActive (s : Timers α) (op : Op α) : Prop :=
  match op with
  | .remove t => s.Stores t
  | _ => True

instance (s : Timers α) (op : Op α) : Decidable (s.RemovesActive op) := by
  unfold RemovesActive
  cases op <;> infer_instance

/-- Only active timers are removed, and none whose place is taken by a timer that is
less than the parent. -/
def KeepsOrder (s : Timers α) (op : Op α) : Prop :=
  match op with
  | .remove t => s.Stores t ∧ s.queue.heap.rises t = false
  | _ => True

instance (s : Timers α) (op : Op α) : Decidable (s.KeepsOrder op) := by
  unfold KeepsOrder
  cases op <;> infer_instance

theorem ordered_setTimer {timer : Timer} (hord : s.queue.heap.Ordered)
    (hfree : ¬ s.Stores t) : (s.queue.heap.setTimer t timer).Ordered :=
  hord.congr rfl rfl fun _ hu => by
    rw [TimerHeap.setTimer_of_ne _ _ (stores_ne hfree hu)]

theorem ordered_step (h : s.Filed) (hord : s.queue.heap.Ordered) (hop : s.KeepsOrder op)
    (hdid : Did s op s') : s'.queue.heap.Ordered := by
  cases hdid with
  | create hfree => exact ordered_setTimer hord hfree
  | add hfree hinsert =>
      exact TimerHeap.insert_ordered (indexed_setTimer h.indexed hfree)
        (ordered_setTimer hord hfree) hinsert
  | removed hadded hactive hremove =>
      exact (TimerHeap.remove_ordered_iff h.indexed hord hop.1 hremove).mpr hop.2
  | inactive => exact hord
  | due hnext =>
      exact TimerHeap.extractMin_ordered h.indexed hord (nextDeadLine_root hnext).1
  | idle => exact hord

/-- Timers fire in the order of their deadlines. -/
structure InOrder (s : Timers α) : Prop where
  heap : s.queue.heap.Ordered
  empty : s.queue.nextDeadLine = none → ∀ u, ¬ s.Stores u
  deadline : ∀ when, s.queue.nextDeadLine = some when →
    (∃ t, s.Stores t ∧ (s.queue.heap.timers t).when = when) ∧
      ∀ u, s.Stores u → when ≤ (s.queue.heap.timers u).when
  poll : ∀ now t, (s.queue.poll now).1 = some t →
    s.Stores t ∧ (s.queue.heap.timers t).when ≤ now ∧
      ∀ u, s.Stores u → u ≠ t →
        TimerHeap.less (s.queue.heap.timers t) (s.queue.heap.timers u) = true
  idle : ∀ now, (s.queue.poll now).1 = none →
    ∀ u, s.Stores u → now < (s.queue.heap.timers u).when

omit [DecidableEq α] in
theorem nextDeadLine_none (h : s.Filed) (hnext : s.queue.nextDeadLine = none) (u : α) :
    ¬ s.Stores u := by
  rintro ⟨i, hi, -⟩
  obtain ⟨t, hslot⟩ := h.indexed.full 1 ⟨Nat.le_refl 1, Nat.le_trans hi.1 hi.2⟩
  unfold nextDeadLine at hnext
  split at hnext
  · rename_i hempty
    rw [TimerQueue.isEmpty, TimerHeap.isEmpty, beq_iff_eq] at hempty
    exact absurd (Nat.le_trans hi.1 hi.2) (by rw [hempty]; exact Nat.not_succ_le_zero 0)
  · rw [hslot] at hnext
    cases hnext

omit [DecidableEq α] in
/-- The timer in the first slot is less than the others. -/
theorem first_less {u : α} (h : s.Filed) (hord : s.queue.heap.Ordered)
    (hslot : s.queue.heap.tree 1 = some t) (hu : s.Stores u) (hne : u ≠ t) :
    TimerHeap.less (s.queue.heap.timers t) (s.queue.heap.timers u) = true := by
  obtain ⟨i, hi, huslot⟩ := hu
  have hle := HeapOrder.IsHeap.root_le hord hi.1 hi.2
  rw [TimerHeap.key_eq hslot, TimerHeap.key_eq huslot] at hle
  refine TimerHeap.less_iff.mpr (lt_of_le_of_ne hle fun heq => hne ?_)
  have hids : (s.queue.heap.timers t).id = (s.queue.heap.timers u).id :=
    congrArg (fun rank => (ofLex rank).2) heq
  exact (h.id_inj t u ⟨1, ⟨Nat.le_refl 1, Nat.le_trans hi.1 hi.2⟩, hslot⟩
    ⟨i, hi, huslot⟩ hids).symm

theorem when_le_of_less {a b : Timer} (h : TimerHeap.less a b = true) : a.when ≤ b.when := by
  rw [TimerHeap.less, decide_eq_true_iff] at h
  omega

omit [DecidableEq α] in
theorem first_when_le {u : α} (h : s.Filed) (hord : s.queue.heap.Ordered)
    (hslot : s.queue.heap.tree 1 = some t) (hu : s.Stores u) :
    (s.queue.heap.timers t).when ≤ (s.queue.heap.timers u).when := by
  by_cases hne : u = t
  · rw [hne]
  · exact when_le_of_less (first_less h hord hslot hu hne)

theorem inOrder_of_ordered (h : s.Filed) (hord : s.queue.heap.Ordered) : s.InOrder where
  heap := hord
  empty := nextDeadLine_none h
  deadline when hnext := by
    obtain ⟨hpos, t, hslot, hwhen⟩ := nextDeadLine_root hnext
    refine ⟨⟨t, ⟨1, ⟨Nat.le_refl 1, hpos⟩, hslot⟩, hwhen⟩, fun u hu => ?_⟩
    rw [← hwhen]
    exact first_when_le h hord hslot hu
  poll now t hpoll := by
    unfold poll at hpoll
    cases hnext : s.queue.nextDeadLine with
    | none =>
        rw [hnext] at hpoll
        cases hpoll
    | some when =>
        rw [hnext] at hpoll
        dsimp only at hpoll
        split at hpoll
        · rename_i hle
          obtain ⟨hpos, t', hslot, hwhen⟩ := nextDeadLine_root hnext
          obtain rfl : t' = t := Option.some.inj (hslot.symm.trans hpoll)
          exact ⟨⟨1, ⟨Nat.le_refl 1, hpos⟩, hslot⟩, hwhen ▸ hle,
            fun u hu hne => first_less h hord hslot hu hne⟩
        · cases hpoll
  idle now hpoll u hu := by
    unfold poll at hpoll
    cases hnext : s.queue.nextDeadLine with
    | none => exact absurd hu (nextDeadLine_none h hnext u)
    | some when =>
        rw [hnext] at hpoll
        dsimp only at hpoll
        obtain ⟨hpos, t, hslot, hwhen⟩ := nextDeadLine_root hnext
        split at hpoll
        · rw [TimerHeap.extractMin, hslot] at hpoll
          cases hpoll
        · rename_i hlt
          have hle := first_when_le h hord hslot hu
          rw [hwhen] at hle
          exact Int.lt_of_lt_of_le (Int.not_le.mp hlt) hle

theorem reach_ordered {timers : α → Timer}
    (h : Reach next KeepsOrder (start timers) s) : s.Filed ∧ s.queue.heap.Ordered := by
  refine h.invariant (I := fun s => s.Filed ∧ s.queue.heap.Ordered)
    ⟨Filed.start timers, fun k hk hn => absurd (Nat.le_trans hk hn) (Nat.not_succ_le_zero 1)⟩
    fun s op s' ⟨hfiled, hord⟩ hop hnext => ?_
  have hdid := did_of_next hnext
  refine ⟨hfiled.step ?_ hdid, ordered_step hfiled hord hop hdid⟩
  rintro t rfl
  exact Or.inl hop.1

/-- Timers fire in order as long as no timer that takes the place of a removed one
would have to rise, and only as long. -/
theorem timers_fire_in_order {timers : α → Timer}
    (h : Reach next KeepsOrder (start timers) s) :
    s.InOrder ∧ ∀ t s', s.Stores t → s.next (.remove t) = some s' →
      (s'.InOrder ↔ s.queue.heap.rises t = false) := by
  obtain ⟨hfiled, hord⟩ := reach_ordered h
  refine ⟨inOrder_of_ordered hfiled hord, fun t s' ht hnext => ?_⟩
  have hdid := did_of_next hnext
  refine ⟨fun hafter => ?_, fun hrises => ?_⟩
  · cases hdid with
    | removed hadded hactive hremove =>
        exact (TimerHeap.remove_ordered_iff hfiled.indexed hord ht hremove).mp hafter.heap
    | inactive hadded hinactive =>
        rw [hfiled.indexed.isActive ht] at hinactive
        cases hinactive
  · have hreach : Reach next KeepsOrder (start timers) s' :=
      h.step (e := .remove t) ⟨ht, hrises⟩ hnext
    obtain ⟨hfiled', hord'⟩ := reach_ordered hreach
    exact inOrder_of_ordered hfiled' hord'

/-- New timers with these deadlines, each its own name, in this order. -/
def adding (deadlines : List Nat) : List (Op Nat) :=
  deadlines.flatMap fun d => [.create d ⟨d, 0, 0, .sleepTimer⟩, .add d]

theorem timers_fire_in_order_five :
    ∃ s : Timers Nat,
      Reach next KeepsOrder (start fun _ => ⟨0, 0, 0, .sleepTimer⟩) s ∧ s.Stores 3 ∧
        ¬ s.Stores 2 ∧ s.InOrder := by
  obtain ⟨s, hreach, hstores⟩ := @exists_reach _ _ next KeepsOrder
    (start fun _ => ⟨0, 0, 0, .sleepTimer⟩) _ (adding [4, 2, 5, 1, 3] ++ [.poll 1, .remove 2])
    (fun s : Timers Nat => s.Stores 3 ∧ ¬ s.Stores 2) _ (by decide)
  exact ⟨s, hreach, hstores.1, hstores.2, (timers_fire_in_order hreach).1⟩

/-- Seven timers, of which the one with deadline 5 is cancelled: 4 fires before 3. -/
theorem timers_fire_out_of_order :
    ¬ ∀ s : Timers Nat,
      Reach next RemovesActive (start fun _ => ⟨0, 0, 0, .sleepTimer⟩) s → s.InOrder := by
  intro hclaim
  let events := adding [1, 4, 2, 5, 7, 6, 3] ++ [.remove 5, .poll 1, .poll 2]
  obtain ⟨s, hreach, hstores, hnext⟩ := @exists_reach _ _ next RemovesActive
    (start fun _ => ⟨0, 0, 0, .sleepTimer⟩) _ events
    (fun s : Timers Nat => (s.Stores 3 ∧ (s.queue.heap.timers 3).when = 3) ∧
      s.queue.nextDeadLine = some 4) _ (by decide)
  have hleast := ((hclaim s hreach).deadline 4 hnext).2 3 hstores.1
  rw [hstores.2] at hleast
  exact absurd hleast (by decide)

/-! ### Which timers are active -/

/-- No poll finds a timer, and no timer is removed from the last slot. -/
def KeepsTrack (s : Timers α) (op : Op α) : Prop :=
  match op with
  | .remove t => s.Stores t → (s.queue.heap.timers t).loc ≠ s.queue.heap.size
  | .poll now => ∀ when ∈ s.queue.nextDeadLine, now < when
  | _ => True

instance (s : Timers α) (op : Op α) : Decidable (s.KeepsTrack op) := by
  unfold KeepsTrack
  cases op <;> infer_instance

/-- The queue knows which of the timers that were added it stores, and where. -/
structure Tracked (s : Timers α) : Prop where
  active : ∀ t, s.added t = true → (s.queue.heap.isActive t = true ↔ s.Stores t)
  slot : ∀ t, s.Stores t → s.queue.heap.tree (s.queue.heap.timers t).loc = some t
  removes : ∀ t, s.Stores t → ∃ heap,
    s.queue.remove t = .ok (true, { s.queue with heap }) ∧
      heap.size + 1 = s.queue.heap.size ∧ ∀ u, heap.Stores u ↔ u ≠ t ∧ s.Stores u
  refuses : ∀ t, s.added t = true → ¬ s.Stores t →
    s.queue.remove t = .ok (false, s.queue)

/-- No timer that left the queue remembers a slot. -/
def Forgets (s : Timers α) : Prop :=
  ∀ t, s.added t = true → ¬ s.Stores t → (s.queue.heap.timers t).loc = 0

theorem tracked_of_forgets (h : s.Filed) (hforgets : s.Forgets) : s.Tracked where
  active t hadded := by
    refine ⟨fun hactive => ?_, h.indexed.isActive⟩
    by_contra hfree
    rw [TimerHeap.isActive, hforgets t hadded hfree] at hactive
    exact absurd (of_decide_eq_true hactive) (Nat.lt_irrefl 0)
  slot t := by
    rintro ⟨i, hi, hslot⟩
    rw [h.indexed.loc i t hi hslot]
    exact hslot
  removes t ht := by
    obtain ⟨heap, hremove, hsize, hbecomes⟩ := TimerHeap.remove_spec h.indexed ht
    refine ⟨heap, ?_, hsize, hbecomes.stores⟩
    rw [TimerQueue.remove, if_pos (h.indexed.isActive ht), hremove]
    rfl
  refuses t hadded hfree := by
    rw [TimerQueue.remove, if_neg]
    rw [TimerHeap.isActive, hforgets t hadded hfree]
    decide

theorem forgets_step (h : s.Filed) (hforgets : s.Forgets) (hop : s.KeepsTrack op)
    (hdid : Did s op s') : s'.Forgets := by
  intro u hadded hfree
  cases hdid with
  | @create t timer hunstored =>
      dsimp only at hadded
      have hu : u ≠ t := by
        rintro rfl
        rw [Function.update_self] at hadded
        cases hadded
      rw [Function.update_of_ne hu] at hadded
      exact (congrArg Timer.loc (TimerHeap.setTimer_of_ne _ _ hu)).trans
        (hforgets u hadded hfree)
  | @add t heap hunstored hinsert =>
      obtain ⟨-, hstores, -⟩ := add_becomes h hunstored hinsert
      have hu : u ≠ t := fun heq => hfree ((hstores u).mpr (Or.inl heq))
      have hold : ¬ s.Stores u := fun hu => hfree ((hstores u).mpr (Or.inr hu))
      change Function.update s.added t true u = true at hadded
      rw [Function.update_of_ne hu] at hadded
      have hkeep : heap.timers u = s.queue.heap.timers u :=
        (TimerHeap.insert_away hinsert hu hold).trans (TimerHeap.setTimer_of_ne _ _ hu)
      exact (congrArg Timer.loc hkeep).trans (hforgets u hadded hold)
  | @removed t heap haddedt hactive hremove =>
      have ht := ((tracked_of_forgets h hforgets).active t haddedt).mp hactive
      obtain ⟨heap', hremove', -, hbecomes⟩ := TimerHeap.remove_spec h.indexed ht
      obtain rfl : heap' = heap := Except.ok.inj (hremove'.symm.trans hremove)
      refine (TimerHeap.remove_away h.indexed ht (hop ht) hremove hfree).trans ?_
      split
      · rfl
      · rename_i hu
        exact hforgets u hadded fun hold => hfree ((hbecomes.stores u).mpr ⟨hu, hold⟩)
  | inactive => exact hforgets u hadded hfree
  | @due now when hnext hle =>
      exact absurd hle (Int.not_le.mpr (hop when hnext))
  | idle => exact hforgets u hadded hfree

theorem reach_forgets {timers : α → Timer}
    (h : Reach next KeepsTrack (start timers) s) : s.Filed ∧ s.Forgets := by
  refine h.invariant (I := fun s => s.Filed ∧ s.Forgets)
    ⟨Filed.start timers, fun t hadded => Bool.noConfusion hadded⟩
    fun s op s' ⟨hfiled, hforgets⟩ hop hnext => ?_
  have hdid := did_of_next hnext
  refine ⟨hfiled.step ?_ hdid, forgets_step hfiled hforgets hop hdid⟩
  rintro t rfl
  by_cases ht : s.Stores t
  · exact Or.inl ht
  · refine Or.inr ?_
    have hadded : s.added t = true := by
      cases hdid with
      | removed hadded => exact hadded
      | inactive hadded => exact hadded
    rw [TimerHeap.isActive, hforgets t hadded ht]
    rfl

/-- A timer that a poll returns, or that is removed from the last slot, stays active. -/
theorem not_tracked_step (h : s.Filed) (htracked : s.Tracked) (hop : ¬ s.KeepsTrack op)
    (hdid : Did s op s') : ¬ s'.Tracked := by
  have hstale : ∀ {s' : Timers α} {t : α}, s'.added t = true →
      (s'.queue.heap.timers t).loc ≠ 0 → ¬ s'.Stores t → ¬ s'.Tracked :=
    fun hadded hloc hfree htracked' => hfree ((htracked'.active _ hadded).mp
      (decide_eq_true (Nat.pos_of_ne_zero hloc)))
  cases hdid with
  | create | add => exact absurd trivial hop
  | @removed t heap hadded hactive hremove =>
      have ht := (htracked.active t hadded).mp hactive
      obtain ⟨heap', hremove', -, hbecomes⟩ := TimerHeap.remove_spec h.indexed ht
      obtain rfl : heap' = heap := Except.ok.inj (hremove'.symm.trans hremove)
      have hlast : (s.queue.heap.timers t).loc = s.queue.heap.size :=
        by_contra fun hne => hop fun _ => hne
      refine hstale hadded ?_ fun hstored => ((hbecomes.stores t).mp hstored).1 rfl
      rw [TimerHeap.remove_last h.indexed ht hlast hremove]
      obtain ⟨i, hi, -⟩ := ht
      exact Nat.ne_of_gt (Nat.lt_of_lt_of_le hi.1 hi.2)
  | @inactive t hadded hinactive =>
      refine absurd (fun ht => ?_) hop
      rw [h.indexed.isActive ht] at hinactive
      cases hinactive
  | @due now when hnext hle =>
      obtain ⟨hpos, t, hslot, -⟩ := nextDeadLine_root hnext
      have ht : s.Stores t := ⟨1, ⟨Nat.le_refl 1, hpos⟩, hslot⟩
      obtain ⟨t', hslot', -, -, -, hbecomes⟩ := TimerHeap.extractMin_spec h.indexed hpos
      obtain rfl : t' = t := Option.some.inj (hslot'.symm.trans hslot)
      refine hstale (h.added t' ht) ?_ fun hstored => ((hbecomes.stores t').mp hstored).1 rfl
      rw [TimerHeap.extractMin_loc h.indexed hpos hslot]
      exact Nat.one_ne_zero
  | idle hnext => exact absurd hnext hop

/-- The queue tracks its timers as long as no poll finds one and none is removed from
the last slot, and only as long. -/
theorem timers_tracked {timers : α → Timer}
    (h : Reach next KeepsTrack (start timers) s) :
    s.Tracked ∧ ∀ op s', s.next op = some s' → (s'.Tracked ↔ s.KeepsTrack op) := by
  obtain ⟨hfiled, hforgets⟩ := reach_forgets h
  have htracked := tracked_of_forgets hfiled hforgets
  refine ⟨htracked, fun op s' hnext => ⟨fun hafter => ?_, fun hop => ?_⟩⟩
  · by_contra hop
    exact not_tracked_step hfiled htracked hop (did_of_next hnext) hafter
  · obtain ⟨hfiled', hforgets'⟩ := reach_forgets (h.step hop hnext)
    exact tracked_of_forgets hfiled' hforgets'

theorem timers_tracked_two :
    ∃ s : Timers Nat,
      Reach next KeepsTrack (start fun _ => ⟨0, 0, 0, .sleepTimer⟩) s ∧ s.Stores 2 ∧
        ¬ s.Stores 1 ∧ s.added 1 = true ∧ s.Tracked := by
  obtain ⟨s, hreach, hstores⟩ := @exists_reach _ _ next KeepsTrack
    (start fun _ => ⟨0, 0, 0, .sleepTimer⟩) _ (adding [1, 2] ++ [.remove 1, .remove 1])
    (fun s : Timers Nat => s.Stores 2 ∧ ¬ s.Stores 1 ∧ s.added 1 = true) _ (by decide)
  exact ⟨s, hreach, hstores.1, hstores.2.1, hstores.2.2, (timers_tracked hreach).1⟩

/-- The second removal of timer 2 is granted, and takes timer 1 out of the queue. -/
theorem removed_again :
    ¬ ∀ s : Timers Nat,
      Reach next (fun _ _ => True) (start fun _ => ⟨0, 0, 0, .sleepTimer⟩) s →
      ∀ t s', s.added t = true → ¬ s.Stores t → s.next (.remove t) = some s' →
        ∀ u, s.Stores u → s'.Stores u := by
  intro hclaim
  obtain ⟨s, hreach, hadded, hfree, hstored, hafter⟩ := @exists_reach _ _ next
    (fun _ _ => True) (start fun _ => ⟨0, 0, 0, .sleepTimer⟩) _
    (adding [1, 2] ++ [.remove 2])
    (fun s : Timers Nat => s.added 2 = true ∧ ¬ s.Stores 2 ∧ s.Stores 1 ∧
      (s.next (.remove 2)).any (fun s' => decide (¬ s'.Stores 1)) = true) _ (by decide)
  obtain ⟨s', hnext, hlost⟩ := (Option.any_eq_true _ _).mp hafter
  exact of_decide_eq_true hlost (hclaim s hreach 2 s' hadded hfree hnext 1 hstored)

end Timers

end TimerQueue

end TwistSim

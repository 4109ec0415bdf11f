/-
The lock-free adversary leaves a thread running: the counters against the threads they
count, and what is known of them under `mutex_`.
-/
import TwistSim.LockFreeAdversary

namespace TwistSim

namespace LockFreeAdversary

/-- The threads that are in, and those whose exit has not resumed anybody yet. -/
def State.present (s : State) (threads : Nat) : Nat :=
  tally (fun t => (s.pc t).present) threads

/-- What a thread has made sure of under `mutex_`. -/
def Checked (p : Params) (threads : Nat) (s : State) : Pc → Prop
  | .checkingCount _ => s.suspendedThreadCount < p.suspendedThreadLimit
  | .checkingThreads _ count =>
      s.suspendedThreadCount < p.suspendedThreadLimit ∧
        s.suspendedThreads.length ≤ count
  | .checkingSuspended _ total =>
      s.suspendedThreadCount < p.suspendedThreadLimit ∧ total ≤ s.present threads
  | .adding _ =>
      s.suspendedThreadCount < p.suspendedThreadLimit ∧
        s.suspendedThreads.length + 1 < s.present threads
  | _ => True

structure Counted (p : Params) (threads : Nat) (s : State) : Prop where
  inRange : ∀ t, s.pc t ≠ .outside → 0 < t ∧ t ≤ threads
  threadCount : s.threadCount = tally (fun t => (s.pc t).entered) threads
  suspendedCount :
    s.suspendedThreadCount = tally (fun t => (s.pc t).suspended) threads
  limit : s.suspendedThreadCount ≤ p.suspendedThreadLimit
  holder : ∀ t, (s.pc t).locks = true ↔ s.mutex = some t
  checked : ∀ t, Checked p threads s (s.pc t)
  /-- Not all are waiting. -/
  spare : s.suspendedThreads ≠ [] → s.suspendedThreads.length < s.present threads

section Counted

variable {p : Params} {threads : Nat} {s s' : State} {t n : Nat} {pc : Pc}

theorem counted_start : Counted p threads State.start where
  inRange _ h := absurd rfl h
  threadCount := (tally_eq_zero fun _ => rfl).symm
  suspendedCount := (tally_eq_zero fun _ => rfl).symm
  limit := Nat.zero_le _
  holder _ := ⟨fun h => (by cases h), fun h => (by cases h)⟩
  checked _ := trivial
  spare h := absurd rfl h

theorem tally_goto (r : Pc → Bool) (hpos : 0 < t) (hle : t ≤ threads)
    (hpc : s'.pc = Function.update s.pc t pc) :
    tally (fun u => r (s'.pc u)) threads + (if r (s.pc t) then 1 else 0) =
      tally (fun u => r (s.pc u)) threads + if r pc then 1 else 0 := by
  rw [hpc]
  have hmove := @tally_update (fun u => r (Function.update s.pc t pc u))
    (fun u => r (s.pc u)) threads t hpos hle
    fun u hu => by rw [Function.update_of_ne hu]
  simpa only [Function.update_self] using hmove

theorem Checked.of_free (h : pc.locks = false) : Checked p threads s pc := by
  cases pc <;> trivial

theorem Checked.mono (h : Checked p threads s pc)
    (hqueue : s'.suspendedThreads = s.suspendedThreads)
    (hcount : s'.suspendedThreadCount ≤ s.suspendedThreadCount)
    (hpresent : s.present threads ≤ s'.present threads) : Checked p threads s' pc := by
  cases pc with
  | checkingCount n => exact Nat.lt_of_le_of_lt hcount h
  | checkingThreads n count => exact ⟨Nat.lt_of_le_of_lt hcount h.1, hqueue ▸ h.2⟩
  | checkingSuspended n total =>
      exact ⟨Nat.lt_of_le_of_lt hcount h.1, Nat.le_trans h.2 hpresent⟩
  | adding n =>
      refine ⟨Nat.lt_of_le_of_lt hcount h.1, ?_⟩
      rw [hqueue]
      exact Nat.lt_of_lt_of_le h.2 hpresent
  | _ => trivial

/-- A step of a thread that is in range, away from what is known under `mutex_`. -/
theorem Counted.counts (h : Counted p threads s) (hpos : 0 < t) (hle : t ≤ threads)
    (hpc : s'.pc = Function.update s.pc t pc)
    (hthreads : s'.threadCount + (if (s.pc t).entered then 1 else 0) =
      s.threadCount + if pc.entered then 1 else 0)
    (hsuspended : s'.suspendedThreadCount + (if (s.pc t).suspended then 1 else 0) =
      s.suspendedThreadCount + if pc.suspended then 1 else 0) :
    (∀ u, s'.pc u ≠ .outside → 0 < u ∧ u ≤ threads) ∧
      s'.threadCount = tally (fun u => (s'.pc u).entered) threads ∧
      s'.suspendedThreadCount = tally (fun u => (s'.pc u).suspended) threads := by
  refine ⟨?_, ?_, ?_⟩
  · rw [hpc]
    exact update_cases (P := fun u (q : Pc) => q ≠ .outside → 0 < u ∧ u ≤ threads)
      (fun _ => ⟨hpos, hle⟩) fun u _ => h.inRange u
  · have hmove := tally_goto Pc.entered hpos hle hpc
    have hcount := h.threadCount
    omega
  · have hmove := tally_goto Pc.suspended hpos hle hpc
    have hcount := h.suspendedCount
    omega

/-- A thread that does not hold `mutex_` goes on. -/
theorem Counted.moveFree (h : Counted p threads s) (hpos : 0 < t) (hle : t ≤ threads)
    (hpc : s'.pc = Function.update s.pc t pc)
    (hthreads : s'.threadCount + (if (s.pc t).entered then 1 else 0) =
      s.threadCount + if pc.entered then 1 else 0)
    (hsuspended : s'.suspendedThreadCount + (if (s.pc t).suspended then 1 else 0) =
      s.suspendedThreadCount + if pc.suspended then 1 else 0)
    (hcount : s'.suspendedThreadCount ≤ s.suspendedThreadCount)
    (hpresent : (s.pc t).present = true → pc.present = true)
    (hfrom : (s.pc t).locks = false) (hto : pc.locks = false)
    (hmutex : s'.mutex = s.mutex)
    (hqueue : s'.suspendedThreads = s.suspendedThreads) : Counted p threads s' := by
  obtain ⟨hrange, hthreadCount, hsuspendedCount⟩ :=
    h.counts hpos hle hpc hthreads hsuspended
  have hall : s.present threads ≤ s'.present threads := by
    refine tally_mono ?_
    rw [hpc]
    exact update_cases (P := fun u q => (s.pc u).present = true → Pc.present q = true)
      hpresent fun _ _ => id
  refine ⟨hrange, hthreadCount, hsuspendedCount, Nat.le_trans hcount h.limit, ?_, ?_,
    ?_⟩
  · rw [hpc, hmutex]
    refine update_cases (P := fun u q => Pc.locks q = true ↔ s.mutex = some u) ?_
      fun u _ => h.holder u
    rw [← h.holder t, hfrom, hto]
  · rw [hpc]
    exact update_cases (P := fun _ q => Checked p threads s' q) (.of_free hto)
      fun u _ => (h.checked u).mono hqueue hcount hall
  · intro hne
    rw [hqueue] at hne ⊢
    exact Nat.lt_of_lt_of_le (h.spare hne) hall

/-- Nobody who counts the threads sees the step. -/
theorem Counted.stay (h : Counted p threads s) (hrange : 0 < t ∧ t ≤ threads)
    (hpc : s'.pc = Function.update s.pc t pc)
    (hsame : pc.entered = (s.pc t).entered ∧ pc.suspended = (s.pc t).suspended ∧
      pc.present = true)
    (hfree : (s.pc t).locks = false ∧ pc.locks = false)
    (hthreads : s'.threadCount = s.threadCount)
    (hcount : s'.suspendedThreadCount = s.suspendedThreadCount)
    (hmutex : s'.mutex = s.mutex)
    (hqueue : s'.suspendedThreads = s.suspendedThreads) : Counted p threads s' := by
  obtain ⟨hentered, hsuspended, hpresent⟩ := hsame
  apply h.moveFree hrange.1 hrange.2 hpc
  · rw [hthreads, hentered]
  · rw [hcount, hsuspended]
  · exact Nat.le_of_eq hcount
  · exact fun _ => hpresent
  · exact hfree.1
  · exact hfree.2
  · exact hmutex
  · exact hqueue

/-- A thread takes `mutex_`, goes on under it, or leaves it. -/
theorem Counted.moveLocked (h : Counted p threads s) (hpos : 0 < t) (hle : t ≤ threads)
    (hpc : s'.pc = Function.update s.pc t pc)
    (hthreads : s'.threadCount + (if (s.pc t).entered then 1 else 0) =
      s.threadCount + if pc.entered then 1 else 0)
    (hsuspended : s'.suspendedThreadCount + (if (s.pc t).suspended then 1 else 0) =
      s.suspendedThreadCount + if pc.suspended then 1 else 0)
    (hlimit : s'.suspendedThreadCount ≤ p.suspendedThreadLimit)
    (hmutex : s.mutex = none ∨ s.mutex = some t)
    (hmutex' : s'.mutex = if pc.locks then some t else none)
    (hchecked : Checked p threads s' pc)
    (hspare : s'.suspendedThreads ≠ [] →
      s'.suspendedThreads.length < s'.present threads) : Counted p threads s' := by
  obtain ⟨hrange, hthreadCount, hsuspendedCount⟩ :=
    h.counts hpos hle hpc hthreads hsuspended
  have hothers : ∀ u, u ≠ t → (s.pc u).locks = false := by
    intro u hu
    rw [Bool.eq_false_iff]
    intro hlocks
    have hheld := (h.holder u).mp hlocks
    rcases hmutex with hm | hm <;> rw [hm] at hheld <;> cases hheld
    exact hu rfl
  refine ⟨hrange, hthreadCount, hsuspendedCount, hlimit, ?_, ?_, hspare⟩
  · rw [hpc, hmutex']
    refine update_cases
      (P := fun u q => Pc.locks q = true ↔ (if pc.locks then some t else none) = some u)
      ?_ fun u hu => ?_
    · split <;> simp_all
    · rw [hothers u hu]
      split <;> simp [Ne.symm hu]
  · rw [hpc]
    exact update_cases (P := fun _ q => Checked p threads s' q) hchecked
      fun u hu => .of_free (hothers u hu)

/-! ### The queue and the threads in it -/

/-- Who is linked has been suspended, and the thread is found from its node. -/
theorem Placed.queued (h : Placed s) (hmem : n ∈ s.suspendedThreads) :
    (s.pc (s.node n).owner).place = some (.awaits, n) := by
  obtain ⟨g, hg⟩ := h.stage n
  obtain ⟨t, rfl⟩ := hg.queued hmem
  rw [hg.node]
  exact (hg.near t .awaits).mpr ⟨rfl, rfl⟩

theorem classes_of_awaits (h : pc.place = some (.awaits, n)) :
    pc.entered = true ∧ pc.suspended = true ∧ pc.present = true ∧ pc.locks = false := by
  cases pc with
  | awaiting | asleep => exact ⟨rfl, rfl, rfl, rfl⟩
  | _ => cases h

/-- The threads in the queue, in its order. -/
def State.waiters (s : State) : List Nat :=
  s.suspendedThreads.map fun n => (s.node n).owner

theorem waiting_iff : s.Waiting t ↔ t ∈ s.waiters := List.mem_map.symm

theorem Placed.classes (h : Placed s) (ht : t ∈ s.waiters) :
    (s.pc t).entered = true ∧ (s.pc t).suspended = true ∧ (s.pc t).present = true ∧
      (s.pc t).locks = false := by
  obtain ⟨n, hmem, rfl⟩ := List.mem_map.mp ht
  exact classes_of_awaits (h.queued hmem)

theorem Placed.waiters_nodup (h : Placed s) : s.waiters.Nodup := by
  refine List.Nodup.map_on (fun n hn m hm heq => ?_) h.nodup
  have hplace := h.queued hn
  rw [heq, h.queued hm] at hplace
  cases hplace
  rfl

theorem Counted.range_of_entered (h : Counted p threads s)
    (ht : (s.pc t).present = true ∨ (s.pc t).locks = true) : 0 < t ∧ t ≤ threads := by
  apply h.inRange
  intro hpc
  rw [hpc] at ht
  rcases ht with ht | ht <;> cases ht

theorem Counted.queue_le (h : Counted p threads s) (hplaced : Placed s) :
    s.suspendedThreads.length ≤ s.suspendedThreadCount := by
  rw [h.suspendedCount, ← List.length_map (f := fun n => (s.node n).owner)]
  refine length_le_tally hplaced.waiters_nodup fun t ht => ?_
  obtain ⟨-, hsuspended, hpresent, -⟩ := hplaced.classes ht
  obtain ⟨hpos, hle⟩ := h.range_of_entered (.inl hpresent)
  exact ⟨hpos, hle, hsuspended⟩

theorem present_of_entered (h : pc.entered = true) : pc.present = true := by
  cases pc with
  | resuming exits => rfl
  | waking exits n =>
      cases exits with
      | false => rfl
      | true => cases h
  | _ => first | rfl | cases h

theorem Counted.threadCount_le (h : Counted p threads s) :
    s.threadCount ≤ s.present threads := by
  rw [h.threadCount]
  exact tally_mono fun t => present_of_entered

/-! ### Every step keeps the counts -/

theorem classes_of_plain (h : pc.plain = true) :
    pc.entered = true ∧ pc.suspended = false ∧ pc.present = true ∧ pc.locks = false := by
  cases pc with
  | resuming exits =>
      cases exits with
      | false => exact ⟨rfl, rfl, rfl, rfl⟩
      | true => cases h
  | _ => first | exact ⟨rfl, rfl, rfl, rfl⟩ | cases h

/-- `tally` of one place is not lost when the thread leaves it. -/
theorem present_move (hpos : 0 < t) (hle : t ≤ threads)
    (hpc : s'.pc = Function.update s.pc t pc) (hpresent : (s.pc t).present = true) :
    s.present threads ≤ s'.present threads + 1 ∧
      (pc.present = true → s'.present threads = s.present threads) := by
  have hmove := tally_goto Pc.present hpos hle hpc
  change s'.present threads + _ = s.present threads + _ at hmove
  rw [hpresent] at hmove
  constructor
  · split at hmove <;> split at hmove <;> omega
  · intro hkeep
    rw [hkeep] at hmove
    exact Nat.add_right_cancel hmove

/-- Under `mutex_`, neither the counters nor the queue change. -/
theorem Counted.under (h : Counted p threads s) (hlocks : (s.pc t).locks = true)
    (hkept : pc.entered = (s.pc t).entered ∧ pc.suspended = (s.pc t).suspended ∧
      (s.pc t).present = true ∧ pc.present = true ∧ pc.locks = true)
    (hchecked : Checked p threads s pc) :
    Counted p threads (s.goto t pc) := by
  obtain ⟨hentered, hsuspended, hfrom, hto, hunder⟩ := hkept
  obtain ⟨hpos, hle⟩ := h.range_of_entered (.inl hfrom)
  have hmutex := (h.holder t).mp hlocks
  have hpresent : (s.goto t pc).present threads = s.present threads :=
    (present_move hpos hle rfl hfrom).2 hto
  refine h.moveLocked hpos hle rfl ?_ ?_ h.limit (.inr hmutex) ?_
    (hchecked.mono rfl (Nat.le_refl _) (Nat.le_of_eq hpresent.symm)) ?_
  · rw [hentered]
    rfl
  · rw [hsuspended]
    rfl
  · rw [hunder]
    exact hmutex
  · rw [hpresent]
    exact h.spare

theorem Counted.lock (h : Counted p threads s) (hpc : s.pc t = .locking n)
    (hfree : s.mutex = none) :
    Counted p threads { s.goto t (.checkingLimit n) with mutex := some t } := by
  have hfrom : (s.pc t).present = true := by rw [hpc]; rfl
  obtain ⟨hpos, hle⟩ := h.range_of_entered (.inl hfrom)
  refine h.moveLocked hpos hle rfl ?_ ?_ h.limit (.inl hfree) rfl trivial ?_
  · rw [hpc]
    rfl
  · rw [hpc]
    rfl
  · rw [(present_move hpos hle rfl hfrom).2 rfl]
    exact h.spare

theorem Counted.refuse (h : Counted p threads s) (hplace : (s.pc t).place = some (.prepares, n))
    (hlocks : (s.pc t).locks = true) : Counted p threads (s.refuse t n) := by
  have hclass : (s.pc t).entered = true ∧ (s.pc t).suspended = false ∧
      (s.pc t).present = true := by
    cases hpc : s.pc t <;> rw [hpc] at hplace <;>
      first | exact ⟨rfl, rfl, rfl⟩ | cases hplace
  obtain ⟨hentered, hsuspended, hfrom⟩ := hclass
  obtain ⟨hpos, hle⟩ := h.range_of_entered (.inl hfrom)
  have hmutex := (h.holder t).mp hlocks
  refine @Counted.moveLocked _ _ _ _ _ .running h hpos hle rfl ?_ ?_ h.limit (.inr hmutex)
    rfl trivial ?_
  · rw [hentered]
    rfl
  · rw [hsuspended]
    rfl
  · rw [(present_move hpos hle rfl hfrom).2 rfl]
    exact h.spare

theorem Counted.add (h : Counted p threads s) (hpc : s.pc t = .adding n) :
    Counted p threads { (s.goto t (.awaiting n)).setNode n (s.node n).link with
      suspendedThreads := s.suspendedThreads ++ [n]
      suspendedThreadCount := s.suspendedThreadCount + 1
      mutex := none } := by
  have hfrom : (s.pc t).present = true := by rw [hpc]; rfl
  obtain ⟨hpos, hle⟩ := h.range_of_entered (.inl hfrom)
  have hmutex := (h.holder t).mp (by rw [hpc]; rfl)
  have hchecked := h.checked t
  rw [hpc] at hchecked
  refine h.moveLocked hpos hle rfl ?_ ?_ hchecked.1 (.inr hmutex) rfl trivial ?_
  · rw [hpc]
    rfl
  · rw [hpc]
    rfl
  · rw [(present_move hpos hle rfl hfrom).2 rfl]
    intro _
    change (s.suspendedThreads ++ [n]).length < _
    rw [List.length_append]
    exact hchecked.2

theorem Counted.nobody (h : Counted p threads s) (hpc : s.pc t = .resuming true)
    (hfree : s.mutex = none) (hempty : s.suspendedThreads = []) :
    Counted p threads (s.goto t .exited) := by
  obtain ⟨hpos, hle⟩ := h.range_of_entered (t := t) (.inl (by rw [hpc]; rfl))
  refine h.moveLocked hpos hle rfl ?_ ?_ h.limit (.inl hfree) hfree trivial ?_
  · rw [hpc]
    rfl
  · rw [hpc]
    rfl
  · exact fun hne => absurd hempty hne

theorem Counted.pick {exits : Bool} {rest : List Nat} (h : Counted p threads s)
    (hpc : s.pc t = .resuming exits) (hfree : s.mutex = none)
    (hperm : (n :: rest).Perm s.suspendedThreads) :
    Counted p threads { (s.goto t (.waking exits n)).setNode n (s.node n).unlink with
      suspendedThreads := rest
      mutex := some t } := by
  have hfrom : (s.pc t).present = true := by rw [hpc]; rfl
  obtain ⟨hpos, hle⟩ := h.range_of_entered (.inl hfrom)
  refine h.moveLocked hpos hle rfl ?_ ?_ h.limit (.inl hfree) rfl trivial ?_
  · rw [hpc]
    cases exits <;> rfl
  · rw [hpc]
    rfl
  · intro _
    have hlength : rest.length + 1 = s.suspendedThreads.length := hperm.length_eq
    have hne : s.suspendedThreads ≠ [] := List.ne_nil_of_length_eq_add_one hlength.symm
    have hspare := h.spare hne
    have hmove := (@present_move threads s
      { (s.goto t (.waking exits n)).setNode n (s.node n).unlink with
        suspendedThreads := rest
        mutex := some t } t _ hpos hle rfl hfrom).1
    change rest.length < _
    omega

theorem Counted.set {exits : Bool} (h : Counted p threads s)
    (hpc : s.pc t = .waking exits n) :
    Counted p threads { (s.goto t (afterResume exits)).setNode n (s.node n).set with
      mutex := none } := by
  have hlocks : (s.pc t).locks = true := by rw [hpc]; rfl
  obtain ⟨hpos, hle⟩ := h.range_of_entered (.inr hlocks)
  have hmutex := (h.holder t).mp hlocks
  refine h.moveLocked hpos hle rfl ?_ ?_ h.limit (.inr hmutex) ?_ ?_ ?_
  · rw [hpc]
    cases exits <;> rfl
  · rw [hpc]
    cases exits <;> rfl
  · cases exits <;> rfl
  · cases exits <;> trivial
  · have hmove := @tally_goto threads s
      { (s.goto t (afterResume exits)).setNode n (s.node n).set with mutex := none }
      t (afterResume exits) Pc.present hpos hle rfl
    rw [hpc] at hmove
    have hsame : (Pc.waking exits n).present = (afterResume exits).present := by
      cases exits <;> rfl
    rw [hsame] at hmove
    intro hne
    exact Nat.lt_of_lt_of_eq (h.spare hne) (Nat.add_right_cancel hmove).symm

theorem Step.counted (hstep : Step p threads s s') (h : Counted p threads s)
    (hplaced : Placed s) : Counted p threads s' := by
  cases hstep with
  | plain hfrom hto park faults left yields =>
      obtain ⟨hentered, hsuspended, hpresent, hlocks⟩ := classes_of_plain hfrom
      obtain ⟨hentered', hsuspended', hpresent', hlocks'⟩ := classes_of_plain hto
      exact h.stay (h.range_of_entered (.inl hpresent)) rfl
        ⟨hentered'.trans hentered.symm, hsuspended'.trans hsuspended.symm, hpresent'⟩
        ⟨hlocks, hlocks'⟩ rfl rfl rfl rfl
  | enter hpos hle hpc =>
      refine h.moveFree hpos hle rfl ?_ ?_ (Nat.le_refl _) (fun _ => rfl)
        (by rw [hpc]; rfl) rfl rfl rfl
      · rw [hpc]
        rfl
      · rw [hpc]
        rfl
  | @exit t hpc =>
      obtain ⟨hpos, hle⟩ := h.range_of_entered (t := t) (.inl (by rw [hpc]; rfl))
      have hin : 0 < s.threadCount := by
        rw [h.threadCount]
        exact tally_pos (p := fun t => (s.pc t).entered) (by rw [hpc]; rfl) hpos hle
      refine h.moveFree hpos hle rfl ?_ ?_ (Nat.le_refl _) (fun _ => rfl)
        (by rw [hpc]; rfl) rfl rfl rfl
      · rw [hpc]
        exact Nat.sub_add_cancel hin
      · rw [hpc]
        rfl
  | @construct t hpc =>
      refine h.stay (t := t) (h.range_of_entered (.inl (by rw [hpc]; rfl))) rfl ?_ ?_ rfl rfl
        rfl rfl
      · rw [hpc]
        exact ⟨rfl, rfl, rfl⟩
      · rw [hpc]
        exact ⟨rfl, rfl⟩
  | lock hpc hfree => exact h.lock hpc hfree
  | belowLimit hpc hroom =>
      refine h.under (by rw [hpc]; rfl) ?_ hroom
      rw [hpc]
      exact ⟨rfl, rfl, rfl, rfl, rfl⟩
  | refuse hplace hlocks => exact h.refuse hplace hlocks
  | @loadSuspended t n hpc =>
      have hchecked := h.checked t
      rw [hpc] at hchecked
      refine h.under (by rw [hpc]; rfl) ?_ ⟨hchecked, h.queue_le hplaced⟩
      rw [hpc]
      exact ⟨rfl, rfl, rfl, rfl, rfl⟩
  | @loadThreads t n hpc =>
      have hchecked := h.checked t
      rw [hpc] at hchecked
      refine h.under (by rw [hpc]; rfl) ?_ ⟨hchecked, h.threadCount_le⟩
      rw [hpc]
      exact ⟨rfl, rfl, rfl, rfl, rfl⟩
  | @spareThreads t n count hpc hspare =>
      have hchecked := h.checked t
      rw [hpc] at hchecked
      obtain ⟨hroom, hqueue⟩ := hchecked
      have hthreads := h.threadCount_le
      refine h.under (by rw [hpc]; rfl) ?_ ⟨hroom, by omega⟩
      rw [hpc]
      exact ⟨rfl, rfl, rfl, rfl, rfl⟩
  | @spareSuspended t n total hpc hspare =>
      have hchecked := h.checked t
      rw [hpc] at hchecked
      obtain ⟨hroom, htotal⟩ := hchecked
      have hqueue := h.queue_le hplaced
      refine h.under (by rw [hpc]; rfl) ?_ ⟨hroom, by omega⟩
      rw [hpc]
      exact ⟨rfl, rfl, rfl, rfl, rfl⟩
  | add hpc => exact h.add hpc
  | look hfrom hto =>
      obtain ⟨hentered, hsuspended, hpresent, hlocks⟩ := classes_of_awaits hfrom
      obtain ⟨hentered', hsuspended', hpresent', hlocks'⟩ := classes_of_awaits hto
      exact h.stay (h.range_of_entered (.inl hpresent)) rfl
        ⟨hentered'.trans hentered.symm, hsuspended'.trans hsuspended.symm, hpresent'⟩
        ⟨hlocks, hlocks'⟩ rfl rfl rfl rfl
  | @wake t n hpc hready =>
      refine h.stay (t := t) (h.range_of_entered (.inl (by rw [hpc]; rfl))) rfl ?_ ?_ rfl rfl
        rfl rfl
      · rw [hpc]
        exact ⟨rfl, rfl, rfl⟩
      · rw [hpc]
        exact ⟨rfl, rfl⟩
  | @leave t hpc =>
      obtain ⟨hpos, hle⟩ := h.range_of_entered (t := t) (.inl (by rw [hpc]; rfl))
      have hin : 0 < s.suspendedThreadCount := by
        rw [h.suspendedCount]
        exact tally_pos (p := fun t => (s.pc t).suspended) (by rw [hpc]; rfl) hpos hle
      refine h.moveFree hpos hle rfl ?_ ?_ (Nat.sub_le _ _) (fun _ => rfl)
        (by rw [hpc]; rfl) rfl rfl rfl
      · rw [hpc]
        rfl
      · rw [hpc]
        exact Nat.sub_add_cancel hin
  | nobody hpc hfree hempty => exact h.nobody hpc hfree hempty
  | pick hpc hfree hperm => exact h.pick hpc hfree hperm
  | set hpc => exact h.set hpc

theorem reached_invariant (h : Reached p threads s) : Placed s ∧ Counted p threads s := by
  refine h.invariant (I := fun s => Placed s ∧ Counted p threads s)
    ⟨placed_start, counted_start⟩ ?_
  rintro s e s' ⟨hplaced, hcounted⟩ - hnext
  have hstep := step_of_next hnext
  exact ⟨hstep.placed hplaced, hstep.counted hcounted hplaced⟩

/-! ### What the adversary promises -/

/-- Some other thread runs, or an exit is about to resume one. -/
def State.LeavesRunning (s : State) (t : Nat) : Prop :=
  (∃ u, u ≠ t ∧ (s.pc u).entered = true ∧ ¬ s.Waiting u) ∨ ∃ u, s.pc u = .resuming true

/-- Linked at most once, unlinked and `Set` no more often; and as often when the owner
has left the node. -/
structure WaitNode.Proper (node : WaitNode) : Prop where
  links : node.links ≤ 1
  unlinks : node.unlinks ≤ node.links
  sets : node.sets ≤ node.unlinks
  left : node.alive = false → node.unlinks = node.links ∧ node.sets = node.links

structure Sound (p : Params) (s : State) : Prop where
  running : ∀ t, s.Waiting t → s.LeavesRunning t
  limit : ∀ ts : List Nat, ts.Nodup → (∀ t ∈ ts, s.Waiting t) →
    ts.length ≤ p.suspendedThreadLimit
  nodes : ∀ n, (s.node n).Proper
  alive : ∀ t, ∀ n ∈ s.touches t, (s.node n).alive = true
  report : (∀ t, s.pc t = .outside ∨ s.pc t = .exited) → s.suspendedThreadCount = 0
  /-- Then nobody is left on a node. -/
  settled : (∀ t, s.pc t = .outside ∨ s.pc t = .exited) →
    ∀ n < s.nodes, (s.node n).alive = false

theorem leaves_running (h : Counted p threads s) (ht : s.Waiting t) : s.LeavesRunning t := by
  by_contra hnot
  obtain ⟨hall, hexit⟩ := not_or.mp hnot
  have hmem : t ∈ s.waiters := waiting_iff.mp ht
  have hne : s.suspendedThreads ≠ [] := List.ne_nil_of_mem (List.mem_map.mp hmem).choose_spec.1
  refine absurd (h.spare hne) (Nat.not_lt.mpr ?_)
  rw [← List.length_map (f := fun n => (s.node n).owner)]
  refine tally_le_length fun u _ hu => ?_
  -- Who is present has entered, as no exit is pending, and so it is waiting.
  by_contra hout
  have hwaits : ¬ s.Waiting u := fun hw => hout (waiting_iff.mp hw)
  refine hall ⟨u, fun heq => hwaits (heq ▸ ht), ?_, hwaits⟩
  cases hpc : s.pc u with
  | resuming exits =>
      cases exits with
      | false => rfl
      | true => exact absurd (Exists.intro u hpc) hexit
  | waking exits n =>
      cases exits with
      | false => rfl
      | true =>
          rw [hpc] at hu
          cases hu
  | _ => first | rfl | (rw [hpc] at hu; cases hu)

theorem waiting_le (hplaced : Placed s) (h : Counted p threads s) {ts : List Nat}
    (hnodup : ts.Nodup) (hts : ∀ t ∈ ts, s.Waiting t) :
    ts.length ≤ p.suspendedThreadLimit := by
  refine Nat.le_trans ?_ h.limit
  rw [h.suspendedCount]
  refine length_le_tally hnodup fun t ht => ?_
  obtain ⟨-, hsuspended, hpresent, -⟩ := hplaced.classes (waiting_iff.mp (hts t ht))
  obtain ⟨hpos, hle⟩ := h.range_of_entered (.inl hpresent)
  exact ⟨hpos, hle, hsuspended⟩

theorem Stage.proper (g : Stage) : g.node.Proper := by
  cases g <;> constructor <;> simp [node, WaitNode.fresh, WaitNode.link, WaitNode.unlink,
    WaitNode.set, WaitNode.drop]

theorem Placed.alive_of_place {r : Pc.Role} (h : Placed s)
    (hplace : (s.pc t).place = some (r, n)) : (s.node n).alive = true := by
  obtain ⟨g, hg⟩ := h.stage n
  rw [hg.node]
  exact Stage.alive_of_near ((hg.near t r).mp hplace)

theorem Placed.alive (h : Placed s) (hmem : n ∈ s.touches t) :
    (s.node n).alive = true := by
  have hqueue : n ∈ s.suspendedThreads → (s.node n).alive = true :=
    fun hin => h.alive_of_place (h.queued hin)
  unfold State.touches at hmem
  split at hmem
  case h_1 hpc | h_2 hpc | h_3 hpc | h_4 hpc | h_5 hpc | h_7 hpc | h_8 hpc | h_10 hpc =>
      cases List.mem_singleton.mp hmem
      exact h.alive_of_place (by rw [hpc]; rfl)
  case h_6 hpc =>
      rcases List.mem_cons.mp hmem with rfl | hin
      · exact h.alive_of_place (by rw [hpc]; rfl)
      · exact hqueue hin
  case h_9 => exact hqueue hmem
  case h_11 => cases hmem

theorem Placed.settled (h : Placed s) (hall : ∀ t, (s.pc t).place = none)
    (hn : n < s.nodes) : (s.node n).alive = false := by
  obtain ⟨g, hg⟩ := h.stage n
  have haway : ∀ t r, ¬ g.near t r := by
    intro t r hnear
    have hplace := (hg.near t r).mpr hnear
    rw [hall t] at hplace
    cases hplace
  rw [hg.node]
  cases g with
  | unborn => exact absurd (hg.born.mp hn) Bool.false_ne_true
  | refused | returned => rfl
  | prepared t => exact absurd ⟨rfl, rfl⟩ (haway t .prepares)
  | queued t | signalled t => exact absurd ⟨rfl, rfl⟩ (haway t .awaits)
  | picked t w => exact absurd (.inl ⟨rfl, rfl⟩) (haway t .awaits)

/-- Every run of the adversary is sound. -/
theorem lockFree_sound (p : Params) (threads : Nat) (s : State)
    (h : Reached p threads s) : Sound p s := by
  obtain ⟨hplaced, hcounted⟩ := reached_invariant h
  refine ⟨fun t => leaves_running hcounted,
    fun ts => waiting_le hplaced hcounted, fun n => ?_,
    fun t n => hplaced.alive, fun hall => ?_, fun hall n => hplaced.settled ?_⟩
  · obtain ⟨g, hg⟩ := hplaced.stage n
    rw [hg.node]
    exact g.proper
  · rw [hcounted.suspendedCount]
    refine tally_eq_zero fun t => ?_
    rcases hall t with hpc | hpc <;> rw [hpc] <;> rfl
  · intro t
    rcases hall t with hpc | hpc <;> rw [hpc] <;> rfl

end Counted

instance (s : State) (t : Nat) : Decidable (s.Waiting t) :=
  inferInstanceAs (Decidable (∃ n ∈ s.suspendedThreads, (s.node n).owner = t))

/-- Two threads enter, and a fault suspends the first of them. -/
def suspendOne : List Event :=
  [.enter 1, .enter 2, .enablePark 1, .fault 1] ++ List.replicate 9 (.resume 1 0)

theorem lockFree_sound_suspendOne :
    ∃ s, Reached ⟨1, fun _ => 1⟩ 2 s ∧ s.Waiting 1 ∧ Sound ⟨1, fun _ => 1⟩ s := by
  obtain ⟨s, hs, hwaits⟩ := @exists_reach _ _
    (State.next ⟨1, fun _ => 1⟩ 2) (fun _ _ => True) State.start _ suspendOne
    (fun s => s.Waiting 1) _ (by decide +kernel)
  exact ⟨s, hs, hwaits, lockFree_sound _ 2 s hs⟩

end LockFreeAdversary

end TwistSim

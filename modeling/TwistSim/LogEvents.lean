/-
The events of the logger: who owns them, what is in them, and when a flush returns.
-/
import TwistSim.Logger

namespace TwistSim

namespace Logger

/-! ### Owners -/

/-- Every event is in the one list that all the shared places make up, or one thread
has it. -/
structure Exclusive (pc : Nat → Pc) (nodes : Nat) (shared : List Nat) : Prop where
  nodup : shared.Nodup
  born : ∀ n ∈ shared, n < nodes
  held : ∀ t n, (pc t).event = some n → n < nodes ∧ n ∉ shared
  apart : ∀ t u n, (pc t).event = some n → (pc u).event = some n → t = u
  all : ∀ n < nodes, n ∈ shared ∨ ∃ t, (pc t).event = some n

section Exclusive

variable {pcs : Nat → Pc} {nodes t n : Nat} {shared shared' : List Nat} {pc : Pc}

theorem exclusive_start : Exclusive (fun _ => .idle) 0 [] where
  nodup := List.nodup_nil
  born _ h := absurd h List.not_mem_nil
  held _ _ h := by cases h
  apart _ _ _ h := by cases h
  all _ h := absurd h (Nat.not_lt_zero _)

theorem Exclusive.perm (h : Exclusive pcs nodes shared) (hperm : shared'.Perm shared) :
    Exclusive pcs nodes shared' where
  nodup := hperm.nodup_iff.mpr h.nodup
  born n hn := h.born n (hperm.mem_iff.mp hn)
  held u n hu := ⟨(h.held u n hu).1, mt hperm.mem_iff.mp (h.held u n hu).2⟩
  apart := h.apart
  all n hn := (h.all n hn).imp_left hperm.mem_iff.mpr

/-- The thread keeps what it has. -/
theorem Exclusive.goto (h : Exclusive pcs nodes shared) (hpc : pc.event = (pcs t).event) :
    Exclusive (Function.update pcs t pc) nodes shared := by
  have hsame : ∀ u, (Function.update pcs t pc u).event = (pcs u).event :=
    update_cases (P := fun u (q : Pc) => q.event = (pcs u).event) hpc fun _ _ => rfl
  refine ⟨h.nodup, h.born, fun u n hu => ?_, fun u v n hu hv => ?_, fun n hn => ?_⟩
  · exact h.held u n (hsame u ▸ hu)
  · exact h.apart u v n (hsame u ▸ hu) (hsame v ▸ hv)
  · exact (h.all n hn).imp_right fun ⟨u, hu⟩ => ⟨u, (hsame u).trans hu⟩

/-- A thread that had nothing takes an event. -/
theorem Exclusive.take (h : Exclusive pcs nodes (n :: shared))
    (hnone : (pcs t).event = none) (hpc : pc.event = some n) :
    Exclusive (Function.update pcs t pc) nodes shared := by
  obtain ⟨hout, hnodup⟩ := List.nodup_cons.mp h.nodup
  have hothers : ∀ u m, (Function.update pcs t pc u).event = some m →
      u = t ∧ m = n ∨ u ≠ t ∧ (pcs u).event = some m := by
    refine update_cases (P := fun u (q : Pc) => ∀ m, q.event = some m →
      u = t ∧ m = n ∨ u ≠ t ∧ (pcs u).event = some m) ?_ fun u hu m hm => .inr ⟨hu, hm⟩
    intro m hm
    rw [hpc] at hm
    cases hm
    exact .inl ⟨rfl, rfl⟩
  have hnot : ∀ u, (pcs u).event ≠ some n := fun u hu =>
    (h.held u n hu).2 List.mem_cons_self
  refine ⟨hnodup, fun m hm => h.born m (List.mem_cons_of_mem n hm), fun u m hu => ?_,
    fun u v m hu hv => ?_, fun m hm => ?_⟩
  · rcases hothers u m hu with ⟨-, rfl⟩ | ⟨-, hold⟩
    · exact ⟨h.born m List.mem_cons_self, hout⟩
    · exact ⟨(h.held u m hold).1, fun hin => (h.held u m hold).2 (List.mem_cons_of_mem n hin)⟩
  · rcases hothers u m hu with ⟨rfl, rfl⟩ | ⟨-, hu'⟩ <;>
      rcases hothers v m hv with ⟨rfl, heq⟩ | ⟨-, hv'⟩
    · rfl
    · exact absurd hv' (hnot v)
    · exact absurd (heq ▸ hu') (hnot u)
    · exact h.apart u v m hu' hv'
  · rcases h.all m hm with hin | ⟨u, hu⟩
    · rcases List.mem_cons.mp hin with rfl | hin
      · exact .inr ⟨t, by rw [Function.update_self, hpc]⟩
      · exact .inl hin
    · have hne : u ≠ t := by
        rintro rfl
        rw [hnone] at hu
        cases hu
      exact .inr ⟨u, by rw [Function.update_of_ne hne, hu]⟩

/-- A new event comes to be shared, for a moment. -/
theorem Exclusive.allocate (h : Exclusive pcs nodes shared) :
    Exclusive pcs (nodes + 1) (nodes :: shared) := by
  have hout : nodes ∉ shared := fun hin => Nat.lt_irrefl _ (h.born nodes hin)
  refine ⟨List.nodup_cons.mpr ⟨hout, h.nodup⟩, fun m hm => ?_, fun u m hu => ?_, h.apart,
    fun m hm => ?_⟩
  · rcases List.mem_cons.mp hm with rfl | hin
    · exact Nat.lt_succ_self m
    · exact Nat.lt_succ_of_lt (h.born m hin)
  · obtain ⟨hlt, hnot⟩ := h.held u m hu
    refine ⟨Nat.lt_succ_of_lt hlt, fun hin => ?_⟩
    rcases List.mem_cons.mp hin with rfl | hin
    · exact Nat.lt_irrefl m hlt
    · exact hnot hin
  · rcases Nat.lt_or_eq_of_le (Nat.le_of_lt_succ hm) with hlt | rfl
    · exact (h.all m hlt).imp_left (List.mem_cons_of_mem nodes)
    · exact .inl List.mem_cons_self

/-- A thread gives its event away. -/
theorem Exclusive.give (h : Exclusive pcs nodes shared) (hsome : (pcs t).event = some n)
    (hpc : pc.event = none) : Exclusive (Function.update pcs t pc) nodes (n :: shared) := by
  obtain ⟨hlt, hout⟩ := h.held t n hsome
  have hothers : ∀ u m, (Function.update pcs t pc u).event = some m →
      u ≠ t ∧ (pcs u).event = some m := by
    refine update_cases (P := fun u (q : Pc) => ∀ m, q.event = some m →
      u ≠ t ∧ (pcs u).event = some m) ?_ fun u hu m hm => ⟨hu, hm⟩
    intro m hm
    rw [hpc] at hm
    cases hm
  refine ⟨List.nodup_cons.mpr ⟨hout, h.nodup⟩, fun m hm => ?_, fun u m hu => ?_,
    fun u v m hu hv => ?_, fun m hm => ?_⟩
  · rcases List.mem_cons.mp hm with rfl | hin
    · exact hlt
    · exact h.born m hin
  · obtain ⟨hne, hu⟩ := hothers u m hu
    obtain ⟨hlt, hnot⟩ := h.held u m hu
    refine ⟨hlt, fun hin => ?_⟩
    rcases List.mem_cons.mp hin with rfl | hin
    · exact hne (h.apart u t m hu hsome)
    · exact hnot hin
  · exact h.apart u v m (hothers u m hu).2 (hothers v m hv).2
  · rcases h.all m hm with hin | ⟨u, hu⟩
    · exact .inl (List.mem_cons_of_mem n hin)
    · by_cases hut : u = t
      · subst hut
        rw [hsome] at hu
        cases hu
        exact .inl List.mem_cons_self
      · exact .inr ⟨u, by rw [Function.update_of_ne hut, hu]⟩

end Exclusive

/-! ### Lists -/

/-- The events that the writer owns, in the order of their dequeuing, and those of them
that are left to be written. -/
inductive Batch (next : Nat → Option Nat) : Writer → List Nat → List Nat → Prop where
  | dequeuing : Batch next .dequeuing [] []
  | rotating {head : Nat} {rest : List Nat} (h : Trail next (next head) rest none) :
      Batch next (.rotating head) (rest.reverse ++ [head]) (rest.reverse ++ [head])
  | stepping {head prev current : Nat} {rest turned : List Nat}
      (h : Trail next (next current) rest none)
      (hturned : Trail next (some prev) turned (some head)) :
      Batch next (.stepping head prev current)
        (rest.reverse ++ current :: turned ++ [head])
        (rest.reverse ++ current :: turned ++ [head])
  | turning {head prev current : Nat} {n : Option Nat} {rest turned : List Nat}
      (h : Trail next n rest none) (hturned : Trail next (some prev) turned (some head)) :
      Batch next (.turning head prev current n)
        (rest.reverse ++ current :: turned ++ [head])
        (rest.reverse ++ current :: turned ++ [head])
  | closing {head prev : Nat} {turned : List Nat}
      (hturned : Trail next (some prev) turned (some head)) :
      Batch next (.closing head prev) (turned ++ [head]) (turned ++ [head])
  | writing {events event : Nat} {done rest : List Nat}
      (h : Trail next (some events) (done ++ event :: rest) none) :
      Batch next (.writing events event) (done ++ event :: rest) (event :: rest)
  | advancing {events event : Nat} {done rest : List Nat}
      (h : Trail next (some events) (done ++ event :: rest) none) :
      Batch next (.advancing events event) (done ++ event :: rest) rest
  | seeking {head tail : Nat} {done rest : List Nat}
      (h : Trail next (some head) (done ++ tail :: rest) none) :
      Batch next (.seeking head tail) (done ++ tail :: rest) []
  | loading {head tail : Nat} {l : List Nat} (h : Trail next (some head) l (some tail)) :
      Batch next (.loading head tail) (l ++ [tail]) []
  | linking {head tail : Nat} {poolHead : Option Nat} {l : List Nat}
      (h : Trail next (some head) l (some tail)) :
      Batch next (.linking head tail poolHead) (l ++ [tail]) []
  | releasing {head tail : Nat} {poolHead : Option Nat} {l : List Nat}
      (h : Trail next (some head) (l ++ [tail]) poolHead) :
      Batch next (.releasing head tail poolHead) (l ++ [tail]) []
  | counting : Batch next .counting [] []

theorem Batch.congr {next next' : Nat → Option Nat} {w : Writer} {batch left : List Nat}
    (h : Batch next w batch left) (hsame : ∀ n ∈ batch, next' n = next n) :
    Batch next' w batch left := by
  cases h with
  | dequeuing => exact .dequeuing
  | @rotating head rest h =>
      refine .rotating ?_
      rw [hsame head (by simp)]
      exact h.congr fun n hn => hsame n (by simp [hn])
  | @stepping head prev current rest turned h hturned =>
      refine .stepping ?_ (hturned.congr fun n hn => hsame n (by simp [hn]))
      rw [hsame current (by simp)]
      exact h.congr fun n hn => hsame n (by simp [hn])
  | turning h hturned =>
      exact .turning (h.congr fun n hn => hsame n (by simp [hn]))
        (hturned.congr fun n hn => hsame n (by simp [hn]))
  | closing hturned => exact .closing (hturned.congr fun n hn => hsame n (by simp [hn]))
  | writing h => exact .writing (h.congr hsame)
  | advancing h => exact .advancing (h.congr hsame)
  | seeking h => exact .seeking (h.congr hsame)
  | loading h => exact .loading (h.congr fun n hn => hsame n (by simp [hn]))
  | linking h => exact .linking (h.congr fun n hn => hsame n (by simp [hn]))
  | releasing h => exact .releasing (h.congr hsame)
  | counting => exact .counting

theorem Batch.left_subset {next : Nat → Option Nat} {w : Writer} {batch left : List Nat}
    (h : Batch next w batch left) : left ⊆ batch := by
  cases h with
  | writing => exact List.subset_append_right _ _
  | advancing => exact fun n hn => List.mem_append_right _ (List.mem_cons_of_mem _ hn)
  | seeking | loading | linking | releasing => exact List.nil_subset _
  | _ => exact List.Subset.refl _

/-! ### What is in the events -/

/-- What has been filled in is there, and the link that was stored. -/
def State.Filled (s : State) : Pc → Prop
  | .enqueueing e n | .linking e n _ => s.event n = e
  | .pushing e n top => s.event n = e ∧ s.next n = top
  | _ => True

/-- What is to be written of these events. -/
def State.contents (s : State) (l : List Nat) : List LogEvent :=
  (l.map s.event).filter LogEvent.written

/-- The pending events from the last one enqueued on, the batch, what is left of it, and
the pool. -/
structure Owned (s : State) (pending batch left pool : List Nat) : Prop where
  stack : Trail s.next s.top pending none
  free : Trail s.next s.poolHead pool none
  taken : Batch s.next s.writer batch left
  exclusive : Exclusive s.pc s.nodes (pending ++ batch ++ pool)
  filled : ∀ t, s.Filled (s.pc t)
  enqueued : s.enqueued.drop s.dequeued = pending.reverse.map s.event
  dequeued : (s.enqueued.take s.dequeued).filter LogEvent.written =
    s.written ++ s.contents left
  bound : s.dequeued ≤ s.enqueued.length

section Owned

variable {s s' : State} {t n : Nat} {pc : Pc} {pending batch left pool : List Nat}

theorem owned_start : Owned State.start [] [] [] [] where
  stack := rfl
  free := rfl
  taken := .dequeuing
  exclusive := exclusive_start
  filled _ := trivial
  enqueued := rfl
  dequeued := rfl
  bound := Nat.le_refl 0

theorem State.Filled.congr (h : s.Filled pc)
    (hsame : ∀ n, pc.event = some n → s'.event n = s.event n ∧ s'.next n = s.next n) :
    s'.Filled pc := by
  cases pc with
  | enqueueing e n => exact (hsame n rfl).1.trans h
  | linking e n top => exact (hsame n rfl).1.trans h
  | pushing e n top =>
      obtain ⟨hevent, hnext⟩ := hsame n rfl
      exact ⟨hevent.trans h.1, hnext.trans h.2⟩
  | _ => trivial

theorem contents_congr {l : List Nat} (h : ∀ n ∈ l, s'.event n = s.event n) :
    s'.contents l = s.contents l := by
  rw [State.contents, List.map_congr_left h]
  rfl

theorem Owned.shared (h : Owned s pending batch left pool) (hn : (s.pc t).event = some n) :
    n ∉ pending ∧ n ∉ batch ∧ n ∉ pool := by
  have hout := (h.exclusive.held t n hn).2
  simp only [List.mem_append, not_or] at hout
  exact ⟨hout.1.1, hout.1.2, hout.2⟩

/-- A thread goes on with what it has; the memory is the same. -/
theorem Owned.goto (h : Owned s pending batch left pool) (hpc : pc.event = (s.pc t).event)
    (hfilled : s.Filled pc) : Owned (s.goto t pc) pending batch left pool where
  stack := h.stack
  free := h.free
  taken := h.taken
  exclusive := h.exclusive.goto hpc
  filled := update_cases (P := fun _ (q : Pc) => s.Filled q) hfilled fun u _ => h.filled u
  enqueued := h.enqueued
  dequeued := h.dequeued
  bound := h.bound

/-- What flushes have returned is noted beside. -/
theorem Owned.returned (h : Owned s pending batch left pool) (flushed : List Nat) :
    Owned { s with flushed := flushed } pending batch left pool :=
  ⟨h.stack, h.free, h.taken, h.exclusive, h.filled, h.enqueued, h.dequeued, h.bound⟩

/-- `TryAcquire` takes the head of the pool, and its successor is the new head. -/
theorem Owned.pop {e : LogEvent} {head : Nat} {next : Option Nat}
    (h : Owned s pending batch left pool) (hpc : s.pc t = .popping e head next)
    (hhead : s.poolHead = some head) (hnext : s.next head = next) :
    ∃ rest, Owned { s.goto t (.filling e head) with poolHead := next }
      pending batch left rest := by
  obtain ⟨rest, rfl, hrest⟩ := Trail.eq_cons (hhead ▸ h.free)
  refine ⟨rest, h.stack, hnext ▸ hrest, h.taken, ?_, ?_, h.enqueued, h.dequeued, h.bound⟩
  · refine Exclusive.take (h.exclusive.perm List.perm_middle.symm) ?_ rfl
    rw [hpc]
    rfl
  · exact update_cases (P := fun _ (q : Pc) => s.Filled q) trivial fun u _ => h.filled u

/-- Stores to an event that is in no list, and that other threads do not have. -/
theorem Owned.store {nodes : Nat} (h : Owned s pending batch left pool)
    (hexclusive : Exclusive (Function.update s.pc t pc) nodes (pending ++ batch ++ pool))
    (hn : n ∉ pending ++ batch ++ pool)
    (hothers : ∀ u, u ≠ t → (s.pc u).event ≠ some n) (x : Option Nat) (e : LogEvent)
    (hfilled : State.Filled { s with
      next := Function.update s.next n x, event := Function.update s.event n e } pc) :
    Owned { s.goto t pc with
      next := Function.update s.next n x
      event := Function.update s.event n e
      nodes := nodes } pending batch left pool := by
  simp only [List.mem_append, not_or] at hn
  obtain ⟨⟨hpending, hbatch⟩, hpool⟩ := hn
  have hne : ∀ {l : List Nat}, n ∉ l → ∀ m ∈ l, m ≠ n := fun hout m hm heq =>
    hout (heq ▸ hm)
  have hnext : ∀ {l : List Nat}, n ∉ l → ∀ m ∈ l,
      Function.update s.next n x m = s.next m := fun hout m hm =>
    Function.update_of_ne (hne hout m hm) _ _
  have hevent : ∀ {l : List Nat}, n ∉ l → ∀ m ∈ l,
      Function.update s.event n e m = s.event m := fun hout m hm =>
    Function.update_of_ne (hne hout m hm) _ _
  refine ⟨h.stack.update hpending x, h.free.update hpool x,
    h.taken.congr (hnext hbatch), hexclusive, ?_, ?_, ?_, h.bound⟩
  · refine update_cases (P := fun _ (q : Pc) => State.Filled _ q) hfilled fun u hu => ?_
    refine (h.filled u).congr fun m hm => ?_
    have hmn : m ≠ n := fun heq => hothers u hu (heq ▸ hm)
    exact ⟨Function.update_of_ne hmn _ _, Function.update_of_ne hmn _ _⟩
  · refine h.enqueued.trans (List.map_congr_left fun m hm => ?_)
    exact (hevent hpending m (List.mem_reverse.mp hm)).symm
  · refine h.dequeued.trans (congrArg (s.written ++ ·) (contents_congr fun m hm => ?_).symm)
    exact hevent hbatch m (h.taken.left_subset hm)

/-- The stores of a thread to the event that it has. -/
theorem Owned.storeOwn (h : Owned s pending batch left pool)
    (hn : (s.pc t).event = some n) (hpc : pc.event = some n) (x : Option Nat)
    (e : LogEvent) (hfilled : State.Filled { s with
      next := Function.update s.next n x, event := Function.update s.event n e } pc) :
    Owned { s.goto t pc with
      next := Function.update s.next n x
      event := Function.update s.event n e } pending batch left pool := by
  refine h.store (h.exclusive.goto (hpc.trans hn.symm)) (h.exclusive.held t n hn).2 ?_ x e
    hfilled
  exact fun u hu hun => hu (h.exclusive.apart u t n hun hn)

theorem Owned.allocate {e : LogEvent} (h : Owned s pending batch left pool)
    (hpc : s.pc t = .allocating e) :
    Owned { s.goto t (.filling e s.nodes) with
      next := Function.update s.next s.nodes none
      event := Function.update s.event s.nodes .blank
      nodes := s.nodes + 1 } pending batch left pool := by
  have hnone : (s.pc t).event = none := by
    rw [hpc]
    rfl
  refine h.store (h.exclusive.allocate.take hnone rfl) ?_ ?_ none .blank trivial
  · exact fun hin => Nat.lt_irrefl _ (h.exclusive.born s.nodes hin)
  · exact fun u _ hu => Nat.lt_irrefl _ (h.exclusive.held u s.nodes hu).1

theorem Owned.fill {e : LogEvent} (h : Owned s pending batch left pool)
    (hpc : s.pc t = .filling e n) :
    Owned { s.goto t (.enqueueing e n) with event := Function.update s.event n e }
      pending batch left pool := by
  have hself : Function.update s.event n e n = e := Function.update_self n e s.event
  have hstore := @Owned.storeOwn s t n (.enqueueing e n) _ _ _ _ h (by rw [hpc]; rfl) rfl
    (s.next n) e hself
  rwa [Function.update_eq_self] at hstore

theorem Owned.link {e : LogEvent} {top : Option Nat} (h : Owned s pending batch left pool)
    (hpc : s.pc t = .linking e n top) :
    Owned ((s.goto t (.pushing e n top)).link n top) pending batch left pool := by
  have hevent : s.event n = e := by
    have hfilled := h.filled t
    rwa [hpc] at hfilled
  have hstore := @Owned.storeOwn s t n (.pushing e n top) _ _ _ _ h (by rw [hpc]; rfl) rfl
    top (s.event n) ⟨(Function.update_self n _ _).trans hevent, Function.update_self n _ _⟩
  rwa [Function.update_eq_self] at hstore

/-- `Enqueue` links the event before the pending ones. -/
theorem Owned.push {e : LogEvent} (h : Owned s pending batch left pool)
    (hpc : s.pc t = .pushing e n s.top) :
    Owned { s.goto t .idle with top := some n, enqueued := s.enqueued ++ [e] }
      (n :: pending) batch left pool := by
  have hfilled := h.filled t
  rw [hpc] at hfilled
  obtain ⟨hevent, hnext⟩ := hfilled
  refine ⟨⟨rfl, hnext ▸ h.stack⟩, h.free, h.taken, ?_, ?_, ?_, ?_, ?_⟩
  · exact h.exclusive.give (by rw [hpc]; rfl) rfl
  · exact update_cases (P := fun _ (q : Pc) => s.Filled q) trivial fun u _ => h.filled u
  · change (s.enqueued ++ [e]).drop s.dequeued = (n :: pending).reverse.map s.event
    rw [List.drop_append_of_le_length h.bound, h.enqueued, List.reverse_cons,
      List.map_append, List.map_singleton, hevent]
  · change ((s.enqueued ++ [e]).take s.dequeued).filter _ = _
    rw [List.take_append_of_le_length h.bound]
    exact h.dequeued
  · change s.dequeued ≤ (s.enqueued ++ [e]).length
    rw [List.length_append]
    exact Nat.le_add_right_of_le h.bound

/-- A step of the writer that only reads, with what it owns. -/
theorem Owned.writer {w : Writer} {left' : List Nat}
    (h : Owned s pending batch left pool) (hbatch : Batch s.next w batch left')
    (hleft : s.contents left' = s.contents left) :
    Owned { s with writer := w } pending batch left' pool where
  stack := h.stack
  free := h.free
  taken := hbatch
  exclusive := h.exclusive
  filled := h.filled
  enqueued := h.enqueued
  dequeued := h.dequeued.trans (congrArg (s.written ++ ·) hleft.symm)
  bound := h.bound

/-- A store of the writer to an event that it owns. -/
theorem Owned.relink {w : Writer} (h : Owned s pending batch left pool)
    (hn : n ∈ batch) (x : Option Nat)
    (hbatch : Batch (Function.update s.next n x) w batch left) :
    Owned { s.link n x with writer := w } pending batch left pool := by
  have hnodup := h.exclusive.nodup
  obtain ⟨hleft, -, hpool⟩ := List.nodup_append.mp hnodup
  obtain ⟨-, -, hpending⟩ := List.nodup_append.mp hleft
  have hout : n ∉ pending := fun hin => hpending n hin n hn rfl
  have hout' : n ∉ pool := fun hin => hpool n (List.mem_append_right _ hn) n hin rfl
  refine ⟨h.stack.update hout x, h.free.update hout' x, hbatch, h.exclusive, fun u => ?_,
    h.enqueued, h.dequeued, h.bound⟩
  refine (h.filled u).congr fun m hm => ⟨rfl, Function.update_of_ne ?_ _ _⟩
  rintro rfl
  exact (h.shared hm).2.1 hn

/-- Every event that was enqueued has been written, or is in the batch or pending. -/
theorem Owned.messages (h : Owned s pending batch left pool) :
    s.enqueued.filter LogEvent.written =
      s.written ++ s.contents left ++ s.contents pending.reverse := by
  calc s.enqueued.filter LogEvent.written
      = (s.enqueued.take s.dequeued ++ s.enqueued.drop s.dequeued).filter
          LogEvent.written := by rw [List.take_append_drop]
    _ = s.written ++ s.contents left ++ s.contents pending.reverse := by
      rw [List.filter_append, h.dequeued, h.enqueued]
      rfl

/-- `DequeueAll` takes all the pending events. -/
theorem Owned.takeAll {w : Writer} (h : Owned s pending [] [] pool)
    (hbatch : Batch s.next w pending.reverse pending.reverse) :
    Owned { s with top := none, dequeued := s.enqueued.length, writer := w }
      [] pending.reverse pending.reverse pool := by
  refine ⟨rfl, h.free, hbatch, h.exclusive.perm ?_, h.filled, ?_, ?_, Nat.le_refl _⟩
  · rw [List.nil_append, List.append_nil]
    exact (List.reverse_perm pending).append_right pool
  · exact List.drop_length
  · change (s.enqueued.take s.enqueued.length).filter _ = s.written ++ s.contents pending.reverse
    rw [List.take_length, h.messages]
    exact congrArg (· ++ _) (List.append_nil s.written)

theorem Owned.dequeue (h : Owned s pending [] [] pool) :
    Owned { s with
      top := none
      dequeued := s.enqueued.length
      writer := .dequeued s.top } [] pending.reverse pending.reverse pool := by
  apply h.takeAll
  have hstack := h.stack
  cases htop : s.top with
  | none =>
      rw [htop] at hstack
      rw [hstack.eq_nil]
      exact .counting
  | some head =>
      rw [htop] at hstack
      obtain ⟨rest, rfl, hrest⟩ := hstack.eq_cons
      rw [List.reverse_cons]
      exact .rotating hrest

/-- What is left to be turned around begins with the next current event. -/
theorem Batch.rotate {next : Nat → Option Nat} {head prev : Nat} {p : Option Nat}
    {rest turned : List Nat} (hrest : Trail next p rest none)
    (hturned : Trail next (some prev) turned (some head)) :
    Batch next (.rotate head prev p) (rest.reverse ++ (turned ++ [head]))
      (rest.reverse ++ (turned ++ [head])) := by
  cases p with
  | none =>
      rw [hrest.eq_nil]
      exact .closing hturned
  | some n =>
      obtain ⟨rest, rfl, hrest'⟩ := hrest.eq_cons
      have hstep := Batch.stepping hrest' hturned
      rw [List.reverse_cons, List.append_assoc]
      rwa [List.append_assoc] at hstep

theorem Owned.batch_nodup (h : Owned s pending batch left pool) : batch.Nodup :=
  (List.nodup_append.mp (List.nodup_append.mp h.exclusive.nodup).1).2.1

theorem Owned.rotate {head : Nat} (h : Owned s pending batch left pool)
    (hw : s.writer = .rotating head) :
    Owned { s with writer := .rotate head head (s.next head) } pending batch left pool := by
  have hbatch := h.taken
  rw [hw] at hbatch
  cases hbatch with
  | rotating hrest => exact h.writer (@Batch.rotate _ _ _ _ _ [] hrest rfl) rfl

/-- One event is turned around. -/
theorem Owned.turn {head prev current : Nat} {p : Option Nat}
    (h : Owned s pending batch left pool) (hw : s.writer = .turning head prev current p) :
    Owned { s.link current (some prev) with writer := .rotate head current p }
      pending batch left pool := by
  have hbatch := h.taken
  have hnodup := h.batch_nodup
  rw [hw] at hbatch
  cases hbatch with
  | @turning _ _ _ _ rest turned hrest hturned =>
      rw [List.append_assoc] at hnodup ⊢
      obtain ⟨-, hmiddle, hapart⟩ := List.nodup_append.mp hnodup
      have hout : current ∉ rest := fun hin =>
        hapart current (List.mem_reverse.mpr hin) current List.mem_cons_self rfl
      have hout' : current ∉ turned := fun hin =>
        (List.nodup_cons.mp hmiddle).1 (List.mem_append_left _ hin)
      rw [List.append_assoc] at h
      refine h.relink (List.mem_append_right _ List.mem_cons_self) (some prev) ?_
      apply Batch.rotate (hrest.update hout (some prev))
      refine ⟨rfl, ?_⟩
      rw [Function.update_self]
      exact hturned.update hout' (some prev)

theorem Owned.close {head prev : Nat} (h : Owned s pending batch left pool)
    (hw : s.writer = .closing head prev) :
    Owned { s.link head none with writer := .writing prev prev } pending batch left pool := by
  have hbatch := h.taken
  have hnodup := h.batch_nodup
  rw [hw] at hbatch
  cases hbatch with
  | @closing _ _ turned hturned =>
      have hout : head ∉ turned := fun hin =>
        (List.nodup_append.mp hnodup).2.2 head hin head (List.mem_singleton_self head) rfl
      refine h.relink (List.mem_append_right _ (List.mem_singleton_self head)) none ?_
      have hall : Trail (Function.update s.next head none) (some prev) (turned ++ [head]) none :=
        trail_concat.mpr ⟨hturned.update hout none, Function.update_self _ _ _⟩
      obtain ⟨rest, hrest, -⟩ := hall.eq_cons
      rw [hrest] at hall ⊢
      exact @Batch.writing _ _ _ [] rest hall

/-- The event that is reached is written, unless its message is empty. -/
theorem Owned.writeOne {events event : Nat} (h : Owned s pending batch left pool)
    (hw : s.writer = .writing events event) (cout : List String) (written : List LogEvent)
    (hwritten : written = s.written ++ s.contents [event]) :
    ∃ left', Owned { s with
      writer := .advancing events event, cout := cout, written := written }
      pending batch left' pool := by
  have hbatch := h.taken
  rw [hw] at hbatch
  cases hbatch with
  | @writing _ _ done rest hlinks =>
      refine ⟨rest, h.stack, h.free, .advancing hlinks, h.exclusive, h.filled, h.enqueued,
        ?_, h.bound⟩
      refine h.dequeued.trans ?_
      change _ = written ++ s.contents rest
      rw [hwritten, List.append_assoc, State.contents, State.contents, State.contents,
        ← List.filter_append, ← List.map_append]
      rfl

/-- Where a list is walked along, one event further. -/
theorem append_cons_eq (done rest : List Nat) (a b : Nat) :
    done ++ a :: b :: rest = (done ++ [a]) ++ b :: rest := by
  rw [List.append_assoc]
  rfl

theorem Batch.doWrite {next : Nat → Option Nat} {events event : Nat} {done rest : List Nat}
    (h : Trail next (some events) (done ++ event :: rest) none) :
    Batch next (.doWrite events (next event)) (done ++ event :: rest) rest := by
  obtain ⟨-, -, -, hrest⟩ := trail_append.mp h
  cases hnext : next event with
  | none =>
      rw [hnext] at hrest
      obtain rfl := hrest.eq_nil
      obtain ⟨tail, htail, -⟩ := h.eq_cons
      rw [htail] at h ⊢
      exact @Batch.seeking _ _ _ [] tail h
  | some n =>
      rw [hnext] at hrest
      obtain ⟨rest, rfl, -⟩ := hrest.eq_cons
      rw [append_cons_eq] at h ⊢
      exact .writing h

theorem Batch.findTail {next : Nat → Option Nat} {head tail : Nat} {done rest : List Nat}
    (h : Trail next (some head) (done ++ tail :: rest) none) :
    Batch next (.findTail head tail (next tail)) (done ++ tail :: rest) [] := by
  obtain ⟨-, -, -, hrest⟩ := trail_append.mp h
  cases hnext : next tail with
  | none =>
      rw [hnext] at hrest
      obtain rfl := hrest.eq_nil
      exact .loading (trail_concat.mp h).1
  | some n =>
      rw [hnext] at hrest
      obtain ⟨rest, rfl, -⟩ := hrest.eq_cons
      rw [append_cons_eq] at h ⊢
      exact .seeking h

/-- The tail of the batch is linked to the head of the pool. -/
theorem Owned.linkTail {head tail : Nat} {poolHead : Option Nat}
    (h : Owned s pending batch left pool) (hw : s.writer = .linking head tail poolHead) :
    Owned { s.link tail poolHead with writer := .releasing head tail poolHead }
      pending batch left pool := by
  have hbatch := h.taken
  have hnodup := h.batch_nodup
  rw [hw] at hbatch
  cases hbatch with
  | @linking _ _ _ l hlinks =>
      have hout : tail ∉ l := fun hin =>
        (List.nodup_append.mp hnodup).2.2 tail hin tail (List.mem_singleton_self tail) rfl
      refine h.relink (List.mem_append_right _ (List.mem_singleton_self tail)) poolHead ?_
      exact .releasing
        (trail_concat.mpr ⟨hlinks.update hout poolHead, Function.update_self _ _ _⟩)

/-- The batch goes to the pool, before the events that are there. -/
theorem Owned.release {head tail : Nat} (h : Owned s pending batch left pool)
    (hw : s.writer = .releasing head tail s.poolHead) :
    Owned { s with poolHead := some head, writer := .counting }
      pending [] [] (batch ++ pool) := by
  have hbatch := h.taken
  rw [hw] at hbatch
  cases hbatch with
  | releasing hlinks =>
      refine ⟨h.stack, hlinks.append h.free, .counting, h.exclusive.perm ?_, h.filled,
        h.enqueued, h.dequeued, h.bound⟩
      rw [List.append_nil, ← List.append_assoc]

/-- The writer takes a step. -/
theorem Owned.write (h : Owned s pending batch left pool) (spurious : Bool) :
    ∃ pending' batch' left' pool', Owned (s.write spurious) pending' batch' left' pool' := by
  have hbatch := h.taken
  unfold State.write
  split <;> rename_i hw
  case h_1 =>
      rw [hw] at hbatch
      cases hbatch
      exact ⟨_, _, _, _, h.dequeue⟩
  case h_2 head => exact ⟨_, _, _, _, h.rotate hw⟩
  case h_3 head prev current =>
      rw [hw] at hbatch
      cases hbatch with
      | stepping hrest hturned => exact ⟨_, _, _, _, h.writer (.turning hrest hturned) rfl⟩
  case h_4 head prev current p => exact ⟨_, _, _, _, h.turn hw⟩
  case h_5 head prev => exact ⟨_, _, _, _, h.close hw⟩
  case h_6 events event =>
      split
      · rename_i hwritten
        obtain ⟨left', hleft⟩ := h.writeOne hw (s.cout ++ [(s.event event).format])
          (s.written ++ [s.event event]) (by simp [State.contents, hwritten])
        exact ⟨_, _, left', _, hleft⟩
      · rename_i hwritten
        obtain ⟨left', hleft⟩ := h.writeOne hw s.cout s.written
          (by simp [State.contents, hwritten])
        exact ⟨_, _, left', _, hleft⟩
  case h_7 events event =>
      rw [hw] at hbatch
      cases hbatch with
      | advancing hlinks => exact ⟨_, _, _, _, h.writer (.doWrite hlinks) rfl⟩
  case h_8 head tail =>
      rw [hw] at hbatch
      cases hbatch with
      | seeking hlinks => exact ⟨_, _, _, _, h.writer (.findTail hlinks) rfl⟩
  case h_9 head tail =>
      rw [hw] at hbatch
      cases hbatch with
      | loading hlinks => exact ⟨_, _, _, _, h.writer (.linking hlinks) rfl⟩
  case h_10 head tail poolHead => exact ⟨_, _, _, _, h.linkTail hw⟩
  case h_11 head tail poolHead =>
      split
      · rename_i hswap
        obtain ⟨rfl, -⟩ := hswap
        exact ⟨_, _, _, _, h.release hw⟩
      · rw [hw] at hbatch
        cases hbatch with
        | releasing hlinks =>
            exact ⟨_, _, _, _, h.writer (.loading (trail_concat.mp hlinks).1) rfl⟩
  case h_12 =>
      rw [hw] at hbatch
      cases hbatch
      exact ⟨_, _, _, _, h.stack, h.free, .dequeuing, h.exclusive, h.filled, h.enqueued,
        h.dequeued, h.bound⟩

/-- A thread takes a step. -/
theorem Owned.resume {spurious : Bool} (h : Owned s pending batch left pool)
    (hcalm : s.Undisturbed spurious (s.pc t)) (hnext : s.resume t spurious = some s') :
    ∃ pending' pool', Owned s' pending' batch left pool' := by
  have hfilled := h.filled t
  unfold State.resume at hnext
  split at hnext <;> rename_i hpc <;> rw [hpc] at hcalm hfilled
  case h_1 => cases hnext
  case h_2 e =>
      split at hnext <;> cases hnext <;>
        exact ⟨_, _, h.goto (by rw [hpc]; rfl) trivial⟩
  case h_3 e head =>
      cases hnext
      exact ⟨_, _, h.goto (by rw [hpc]; rfl) trivial⟩
  case h_4 e head next =>
      split at hnext
      · rename_i hswap
        cases hnext
        obtain ⟨rest, hrest⟩ := h.pop hpc hswap.1 (hcalm hswap.2 hswap.1)
        exact ⟨_, rest, hrest⟩
      · cases hnext
        exact ⟨_, _, h.goto (by rw [hpc]; rfl) trivial⟩
  case h_5 e =>
      cases hnext
      exact ⟨_, _, h.allocate hpc⟩
  case h_6 e n =>
      cases hnext
      exact ⟨_, _, h.fill hpc⟩
  case h_7 e n =>
      cases hnext
      exact ⟨_, _, h.goto (by rw [hpc]; rfl) hfilled⟩
  case h_8 e n top =>
      cases hnext
      exact ⟨_, _, h.link hpc⟩
  case h_9 e n top =>
      split at hnext
      · rename_i hswap
        cases hnext
        obtain ⟨rfl, -⟩ := hswap
        exact ⟨_, _, h.push hpc⟩
      · cases hnext
        exact ⟨_, _, h.goto (by rw [hpc]; rfl) hfilled.1⟩
  case h_10 before =>
      cases hnext
      exact ⟨_, _, h.goto (by rw [hpc]; rfl) trivial⟩
  case h_11 before count passes =>
      split at hnext
      · cases hnext
        exact ⟨_, _, h⟩
      · cases hnext
        have hidle : Owned (s.goto t .idle) pending batch left pool :=
          h.goto (by rw [hpc]; rfl) trivial
        exact ⟨_, _, hidle.returned _⟩

theorem Owned.step {e : Event} (h : Owned s pending batch left pool) (hcalm : Calm s e)
    (hnext : s.step e = some s') :
    ∃ pending' batch' left' pool', Owned s' pending' batch' left' pool' := by
  cases e with
  | append t scope location message =>
      obtain ⟨hpc, heq⟩ := Option.ite_none_right_eq_some.mp hnext
      cases heq
      exact ⟨_, _, _, _, h.goto (by rw [hpc]; rfl) trivial⟩
  | flush t =>
      obtain ⟨hpc, heq⟩ := Option.ite_none_right_eq_some.mp hnext
      cases heq
      exact ⟨_, _, _, _, h.goto (by rw [hpc]; rfl) trivial⟩
  | resume t spurious =>
      obtain ⟨pending', pool', hstep⟩ := h.resume hcalm hnext
      exact ⟨_, _, _, _, hstep⟩
  | write spurious =>
      cases hnext
      exact h.write spurious

end Owned

/-! ### Flushes -/

/-- In a pass, with the events dequeued. -/
def Writer.inPass : Writer → Bool
  | .dequeuing => false
  | _ => true

/-- What a flush waits for: the pass that may be under way when `write_count_` is loaded
is over, and then a whole one. -/
def State.Awaits (s : State) : Pc → Prop
  | .flushing before => before ≤ s.enqueued.length
  | .awaiting before count passes =>
      before ≤ s.enqueued.length ∧ count = passes % 2 ^ 64 ∧ count + 2 < 2 ^ 64 ∧
        passes ≤ s.passes ∧
        (passes + 1 ≤ s.passes → s.writer.inPass = true → before ≤ s.dequeued) ∧
        (passes + 2 ≤ s.passes → before ≤ s.settled)
  | _ => True

structure Paced (s : State) : Prop where
  count : s.writeCount = s.passes % 2 ^ 64
  dequeued : s.dequeued ≤ s.enqueued.length
  settled : s.settled ≤ s.dequeued
  awaits : ∀ t, s.Awaits (s.pc t)
  flushed : ∀ before ∈ s.flushed, before ≤ s.settled

section Paced

variable {s s' : State} {t : Nat} {pc : Pc}

theorem paced_start : Paced State.start where
  count := rfl
  dequeued := Nat.le_refl 0
  settled := Nat.le_refl 0
  awaits _ := trivial
  flushed _ h := absurd h List.not_mem_nil

theorem State.Awaits.mono (h : s.Awaits pc) (henqueued : s.enqueued.length ≤ s'.enqueued.length)
    (hpasses : s'.passes = s.passes) (hsettled : s'.settled = s.settled)
    (hpass : s'.writer.inPass = true → s.writer.inPass = true ∧ s'.dequeued = s.dequeued) :
    s'.Awaits pc := by
  cases pc with
  | flushing before => exact Nat.le_trans h henqueued
  | awaiting before count passes =>
      obtain ⟨hbefore, hcount, hroom, hle, hone, htwo⟩ := h
      refine ⟨Nat.le_trans hbefore henqueued, hcount, hroom, hpasses ▸ hle, fun h₁ hw => ?_,
        fun h₂ => ?_⟩
      · rw [(hpass hw).2]
        exact hone (hpasses ▸ h₁) (hpass hw).1
      · rw [hsettled]
        exact htwo (hpasses ▸ h₂)
  | _ => trivial

/-- A thread goes on; the writer does not. -/
theorem Paced.goto (h : Paced s) (hpc : s'.pc = Function.update s.pc t pc)
    (henqueued : s.enqueued.length ≤ s'.enqueued.length)
    (hwriter : s'.writer = s.writer ∧ s'.writeCount = s.writeCount ∧
      s'.dequeued = s.dequeued ∧ s'.settled = s.settled ∧ s'.passes = s.passes)
    (hawaits : s.Awaits pc) (hflushed : ∀ before ∈ s'.flushed, before ≤ s.settled) :
    Paced s' := by
  obtain ⟨hwriter, hcount, hdequeued, hsettled, hpasses⟩ := hwriter
  have hmono : ∀ pc, s.Awaits pc → s'.Awaits pc := fun pc hpc =>
    hpc.mono henqueued hpasses hsettled fun hw => ⟨hwriter ▸ hw, hdequeued⟩
  refine ⟨?_, ?_, ?_, ?_, ?_⟩
  · rw [hcount, hpasses, h.count]
  · rw [hdequeued]
    exact Nat.le_trans h.dequeued henqueued
  · rw [hsettled, hdequeued]
    exact h.settled
  · rw [hpc]
    exact update_cases (P := fun _ (q : Pc) => s'.Awaits q) (hmono pc hawaits)
      fun u _ => hmono _ (h.awaits u)
  · rw [hsettled]
    exact hflushed

/-- When the loop ends, two more passes are over. -/
theorem Paced.settled_of_count (h : Paced s) {before count passes : Nat}
    (hawaits : s.Awaits (.awaiting before count passes))
    (hcount : ¬ s.writeCount < (count + 2) % 2 ^ 64) : before ≤ s.settled := by
  obtain ⟨-, hload, hroom, hle, -, htwo⟩ := hawaits
  have hnow := h.count
  apply htwo
  by_contra hnot
  have hcases : s.passes = passes ∨ s.passes = passes + 1 := by omega
  rw [Nat.mod_eq_of_lt hroom] at hcount
  rcases hcases with heq | heq <;> rw [heq] at hnow <;> omega

/-- A thread goes on and enqueues nothing. -/
theorem Paced.move (h : Paced s) (hpc : s'.pc = Function.update s.pc t pc)
    (hsame : s'.enqueued = s.enqueued ∧ s'.flushed = s.flushed)
    (hwriter : s'.writer = s.writer ∧ s'.writeCount = s.writeCount ∧
      s'.dequeued = s.dequeued ∧ s'.settled = s.settled ∧ s'.passes = s.passes)
    (hawaits : s.Awaits pc) : Paced s' := by
  obtain ⟨henqueued, hflushed⟩ := hsame
  refine h.goto hpc (Nat.le_of_eq (congrArg _ henqueued.symm)) hwriter hawaits ?_
  · rw [hflushed]
    exact h.flushed

theorem Paced.resume {spurious : Bool} (h : Paced s) (hcalm : s.Undisturbed spurious (s.pc t))
    (hnext : s.resume t spurious = some s') : Paced s' := by
  have hawaits := h.awaits t
  unfold State.resume at hnext
  split at hnext <;> rename_i hpc <;> rw [hpc] at hcalm hawaits
  case h_1 => cases hnext
  case h_2 e =>
      split at hnext <;> cases hnext <;>
        exact h.move rfl ⟨rfl, rfl⟩ ⟨rfl, rfl, rfl, rfl, rfl⟩ trivial
  case h_3 | h_5 | h_6 | h_7 | h_8 =>
      cases hnext
      exact h.move rfl ⟨rfl, rfl⟩ ⟨rfl, rfl, rfl, rfl, rfl⟩ trivial
  case h_4 e head next =>
      split at hnext <;> cases hnext <;>
        exact h.move rfl ⟨rfl, rfl⟩ ⟨rfl, rfl, rfl, rfl, rfl⟩ trivial
  case h_9 e n top =>
      split at hnext <;> cases hnext
      · refine h.goto rfl ?_ ⟨rfl, rfl, rfl, rfl, rfl⟩ trivial h.flushed
        change _ ≤ (s.enqueued ++ [e]).length
        rw [List.length_append]
        exact Nat.le_add_right _ _
      · exact h.move rfl ⟨rfl, rfl⟩ ⟨rfl, rfl, rfl, rfl, rfl⟩ trivial
  case h_10 before =>
      cases hnext
      refine h.move rfl ⟨rfl, rfl⟩ ⟨rfl, rfl, rfl, rfl, rfl⟩
        ⟨hawaits, h.count, hcalm, Nat.le_refl _, fun hone => ?_, fun htwo => ?_⟩
      · exact absurd hone (Nat.not_succ_le_self _)
      · exact absurd htwo (by omega)
  case h_11 before count passes =>
      split at hnext
      · cases hnext
        exact h
      · rename_i hcount
        cases hnext
        refine h.goto rfl (Nat.le_refl _) ⟨rfl, rfl, rfl, rfl, rfl⟩ trivial ?_
        intro before' hmem
        rcases List.mem_append.mp hmem with hin | hin
        · exact h.flushed before' hin
        · rw [List.mem_singleton.mp hin]
          exact h.settled_of_count hawaits hcount

/-- A step of the writer inside of a pass. -/
theorem Paced.pass (h : Paced s) (hpc : s'.pc = s.pc)
    (hsame : s'.enqueued = s.enqueued ∧ s'.flushed = s.flushed ∧
      s'.writeCount = s.writeCount ∧ s'.dequeued = s.dequeued ∧ s'.settled = s.settled ∧
      s'.passes = s.passes) (hwriter : s.writer.inPass = true) : Paced s' := by
  obtain ⟨henqueued, hflushed, hcount, hdequeued, hsettled, hpasses⟩ := hsame
  refine ⟨?_, ?_, ?_, fun t => ?_, ?_⟩
  · rw [hcount, hpasses, h.count]
  · rw [hdequeued, henqueued]
    exact h.dequeued
  · rw [hsettled, hdequeued]
    exact h.settled
  · rw [hpc]
    exact (h.awaits t).mono (Nat.le_of_eq (congrArg _ henqueued.symm)) hpasses hsettled
      fun _ => ⟨hwriter, hdequeued⟩
  · rw [hflushed, hsettled]
    exact h.flushed

theorem Paced.dequeue (h : Paced s) (w : Writer) :
    Paced { s with top := none, dequeued := s.enqueued.length, writer := w } := by
  refine ⟨h.count, Nat.le_refl _, Nat.le_trans h.settled h.dequeued, fun t => ?_, h.flushed⟩
  have hawaits := h.awaits t
  change State.Awaits _ (s.pc t)
  cases hpc : s.pc t with
  | awaiting before count passes =>
      rw [hpc] at hawaits
      obtain ⟨hbefore, hcount, hroom, hle, -, htwo⟩ := hawaits
      exact ⟨hbefore, hcount, hroom, hle, fun _ _ => hbefore, htwo⟩
  | flushing before =>
      rw [hpc] at hawaits
      exact hawaits
  | _ => trivial

/-- A pass is over. -/
theorem Paced.finish (h : Paced s) (hw : s.writer = .counting) :
    Paced { s with
      writeCount := (s.writeCount + 1) % 2 ^ 64
      settled := s.dequeued
      passes := s.passes + 1
      writer := .dequeuing } := by
  refine ⟨?_, h.dequeued, Nat.le_refl _, fun t => ?_, fun before hin => ?_⟩
  · change (s.writeCount + 1) % 2 ^ 64 = (s.passes + 1) % 2 ^ 64
    rw [h.count, Nat.mod_add_mod]
  · have hawaits := h.awaits t
    change State.Awaits _ (s.pc t)
    cases hpc : s.pc t with
    | awaiting before count passes =>
        rw [hpc] at hawaits
        obtain ⟨hbefore, hcount, hroom, hle, hone, -⟩ := hawaits
        refine ⟨hbefore, hcount, hroom, Nat.le_succ_of_le hle, nofun, fun htwo => ?_⟩
        exact hone (Nat.le_of_succ_le_succ htwo) (by rw [hw]; rfl)
    | flushing before =>
        rw [hpc] at hawaits
        exact hawaits
    | _ => trivial
  · exact Nat.le_trans (h.flushed before hin) h.settled

theorem Paced.write (h : Paced s) (spurious : Bool) : Paced (s.write spurious) := by
  unfold State.write
  split <;> rename_i hw
  case h_1 => exact h.dequeue _
  case h_12 => exact h.finish hw
  case h_6 | h_11 =>
      split <;> exact h.pass rfl ⟨rfl, rfl, rfl, rfl, rfl, rfl⟩ (by rw [hw]; rfl)
  all_goals exact h.pass rfl ⟨rfl, rfl, rfl, rfl, rfl, rfl⟩ (by rw [hw]; rfl)

theorem Paced.step {e : Event} (h : Paced s) (hcalm : Calm s e)
    (hnext : s.step e = some s') : Paced s' := by
  cases e with
  | append t scope location message =>
      obtain ⟨-, heq⟩ := Option.ite_none_right_eq_some.mp hnext
      cases heq
      exact h.move rfl ⟨rfl, rfl⟩ ⟨rfl, rfl, rfl, rfl, rfl⟩ trivial
  | flush t =>
      obtain ⟨-, heq⟩ := Option.ite_none_right_eq_some.mp hnext
      cases heq
      exact h.move rfl ⟨rfl, rfl⟩ ⟨rfl, rfl, rfl, rfl, rfl⟩ (Nat.le_refl _)
  | resume t spurious => exact h.resume hcalm hnext
  | write spurious =>
      cases hnext
      exact h.write spurious

end Paced

/-! ### What is written -/

/-- What was settled when the last pass was over has been written. -/
structure Printed (s : State) : Prop where
  cout : s.cout = s.written.map LogEvent.format
  settled : (s.enqueued.take s.settled).filter LogEvent.written <+: s.written

section Printed

variable {s s' : State} {t : Nat}

theorem printed_start : Printed State.start where
  cout := rfl
  settled := List.nil_prefix

theorem Printed.enqueue (h : Printed s) (hpaced : Paced s)
    (hsame : s'.cout = s.cout ∧ s'.written = s.written ∧ s'.settled = s.settled)
    (henqueued : ∃ l, s'.enqueued = s.enqueued ++ l) : Printed s' := by
  obtain ⟨hcout, hwritten, hsettled⟩ := hsame
  obtain ⟨l, hl⟩ := henqueued
  refine ⟨by rw [hcout, hwritten, h.cout], ?_⟩
  have hle : s.settled ≤ s.enqueued.length := Nat.le_trans hpaced.settled hpaced.dequeued
  rw [hwritten, hsettled, hl, List.take_append_of_le_length hle]
  exact h.settled

theorem resume_same {spurious : Bool} (hnext : s.resume t spurious = some s') :
    (s'.cout = s.cout ∧ s'.written = s.written ∧ s'.settled = s.settled) ∧
      ∃ l, s'.enqueued = s.enqueued ++ l := by
  unfold State.resume at hnext
  split at hnext
  case h_1 => cases hnext
  case h_2 | h_4 | h_11 =>
      split at hnext <;> cases hnext <;>
        exact ⟨⟨rfl, rfl, rfl⟩, [], (List.append_nil _).symm⟩
  case h_9 e n top _ =>
      split at hnext <;> cases hnext
      · exact ⟨⟨rfl, rfl, rfl⟩, [e], rfl⟩
      · exact ⟨⟨rfl, rfl, rfl⟩, [], (List.append_nil _).symm⟩
  all_goals
    cases hnext
    exact ⟨⟨rfl, rfl, rfl⟩, [], (List.append_nil _).symm⟩

/-- The writer has written all that it had dequeued. -/
theorem Owned.written_of_counting {pending batch left pool : List Nat}
    (h : Owned s pending batch left pool) (hw : s.writer = .counting) :
    (s.enqueued.take s.dequeued).filter LogEvent.written = s.written := by
  have hbatch := h.taken
  rw [hw] at hbatch
  cases hbatch
  exact h.dequeued.trans (List.append_nil s.written)

theorem Printed.write {pending batch left pool : List Nat} (h : Printed s)
    (howned : Owned s pending batch left pool) (spurious : Bool) :
    Printed (s.write spurious) := by
  unfold State.write
  split <;> rename_i hw
  case h_6 events event =>
      split
      · refine ⟨?_, h.settled.trans (List.prefix_append _ _)⟩
        change s.cout ++ [_] = (s.written ++ [_]).map _
        rw [h.cout, List.map_append]
        rfl
      · exact ⟨h.cout, h.settled⟩
  case h_11 => split <;> exact ⟨h.cout, h.settled⟩
  case h_12 => exact ⟨h.cout, (howned.written_of_counting hw).symm ▸ List.prefix_refl _⟩
  all_goals exact ⟨h.cout, h.settled⟩

theorem Printed.step {e : Event} {pending batch left pool : List Nat} (h : Printed s)
    (howned : Owned s pending batch left pool) (hpaced : Paced s)
    (hnext : s.step e = some s') : Printed s' := by
  cases e with
  | append t scope location message =>
      obtain ⟨-, heq⟩ := Option.ite_none_right_eq_some.mp hnext
      cases heq
      exact ⟨h.cout, h.settled⟩
  | flush t =>
      obtain ⟨-, heq⟩ := Option.ite_none_right_eq_some.mp hnext
      cases heq
      exact ⟨h.cout, h.settled⟩
  | resume t spurious =>
      obtain ⟨hsame, henqueued⟩ := resume_same hnext
      exact h.enqueue hpaced hsame henqueued
  | write spurious =>
      cases hnext
      exact h.write howned spurious

end Printed

/-! ### What the logger promises -/

/-- Who may have an event. -/
inductive Owner where
  | producer (t : Nat)
  | pending | writer | pool
  deriving DecidableEq, Repr

def State.Owns (s : State) (pending batch pool : List Nat) (n : Nat) : Owner → Prop
  | .producer t => (s.pc t).event = some n
  | .pending => n ∈ pending
  | .writer => n ∈ batch
  | .pool => n ∈ pool

/-- The lists from `top_` and `pool_head_` come to an end without meeting an event twice,
every event has one owner, and every event that was enqueued and has a message has been
written or is in the batch or pending, in the order of `Enqueue`. -/
structure Exact (s : State) (pending batch left pool : List Nat) : Prop where
  stack : Trail s.next s.top pending none ∧ pending.Nodup
  free : Trail s.next s.poolHead pool none ∧ pool.Nodup
  taken : Batch s.next s.writer batch left
  owner : ∀ n < s.nodes, ∃! owner, s.Owns pending batch pool n owner
  messages : s.enqueued.filter LogEvent.written =
    s.written ++ s.contents left ++ s.contents pending.reverse

structure Sound (s : State) : Prop where
  exact : ∃ pending batch left pool, Exact s pending batch left pool
  cout : s.cout = s.written.map LogEvent.format
  flushed : ∀ before ∈ s.flushed,
    (s.enqueued.take before).filter LogEvent.written <+: s.written

section Sound

variable {s : State} {pending batch left pool : List Nat}

theorem Owned.owner (h : Owned s pending batch left pool) {n : Nat} (hn : n < s.nodes) :
    ∃! owner, s.Owns pending batch pool n owner := by
  obtain ⟨hnodup, -, hpool⟩ := List.nodup_append.mp h.exclusive.nodup
  obtain ⟨-, -, hpending⟩ := List.nodup_append.mp hnodup
  have hbatch : n ∈ pending → n ∉ batch := fun hin hin' => hpending n hin n hin' rfl
  have hout : n ∈ pending ∨ n ∈ batch → n ∉ pool := fun hin hin' =>
    hpool n (List.mem_append.mpr hin) n hin' rfl
  have hheld : ∀ t, (s.pc t).event = some n → n ∉ pending ∧ n ∉ batch ∧ n ∉ pool :=
    fun t ht => h.shared ht
  have hcases : ∃ owner, s.Owns pending batch pool n owner := by
    rcases h.exclusive.all n hn with hin | ⟨t, ht⟩
    · rcases List.mem_append.mp hin with hin | hin
      · rcases List.mem_append.mp hin with hin | hin
        · exact ⟨.pending, hin⟩
        · exact ⟨.writer, hin⟩
      · exact ⟨.pool, hin⟩
    · exact ⟨.producer t, ht⟩
  obtain ⟨owner, howner⟩ := hcases
  refine ⟨owner, howner, fun other hother => ?_⟩
  cases owner with
  | producer t =>
      obtain ⟨hpending, hbatch, hpool⟩ := hheld t howner
      cases other with
      | producer u => rw [h.exclusive.apart u t n hother howner]
      | pending => exact absurd hother hpending
      | writer => exact absurd hother hbatch
      | pool => exact absurd hother hpool
  | pending =>
      cases other with
      | producer u => exact absurd howner (hheld u hother).1
      | pending => rfl
      | writer => exact absurd hother (hbatch howner)
      | pool => exact absurd hother (hout (.inl howner))
  | writer =>
      cases other with
      | producer u => exact absurd howner (hheld u hother).2.1
      | pending => exact absurd howner (hbatch hother)
      | writer => rfl
      | pool => exact absurd hother (hout (.inr howner))
  | pool =>
      cases other with
      | producer u => exact absurd howner (hheld u hother).2.2
      | pending => exact absurd howner (hout (.inl hother))
      | writer => exact absurd howner (hout (.inr hother))
      | pool => rfl

theorem Owned.exact (h : Owned s pending batch left pool) :
    Exact s pending batch left pool := by
  obtain ⟨hnodup, hpool, -⟩ := List.nodup_append.mp h.exclusive.nodup
  exact ⟨⟨h.stack, (List.nodup_append.mp hnodup).1⟩, ⟨h.free, hpool⟩, h.taken,
    fun n => h.owner, h.messages⟩

structure Sane (s : State) : Prop where
  owned : ∃ pending batch left pool, Owned s pending batch left pool
  paced : Paced s
  printed : Printed s

theorem Sane.step {s' : State} {e : Event} (h : Sane s) (hcalm : Calm s e)
    (hnext : s.step e = some s') : Sane s' := by
  obtain ⟨⟨pending, batch, left, pool, howned⟩, hpaced, hprinted⟩ := h
  exact ⟨howned.step hcalm hnext, hpaced.step hcalm hnext,
    hprinted.step howned hpaced hnext⟩

theorem Sane.sound (h : Sane s) : Sound s := by
  obtain ⟨⟨pending, batch, left, pool, howned⟩, hpaced, hprinted⟩ := h
  refine ⟨⟨_, _, _, _, howned.exact⟩, hprinted.cout, fun before hin => ?_⟩
  have htake : s.enqueued.take before <+: s.enqueued.take s.settled :=
    List.take_prefix_take_left (hpaced.flushed before hin)
  exact (htake.filter _).trans hprinted.settled

/-- As long as no `TryAcquire` is overtaken, the logger is sound. -/
theorem logger_sound (s : State) (h : Reached s) : Sound s := by
  have hsane : Sane s :=
    h.invariant ⟨⟨[], [], [], [], owned_start⟩, paced_start, printed_start⟩
      fun s e s' hs hcalm hnext => hs.step hcalm hnext
  exact hsane.sound

end Sound

/-- The thread, or the writer, goes on so many times. -/
def run (t steps : Nat) : List Event := List.replicate steps (.resume t false)

def runWriter (steps : Nat) : List Event := List.replicate steps (.write false)

/-- A thread appends to the logger, when nothing is in the pool. -/
def appendFresh (t : Nat) (message : String) : List Event :=
  .append t "scope" ⟨"file", "function", 1⟩ message :: run t 6

/-- Two messages are written, and flushed by a third thread. -/
def flushed : List Event :=
  appendFresh 1 "one" ++ appendFresh 2 "two" ++ [.flush 3] ++ run 3 1 ++ runWriter 16 ++
    runWriter 2 ++ run 3 1

theorem logger_sound_flushed :
    ∃ s, Reached s ∧ (s.flushed = [2] ∧ s.written.map LogEvent.message = ["one", "two"]) ∧
      Sound s := by
  obtain ⟨s, hreach, hflushed⟩ := @exists_reach _ _ State.step Calm State.start _ flushed
    (fun s => s.flushed = [2] ∧ s.written.map LogEvent.message = ["one", "two"]) _
    (by decide +kernel)
  exact ⟨s, hreach, hflushed, logger_sound s hreach⟩

/-- The first thread has read the head of the pool and its successor, which the second
and the third one then take; the head comes back alone before the exchange. -/
def overtaken : List Event :=
  appendFresh 1 "one" ++ appendFresh 2 "two" ++ runWriter 15 ++
    .append 1 "scope" ⟨"file", "function", 1⟩ "three" :: run 1 2 ++
    .append 2 "scope" ⟨"file", "function", 1⟩ "four" :: run 2 3 ++
    .append 3 "scope" ⟨"file", "function", 1⟩ "five" :: run 3 3 ++
    run 2 4 ++ runWriter 10 ++ run 1 1 ++
    .append 4 "scope" ⟨"file", "function", 1⟩ "six" :: run 4 3

theorem event_shared :
    ∃ s, Reach State.step (fun _ _ => True) State.start s ∧
      (s.pc 3).event = some 1 ∧ (s.pc 4).event = some 1 ∧ ¬ Sound s := by
  obtain ⟨s, hreach, hnodes, hthree, hfour⟩ := @exists_reach _ _ State.step
    (fun _ _ => True) State.start _ overtaken
    (fun s => 1 < s.nodes ∧ (s.pc 3).event = some 1 ∧ (s.pc 4).event = some 1) _
    (by decide +kernel)
  refine ⟨s, hreach, hthree, hfour, fun hsound => ?_⟩
  obtain ⟨pending, batch, left, pool, hexact⟩ := hsound.exact
  obtain ⟨owner, -, hunique⟩ := hexact.owner 1 hnodes
  have hsame := (hunique (.producer 3) hthree).trans (hunique (.producer 4) hfour).symm
  cases hsame

end Logger

end TwistSim

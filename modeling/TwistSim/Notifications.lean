/-
The notifications of `FaultyCondVar`: the life of a waiter, who still has to wake whom,
and what the waits return.
-/
import TwistSim.FaultyCondVar

namespace TwistSim

namespace FaultyCondVar

/-! ### The mutexes -/

structure Guarded (s : State) : Prop where
  holder : ∀ t, (s.pc t).holds = true ↔ s.mutex = some t
  locker : ∀ t, (s.pc t).locks = true ↔ s.waitersMutex = some t

section Guarded

variable {s s' : State} {t n : Nat} {pc pc₀ : Pc}

theorem guarded_start : Guarded State.start where
  holder _ := ⟨fun h => (by cases h), fun h => (by cases h)⟩
  locker _ := ⟨fun h => (by cases h), fun h => (by cases h)⟩

/-- Who is where the mutex is held holds it. -/
theorem Passes.kept {r : Pc → Bool} {f : Nat → Pc} {m m' : Option Nat}
    (hpc : f t = pc₀) (hpass : Passes t (r pc₀) (r pc) m m')
    (h : ∀ u, r (f u) = true ↔ m = some u) (u : Nat) :
    r (Function.update f t pc u) = true ↔ m' = some u := by
  subst hpc
  refine update_cases (P := fun u q => r q = true ↔ m' = some u) ?_ (fun u hu => ?_) u
  · generalize r pc = b, hb : r (f t) = b₀ at hpass
    cases hpass with
    | keep => rw [← hb, h]
    | take => simp
    | release => simp
  · rw [h]
    generalize r pc = b, hb : r (f t) = b₀ at hpass
    cases hpass with
    | keep => rfl
    | take hfree => simp [hfree, Ne.symm hu]
    | release =>
        have hheld := (h t).mp hb
        simp [hheld, Ne.symm hu]

theorem Guarded.move (h : Guarded s) (hpc : s.pc t = pc₀)
    (hupdate : s'.pc = Function.update s.pc t pc)
    (hmutex : Passes t pc₀.holds pc.holds s.mutex s'.mutex)
    (hwaiters : Passes t pc₀.locks pc.locks s.waitersMutex s'.waitersMutex) :
    Guarded s' := by
  constructor <;> rw [hupdate]
  · exact hmutex.kept hpc h.holder
  · exact hwaiters.kept hpc h.locker

/-- A thread that is awake again holds what it held. -/
theorem rouse_cases (s : State) (n : Nat) :
    s.rouse n = s ∨ ∃ u timeout, s.pc u = .asleep n timeout ∧ u = (s.node n).owner ∧
      s.rouse n = s.goto u (.checking n timeout) := by
  unfold State.rouse
  split
  · rename_i m timeout hpc
    split
    · rename_i heq
      subst heq
      exact .inr ⟨_, timeout, hpc, rfl, rfl⟩
    · exact .inl rfl
  · exact .inl rfl

theorem proceed_cases (job : Job) (rest : List Nat) :
    (State.proceed job rest).holds = job.held ∧ (State.proceed job rest).locks = true ∧
      (State.proceed job rest).job = some job ∧ (State.proceed job rest).todo = rest := by
  cases rest <;> exact ⟨rfl, rfl, rfl, rfl⟩

theorem Guarded.rouse (h : Guarded s) (n : Nat) : Guarded (s.rouse n) := by
  rcases rouse_cases s n with heq | ⟨u, timeout, hpc, -, heq⟩ <;> rw [heq]
  · exact h
  · exact h.move hpc rfl (.keep _ _) (.keep _ _)

theorem rouse_pc_of_ne (hpc : ∀ m timeout, s.pc t ≠ .asleep m timeout) :
    (s.rouse n).pc t = s.pc t := by
  rcases rouse_cases s n with heq | ⟨u, timeout, hasleep, -, heq⟩ <;> rw [heq]
  have hne : t ≠ u := by
    rintro rfl
    exact hpc n timeout hasleep
  exact Function.update_of_ne hne _ _

theorem waking_of_rouse {job : Job} {rest : List Nat} (hpc : s.pc t = .waking job n rest) :
    (s.rouse n).pc t = .waking job n rest := by
  rw [rouse_pc_of_ne] <;> rw [hpc]
  exact nofun

/-- Only a program counter changes. -/
theorem rouse_eq (s : State) (n : Nat) : s.rouse n = { s with pc := (s.rouse n).pc } := by
  rcases rouse_cases s n with heq | ⟨u, timeout, -, -, heq⟩ <;> rw [heq]
  rfl

@[simp] theorem rouse_mutex (s : State) (n : Nat) : (s.rouse n).mutex = s.mutex := by
  rw [rouse_eq]

@[simp] theorem rouse_waitersMutex (s : State) (n : Nat) :
    (s.rouse n).waitersMutex = s.waitersMutex := by
  rw [rouse_eq]

@[simp] theorem rouse_waiters (s : State) (n : Nat) :
    (s.rouse n).waiters = s.waiters := by
  rw [rouse_eq]

@[simp] theorem rouse_node (s : State) (n : Nat) : (s.rouse n).node = s.node := by
  rw [rouse_eq]

@[simp] theorem rouse_nodes (s : State) (n : Nat) : (s.rouse n).nodes = s.nodes := by
  rw [rouse_eq]

@[simp] theorem rouse_ones (s : State) (n : Nat) : (s.rouse n).ones = s.ones := by
  rw [rouse_eq]

@[simp] theorem rouse_alls (s : State) (n : Nat) : (s.rouse n).alls = s.alls := by
  rw [rouse_eq]

@[simp] theorem rouse_served (s : State) (n : Nat) : (s.rouse n).served = s.served := by
  rw [rouse_eq]

theorem Passes.of_eq {b b' : Bool} {m : Option Nat} (h : b' = b) : Passes t b b' m m := by
  rw [h]
  exact .keep b m

theorem holds_userCode (held : Bool) : (State.userCode held).holds = held := by
  cases held <;> rfl

theorem locks_userCode (held : Bool) : (State.userCode held).locks = false := by
  cases held <;> rfl

theorem Step.guarded (hstep : Step s s') (h : Guarded s) : Guarded s' := by
  cases hstep with
  | move hpc _ hmutex hwaiters => exact h.move hpc rfl hmutex hwaiters
  | push hpc | hear hpc _ | withdraw hpc _ | depart hpc _ _ | conclude hpc | nobody hpc _
  | pick hpc _ | fire hpc => exact h.move hpc rfl (.keep _ _) (.keep _ _)
  | reacquire hpc hfree => exact h.move hpc rfl (.take hfree) (.keep _ _)
  | @pickAll t held order hpc _ =>
      obtain ⟨hholds, hlocks, -, -⟩ := proceed_cases ⟨held, s.waiters⟩ order
      exact h.move hpc rfl (.of_eq hholds) (.of_eq hlocks)
  | @wake t n job rest hpc =>
      obtain ⟨hholds, hlocks, -, -⟩ := proceed_cases job rest
      exact (h.rouse n).move (waking_of_rouse hpc) rfl (.of_eq hholds) (.of_eq hlocks)
  | @finish t job hpc =>
      refine h.move hpc rfl (.of_eq (holds_userCode job.held)) ?_
      rw [locks_userCode]
      exact .release _

end Guarded

/-! ### The life of a waiter -/

/-- Of the thread `t`; `w` notifies; `fired` is the flag of the event. -/
inductive Stage where
  | unborn
  | queued (t : Nat)
  | picked (t w : Nat)
  | fired (t : Nat)
  | gone (t : Nat) (fired : Bool)
  | dead (t : Nat) (fired : Bool)
  | concluded (t : Nat) (fired woken : Bool)
  deriving DecidableEq, Repr

namespace Stage

/-- Unlinked, with this flag. -/
def unlinked (t : Nat) (fired : Bool) : Waiter :=
  { (Waiter.fresh t).link.unlink with fired := fired }

def node : Stage → Waiter
  | unborn => .fresh 0
  | queued t => (Waiter.fresh t).link
  | picked t _ => unlinked t false
  | fired t => unlinked t true
  | gone t b => unlinked t b
  | dead t b => (unlinked t b).drop
  | concluded t b woken => (unlinked t b).drop.conclude woken

/-- The thread `u` has this to do with the waiter. -/
def near : Stage → Nat → Role → Prop
  | queued t, u, r | fired t, u, r => u = t ∧ r = .waits
  | picked t w, u, r => u = t ∧ r = .waits ∨ u = w ∧ r = .fires
  | gone t _, u, r => u = t ∧ r = .leaves
  | dead t _, u, r => u = t ∧ r = .returns
  | _, _, _ => False

def linked : Stage → Bool
  | queued _ => true
  | _ => false

def born : Stage → Bool
  | unborn => false
  | _ => true

variable {g : Stage} {t n : Nat}

theorem eq_of_waits (h : g.near t .waits) :
    g = queued t ∨ (∃ w, g = picked t w) ∨ g = fired t := by
  cases g <;> simp_all [near]

theorem eq_of_leaves (h : g.near t .leaves) : ∃ b, g = gone t b := by
  cases g <;> simp_all [near]

theorem eq_of_returns (h : g.near t .returns) : ∃ b, g = dead t b := by
  cases g <;> simp_all [near]

theorem eq_of_fires (h : g.near t .fires) : ∃ u, g = picked u t := by
  cases g <;> simp_all [near]

theorem eq_of_linked (h : g.linked = true) : ∃ t, g = queued t := by
  cases g with
  | queued t => exact ⟨t, rfl⟩
  | _ => exact absurd h Bool.false_ne_true

end Stage

/-- What the state says of a waiter is what its stage says. -/
structure At (s : State) (n : Nat) (g : Stage) : Prop where
  node : s.node n = g.node
  near : ∀ u r, (s.pc u).near r n ↔ g.near u r
  linked : n ∈ s.waiters ↔ g.linked = true
  born : n < s.nodes ↔ g.born = true

structure Placed (s : State) : Prop where
  stage : ∀ n, ∃ g, At s n g
  nodup : s.waiters.Nodup

section Placed

variable {s s' : State} {t n : Nat} {pc pc₀ : Pc} {g : Stage}

theorem placed_start : Placed State.start where
  stage n := ⟨.unborn, {
    node := rfl
    near u r := ⟨False.elim, False.elim⟩
    linked := ⟨fun h => (by cases h), fun h => (by cases h)⟩
    born := ⟨fun h => (by cases h), fun h => (by cases h)⟩ }⟩
  nodup := List.nodup_nil

theorem At.keep (hg : At s n g) (hpc : s'.pc = Function.update s.pc t pc)
    (hnear : ∀ r, pc.near r n ↔ (s.pc t).near r n) (hnode : s'.node n = s.node n)
    (hqueue : n ∈ s'.waiters ↔ n ∈ s.waiters) (hborn : n < s'.nodes ↔ n < s.nodes) :
    At s' n g := by
  refine ⟨hnode.trans hg.node, ?_, hqueue.trans hg.linked, hborn.trans hg.born⟩
  rw [hpc]
  refine update_cases (P := fun u (q : Pc) => ∀ r, q.near r n ↔ g.near u r)
    (fun r => (hnear r).trans (hg.near t r)) fun u _ r => hg.near u r

/-- A step of `t` brings the waiter to another stage. -/
theorem At.become (hg : At s n g) (g' : Stage) (hpc : s'.pc = Function.update s.pc t pc)
    (hself : ∀ r, pc.near r n ↔ g'.near t r)
    (hothers : ∀ u r, u ≠ t → (g.near u r ↔ g'.near u r))
    (hnode : s'.node n = g'.node) (hlinked : n ∈ s'.waiters ↔ g'.linked = true)
    (hborn : n < s'.nodes ↔ g'.born = true) : At s' n g' := by
  refine ⟨hnode, ?_, hlinked, hborn⟩
  rw [hpc]
  exact update_cases (P := fun u (q : Pc) => ∀ r, q.near r n ↔ g'.near u r) hself
    fun u hu r => (hg.near u r).trans (hothers u r hu)

/-- Only the program counter changes, and the thread cares for the same waiters. -/
theorem Placed.move (h : Placed s) (hpc : s'.pc = Function.update s.pc t pc)
    (hnear : pc.near = (s.pc t).near) (hnode : s'.node = s.node)
    (hqueue : s'.waiters = s.waiters) (hborn : s'.nodes = s.nodes) : Placed s' := by
  refine ⟨fun n => ?_, hqueue ▸ h.nodup⟩
  obtain ⟨g, hg⟩ := h.stage n
  refine ⟨g, hg.keep hpc (fun r => ?_) (congrFun hnode n) ?_ ?_⟩
  · rw [hnear]
  · rw [hqueue]
  · rw [hborn]

/-- One waiter passes to another stage, by a step of a thread that goes on to care for
the others that it cares for. -/
theorem Placed.change (h : Placed s) (hg : At s n g) (g' : Stage)
    (hpc : s'.pc = Function.update s.pc t pc)
    (hsame : ∀ m, m ≠ n → ∀ r, pc.near r m ↔ (s.pc t).near r m)
    (hself : ∀ r, pc.near r n ↔ g'.near t r)
    (hothers : ∀ u r, u ≠ t → (g.near u r ↔ g'.near u r))
    (hnode : s'.node = Function.update s.node n g'.node)
    (hqueue : ∀ m, m ≠ n → (m ∈ s'.waiters ↔ m ∈ s.waiters))
    (hlinked : n ∈ s'.waiters ↔ g'.linked = true)
    (hnodes : ∀ m, m ≠ n → (m < s'.nodes ↔ m < s.nodes))
    (hborn : n < s'.nodes ↔ g'.born = true) (hnodup : s'.waiters.Nodup) : Placed s' := by
  refine ⟨fun m => ?_, hnodup⟩
  by_cases hm : m = n
  · subst hm
    have hnode' : s'.node m = g'.node := by rw [hnode, Function.update_self]
    exact ⟨g', hg.become g' hpc hself hothers hnode' hlinked hborn⟩
  · obtain ⟨g₀, hg₀⟩ := h.stage m
    have hnode' : s'.node m = s.node m := by rw [hnode, Function.update_of_ne hm]
    exact ⟨g₀, hg₀.keep hpc (hsame m hm) hnode' (hqueue m hm) (hnodes m hm)⟩

/-- The waiter of the thread itself passes on, unlinked. -/
theorem Placed.turn (h : Placed s) (hg : At s n g) (g' : Stage)
    (hpc : s'.pc = Function.update s.pc t pc)
    (hold : ∀ m r, m ≠ n → ¬ (s.pc t).near r m) (hnew : ∀ m r, m ≠ n → ¬ pc.near r m)
    (hself : ∀ r, pc.near r n ↔ g'.near t r)
    (hothers : ∀ u r, u ≠ t → (g.near u r ↔ g'.near u r))
    (hnode : s'.node = Function.update s.node n g'.node)
    (hqueue : s'.waiters = s.waiters) (hlinked : g.linked = g'.linked)
    (hnodes : s'.nodes = s.nodes) (hborn : g.born = g'.born) : Placed s' := by
  apply h.change hg g' hpc
  · exact fun m hm r => iff_of_false (hnew m r hm) (hold m r hm)
  · exact hself
  · exact hothers
  · exact hnode
  · exact fun m _ => by rw [hqueue]
  · rw [hqueue, hg.linked, hlinked]
  · exact fun m _ => by rw [hnodes]
  · rw [hnodes, hg.born, hborn]
  · exact hqueue ▸ h.nodup

/-- The thread cares for its own waiter, and for no other, before and after. -/
theorem Placed.pass {role role' : Role} (h : Placed s) (hg : At s n g) (g' : Stage)
    (hpc : s'.pc = Function.update s.pc t pc)
    (hold : ∀ r m, (s.pc t).near r m ↔ r = role ∧ m = n)
    (hnew : ∀ r m, pc.near r m ↔ r = role' ∧ m = n)
    (howner : ∀ u r, g.near u r ↔ u = t ∧ r = role)
    (howner' : ∀ u r, g'.near u r ↔ u = t ∧ r = role')
    (hnode : s'.node = Function.update s.node n g'.node)
    (hqueue : s'.waiters = s.waiters) (hlinked : g.linked = g'.linked)
    (hnodes : s'.nodes = s.nodes) (hborn : g.born = g'.born) : Placed s' := by
  refine h.turn hg g' hpc ?_ ?_ ?_ ?_ hnode hqueue hlinked hnodes hborn
  · exact fun m r hm hr => hm ((hold r m).mp hr).2
  · exact fun m r hm hr => hm ((hnew r m).mp hr).2
  · intro r
    rw [hnew, howner', and_iff_left rfl, and_iff_right rfl]
  · intro u r hu
    rw [howner, howner']
    exact iff_of_false (fun hr => hu hr.1) fun hr => hu hr.1

theorem At.waited (hg : At s n g) (hnear : (s.pc t).near .waits n) :
    g = .queued t ∨ (∃ w, g = .picked t w) ∨ g = .fired t :=
  Stage.eq_of_waits ((hg.near t _).mp hnear)

theorem At.queued (hg : At s n g) (hmem : n ∈ s.waiters) : ∃ u, g = .queued u :=
  Stage.eq_of_linked (hg.linked.mp hmem)

/-- The next waiter has not been constructed yet. -/
theorem Placed.unborn (h : Placed s) : At s s.nodes .unborn := by
  obtain ⟨g, hg⟩ := h.stage s.nodes
  have hnot : ¬ g.born = true := mt hg.born.mpr (Nat.lt_irrefl _)
  cases g with
  | unborn => exact hg
  | _ => exact absurd rfl hnot

/-- Under `waiters_mutex_`, a waiter that is not linked any more has fired. -/
theorem At.fired_of_unlinking (hg : At s n g) {woken : Bool} (hguarded : Guarded s)
    (hpc : s.pc t = .unlinking n woken) (hlinked : n ∉ s.waiters) : g = .fired t := by
  have hnear : (s.pc t).near .waits n := by
    rw [hpc]
    exact ⟨rfl, rfl⟩
  rcases hg.waited hnear with rfl | ⟨w, rfl⟩ | rfl
  · exact absurd (hg.linked.mpr rfl) hlinked
  · have hfires : (s.pc w).near .fires n := (hg.near w .fires).mpr (.inr ⟨rfl, rfl⟩)
    have hlocks : (s.pc w).locks = true := by
      cases hw : s.pc w <;> rw [hw] at hfires <;>
        first | rfl | exact absurd hfires.1 (by decide) | exact hfires.elim
    have hlocker : s.waitersMutex = some t := (hguarded.locker t).mp (by rw [hpc]; rfl)
    have hlocker' := (hguarded.locker w).mp hlocks
    rw [hlocker] at hlocker'
    cases hlocker'
    rw [hpc] at hfires
    exact absurd hfires.1 (by decide)
  · rfl

theorem Placed.push {timeout : Option Int} (h : Placed s)
    (hpc : s.pc t = .pushing timeout) :
    Placed { (s.goto t (.leaving s.nodes timeout)).setNode s.nodes
        (Waiter.fresh t).link with
      waiters := s.waiters ++ [s.nodes]
      nodes := s.nodes + 1 } := by
  have hg := h.unborn
  have hout : s.nodes ∉ s.waiters := mt hg.linked.mp Bool.false_ne_true
  apply h.change hg (.queued t) rfl
  · intro m hm r
    rw [hpc]
    exact iff_of_false (fun hr => hm hr.2) id
  · exact fun r => ⟨fun hr => ⟨rfl, hr.1⟩, fun hr => ⟨hr.2, rfl⟩⟩
  · exact fun u r hu => ⟨False.elim, fun hr => absurd hr.1 hu⟩
  · rfl
  · intro m hm
    change m ∈ s.waiters ++ [s.nodes] ↔ _
    rw [List.mem_append, List.mem_singleton, or_iff_left hm]
  · exact ⟨fun _ => rfl, fun _ => List.mem_append_right _ (List.mem_singleton_self _)⟩
  · intro m hm
    change m < s.nodes + 1 ↔ m < s.nodes
    omega
  · exact ⟨fun _ => rfl, fun _ => Nat.lt_succ_self s.nodes⟩
  · exact List.nodup_append.mpr ⟨h.nodup, List.nodup_singleton _,
      fun a ha b hb heq => hout (List.mem_singleton.mp hb ▸ heq ▸ ha)⟩

theorem Placed.hear (h : Placed s) (hpc : s.pc t = .checking n none)
    (hfired : (s.node n).fired = true) : Placed (s.goto t (.reacquiring n true)) := by
  obtain ⟨g, hg⟩ := h.stage n
  have hset : g = .fired t := by
    rw [hg.node] at hfired
    rcases @At.waited s t n g hg (by rw [hpc]; exact ⟨rfl, rfl⟩) with rfl | ⟨w, rfl⟩ | rfl
    · cases hfired
    · cases hfired
    · rfl
  subst hset
  refine h.pass hg (.gone t true) rfl (fun r m => ?_) (fun _ _ => Iff.rfl) (fun _ _ => Iff.rfl)
    (fun _ _ => Iff.rfl) ?_ rfl rfl rfl rfl
  · rw [hpc]
    rfl
  · exact (Function.update_eq_self_iff.mpr hg.node.symm).symm

theorem Placed.withdraw {woken : Bool} (h : Placed s) (hpc : s.pc t = .unlinking n woken)
    (hlinked : n ∈ s.waiters) :
    Placed { (s.goto t (.unlocking n woken)).setNode n (s.node n).unlink with
      waiters := s.waiters.erase n } := by
  obtain ⟨g, hg⟩ := h.stage n
  have hset : g = .queued t := by
    obtain ⟨u, rfl⟩ := hg.queued hlinked
    have hnear : (s.pc t).near .waits n := by
      rw [hpc]
      exact ⟨rfl, rfl⟩
    rw [((hg.near t .waits).mp hnear).1]
  subst hset
  apply h.change hg (.gone t false) rfl
  · intro m hm r
    rw [hpc]
    exact iff_of_false (fun hr => hm hr.2) fun hr => hm hr.2
  · exact fun r => ⟨fun hr => ⟨rfl, hr.1⟩, fun hr => ⟨hr.2, rfl⟩⟩
  · exact fun u r hu => ⟨fun hr => absurd hr.1 hu, fun hr => absurd hr.1 hu⟩
  · change Function.update s.node n (s.node n).unlink = _
    rw [hg.node]
    rfl
  · exact fun m hm => List.mem_erase_of_ne hm
  · exact ⟨fun hmem => absurd hmem h.nodup.not_mem_erase,
      fun hr => absurd hr Bool.false_ne_true⟩
  · exact fun _ _ => Iff.rfl
  · exact hg.born
  · exact h.nodup.erase n

theorem Placed.depart {woken : Bool} (h : Placed s) (hguarded : Guarded s)
    (hpc : s.pc t = .unlinking n woken) (hlinked : n ∉ s.waiters) :
    Placed (s.goto t (.unlocking n woken)) := by
  obtain ⟨g, hg⟩ := h.stage n
  obtain rfl := hg.fired_of_unlinking hguarded hpc hlinked
  refine h.pass hg (.gone t true) rfl (fun r m => ?_) (fun _ _ => Iff.rfl) (fun _ _ => Iff.rfl)
    (fun _ _ => Iff.rfl) ?_ rfl rfl rfl rfl
  · rw [hpc]
    rfl
  · exact (Function.update_eq_self_iff.mpr hg.node.symm).symm

theorem Placed.reacquire {woken : Bool} (h : Placed s)
    (hpc : s.pc t = .reacquiring n woken) :
    Placed { (s.goto t (.resumed n woken)).setNode n (s.node n).drop with
      mutex := some t } := by
  obtain ⟨g, hg⟩ := h.stage n
  obtain ⟨b, rfl⟩ := Stage.eq_of_leaves ((hg.near t _).mp (by rw [hpc]; exact ⟨rfl, rfl⟩))
  refine h.pass hg (.dead t b) rfl (fun r m => ?_) (fun _ _ => Iff.rfl) (fun _ _ => Iff.rfl)
    (fun _ _ => Iff.rfl) ?_ rfl rfl rfl rfl
  · rw [hpc]
    rfl
  · change Function.update s.node n (s.node n).drop = _
    rw [hg.node]
    rfl

theorem Placed.conclude {woken : Bool} (h : Placed s) (hpc : s.pc t = .returning n woken) :
    Placed ((s.goto t .holding).setNode n ((s.node n).conclude woken)) := by
  obtain ⟨g, hg⟩ := h.stage n
  obtain ⟨b, rfl⟩ := Stage.eq_of_returns ((hg.near t _).mp (by rw [hpc]; exact ⟨rfl, rfl⟩))
  refine h.turn hg (.concluded t b woken) rfl ?_ (fun m r hm => id) ?_ ?_ ?_ rfl rfl rfl rfl
  · rw [hpc]
    exact fun m r hm hr => hm hr.2
  · exact fun r => Iff.rfl
  · exact fun u r hu => ⟨fun hr => absurd hr.1 hu, False.elim⟩
  · change Function.update s.node n ((s.node n).conclude woken) = _
    rw [hg.node]
    rfl

/-- A linked waiter that the thread unlinks to fire it later. -/
theorem At.pick (hg : At s n g) {all held : Bool} (hpc : s.pc t = .choosing all held)
    (hmem : n ∈ s.waiters) (hupdate : s'.pc = Function.update s.pc t pc)
    (hfires : ∀ r, pc.near r n ↔ r = .fires) (hnode : s'.node n = (s.node n).unlink)
    (hout : n ∉ s'.waiters) (hnodes : s'.nodes = s.nodes) : ∃ g', At s' n g' := by
  obtain ⟨u, rfl⟩ := hg.queued hmem
  have hne : t ≠ u := by
    rintro rfl
    have hnear := (hg.near t .waits).mpr ⟨rfl, rfl⟩
    rw [hpc] at hnear
    exact hnear
  refine ⟨.picked u t, hg.become _ hupdate (fun r => ?_) (fun v r hv => ?_) ?_ ?_ ?_⟩
  · refine (hfires r).trans ⟨fun hr => .inr ⟨rfl, hr⟩, fun hr => ?_⟩
    exact (hr.resolve_left fun hl => hne hl.1).2
  · exact (or_iff_left fun hr => hv hr.1).symm
  · rw [hnode, hg.node]
    rfl
  · exact ⟨fun hin => absurd hin hout, fun hr => absurd hr Bool.false_ne_true⟩
  · rw [hnodes]
    exact hg.born

theorem near_proceed (job : Job) (rest : List Nat) (r : Role) (m : Nat) :
    (State.proceed job rest).near r m ↔ r = .fires ∧ m ∈ rest := by
  cases rest with
  | nil => exact ⟨False.elim, fun hr => absurd hr.2 List.not_mem_nil⟩
  | cons => exact Iff.rfl

theorem Placed.pick {held : Bool} {rest : List Nat} (h : Placed s)
    (hpc : s.pc t = .choosing false held) (hperm : (n :: rest).Perm s.waiters) :
    Placed { (s.goto t (.firing ⟨held, [n]⟩ n [])).setNode n (s.node n).unlink with
      waiters := rest
      ones := s.ones ++ [(s.waiters, some n)] } := by
  obtain ⟨hout, hrest⟩ := List.nodup_cons.mp (hperm.nodup_iff.mpr h.nodup)
  refine ⟨fun m => ?_, hrest⟩
  obtain ⟨g, hg⟩ := h.stage m
  by_cases hm : m = n
  · subst hm
    refine hg.pick hpc (hperm.subset List.mem_cons_self) rfl (fun r => ?_)
      (Function.update_self m _ _) hout rfl
    exact and_iff_left List.mem_cons_self
  · refine ⟨g, hg.keep rfl (fun r => ?_) (Function.update_of_ne hm _ _) ?_ Iff.rfl⟩
    · rw [hpc]
      exact iff_of_false (fun hr => hm (List.mem_singleton.mp hr.2)) id
    · rw [← hperm.mem_iff, List.mem_cons, or_iff_right hm]

theorem Placed.pickAll {held : Bool} {order : List Nat} (h : Placed s)
    (hpc : s.pc t = .choosing true held) (hperm : order.Perm s.waiters) :
    Placed { s.goto t (State.proceed ⟨held, s.waiters⟩ order) with
      node := fun n => if n ∈ s.waiters then (s.node n).unlink else s.node n
      waiters := []
      alls := s.alls ++ [s.waiters] } := by
  refine ⟨fun m => ?_, List.nodup_nil⟩
  obtain ⟨g, hg⟩ := h.stage m
  by_cases hm : m ∈ s.waiters
  · refine hg.pick hpc hm rfl (fun r => ?_) (if_pos hm) List.not_mem_nil rfl
    exact (near_proceed _ _ _ _).trans (and_iff_left (hperm.mem_iff.mpr hm))
  · refine ⟨g, hg.keep rfl (fun r => ?_) (if_neg hm) ?_ Iff.rfl⟩
    · rw [hpc, near_proceed, hperm.mem_iff]
      exact iff_of_false (fun hr => hm hr.2) id
    · exact iff_of_false List.not_mem_nil hm

theorem Placed.fire {job : Job} {rest : List Nat} (h : Placed s)
    (hpc : s.pc t = .firing job n rest) (hrest : n ∉ rest) :
    Placed ((s.goto t (.waking job n rest)).setNode n (s.node n).fire) := by
  obtain ⟨g, hg⟩ := h.stage n
  have hnear : (s.pc t).near .fires n := by
    rw [hpc]
    exact ⟨rfl, List.mem_cons_self⟩
  obtain ⟨u, rfl⟩ := Stage.eq_of_fires ((hg.near t _).mp hnear)
  have hne : t ≠ u := by
    rintro rfl
    have hwaits := (hg.near t .waits).mpr (.inl ⟨rfl, rfl⟩)
    rw [hpc] at hwaits
    exact absurd hwaits.1 (by decide)
  apply h.change hg (.fired u) rfl
  · intro m hm r
    rw [hpc]
    exact and_congr_right fun _ => (List.mem_cons.trans (or_iff_right hm)).symm
  · exact fun r => iff_of_false (fun hr => hrest hr.2) fun hr => hne hr.1
  · exact fun v r hv => or_iff_left fun hr => hv hr.1
  · change Function.update s.node n (s.node n).fire = _
    rw [hg.node]
    rfl
  · exact fun _ _ => Iff.rfl
  · exact hg.linked
  · exact fun _ _ => Iff.rfl
  · exact hg.born
  · exact h.nodup

theorem Placed.rouse (h : Placed s) (n : Nat) : Placed (s.rouse n) := by
  rcases rouse_cases s n with heq | ⟨u, timeout, hpc, -, heq⟩ <;> rw [heq]
  · exact h
  · exact h.move rfl (by rw [hpc]; rfl) rfl rfl rfl

/-- The waiters that are left to be fired are different ones. -/
def Ordered (s : State) : Prop := ∀ t, (s.pc t).todo.Nodup

theorem todo_of_idle (h : pc.job = none) : pc.todo = [] := by
  cases pc <;> first | rfl | cases h

theorem Ordered.goto (h : Ordered s) (hpc : s'.pc = Function.update s.pc t pc)
    (htodo : pc.todo.Nodup) : Ordered s' := by
  unfold Ordered
  rw [hpc]
  exact update_cases (P := fun _ (q : Pc) => q.todo.Nodup) htodo fun u _ => h u

theorem Ordered.rouse (h : Ordered s) (n : Nat) : Ordered (s.rouse n) := by
  rcases rouse_cases s n with heq | ⟨u, timeout, hpc, -, heq⟩ <;> rw [heq]
  · exact h
  · exact h.goto rfl List.nodup_nil

theorem Step.ordered (hstep : Step s s') (h : Ordered s) (hplaced : Placed s) :
    Ordered s' := by
  cases hstep with
  | @move t _ _ _ _ _ hpc hmove _ _ =>
      refine h.goto rfl ?_
      rw [todo_of_idle hmove.idle']
      exact List.nodup_nil
  | push | hear | withdraw | depart | reacquire | conclude | nobody =>
      exact h.goto rfl List.nodup_nil
  | @pick t n _ _ _ _ => exact h.goto rfl (List.nodup_singleton n)
  | @pickAll t held order hpc hperm =>
      refine h.goto rfl ?_
      rw [(proceed_cases _ order).2.2.2]
      exact hperm.nodup_iff.mpr hplaced.nodup
  | @fire t n job rest hpc =>
      have htodo := h t
      rw [hpc] at htodo
      exact h.goto rfl htodo
  | @wake t n job rest hpc =>
      refine (h.rouse n).goto rfl ?_
      have htodo := h t
      rw [hpc] at htodo
      rw [(proceed_cases job rest).2.2.2]
      exact (List.nodup_cons.mp htodo).2
  | @finish t job _ =>
      refine h.goto rfl ?_
      cases job.held <;> exact List.nodup_nil

theorem Step.placed (hstep : Step s s') (h : Placed s) (hguarded : Guarded s)
    (hordered : Ordered s) : Placed s' := by
  cases hstep with
  | move hpc hmove _ _ => exact h.move rfl (by rw [hpc, hmove.near]) rfl rfl rfl
  | push hpc => exact h.push hpc
  | hear hpc hfired => exact h.hear hpc hfired
  | withdraw hpc hlinked => exact h.withdraw hpc hlinked
  | depart hpc hlinked _ => exact h.depart hguarded hpc hlinked
  | reacquire hpc _ => exact h.reacquire hpc
  | conclude hpc => exact h.conclude hpc
  | nobody hpc _ => exact h.move rfl (by rw [hpc]; rfl) rfl rfl rfl
  | pick hpc hperm => exact h.pick hpc hperm
  | pickAll hpc hperm => exact h.pickAll hpc hperm
  | @fire t n job rest hpc =>
      have htodo := hordered t
      rw [hpc] at htodo
      exact h.fire hpc (List.nodup_cons.mp htodo).1
  | @wake t n job rest hpc =>
      refine (h.rouse n).move rfl ?_ rfl rfl rfl
      funext r m
      rw [waking_of_rouse hpc]
      exact propext (near_proceed job rest r m)
  | @finish t job hpc =>
      refine h.move rfl ?_ rfl rfl rfl
      rw [hpc]
      cases job.held <;> rfl

end Placed

/-! ### Who has been woken, and what the waits return -/

/-- The waiter has fired, and its owner does not sleep on it. -/
def Settled (s : State) (n : Nat) : Prop :=
  (s.node n).fired = true ∧ ∀ t timeout, s.pc t ≠ .asleep n timeout

structure Awake (s : State) : Prop where
  fired : ∀ w job n rest, s.pc w = .waking job n rest → (s.node n).fired = true
  /-- Who sleeps although its waiter has fired is about to be woken. -/
  waking : ∀ t n timeout, s.pc t = .asleep n timeout → (s.node n).fired = true →
    ∃ w job rest, s.pc w = .waking job n rest
  jobs : ∀ w job, (s.pc w).job = some job →
    ∀ n ∈ job.targets, Settled s n ∨ n ∈ (s.pc w).todo
  served : ∀ n ∈ s.served, Settled s n

section Awake

variable {s s' : State} {t n : Nat} {pc pc₀ : Pc}

theorem awake_start : Awake State.start where
  fired _ _ _ _ h := by cases h
  waking _ _ _ h := by cases h
  jobs _ _ h := by cases h
  served _ h := absurd h List.not_mem_nil

/-- What has fired stays so, and nobody goes to sleep on it. -/
theorem Settled.keep (h : Settled s n) (hpc : s'.pc = Function.update s.pc t pc)
    (hfired : (s.node n).fired = true → (s'.node n).fired = true)
    (hasleep : ∀ timeout, pc = .asleep n timeout → (s.node n).fired = false) :
    Settled s' n := by
  refine ⟨hfired h.1, ?_⟩
  rw [hpc]
  refine update_cases (P := fun _ (q : Pc) => ∀ timeout, q ≠ .asleep n timeout) ?_
    fun u _ => h.2 u
  intro timeout heq
  have hnot := hasleep timeout heq
  rw [h.1] at hnot
  cases hnot

/-- A step that fires nobody; a notifier leaves `WakeOne` when nobody sleeps there. -/
theorem Awake.move (h : Awake s) (hpc : s'.pc = Function.update s.pc t pc)
    (hfired : ∀ n, (s'.node n).fired = (s.node n).fired)
    (hasleep : ∀ n timeout, pc = .asleep n timeout → (s.node n).fired = false)
    (hwaking : ∀ job n rest, pc ≠ .waking job n rest)
    (hleft : ∀ job n rest, s.pc t = .waking job n rest →
      ∀ u timeout, s.pc u ≠ .asleep n timeout)
    (hjob : ∀ job, pc.job = some job →
      ∀ n ∈ job.targets, Settled s n ∨ n ∈ pc.todo)
    (hserved : ∀ n ∈ s'.served, Settled s n) : Awake s' := by
  have hsettled : ∀ n, Settled s n → Settled s' n := fun n hn =>
    hn.keep hpc (fun hf => (hfired n).trans hf) (hasleep n)
  refine ⟨?_, ?_, ?_, fun n hn => hsettled n (hserved n hn)⟩
  · rw [hpc]
    refine update_cases (P := fun _ (q : Pc) =>
      ∀ job n rest, q = .waking job n rest → (s'.node n).fired = true)
      (fun job n rest heq => absurd heq (hwaking job n rest)) fun u _ job n rest hu => ?_
    exact (hfired n).trans (h.fired u job n rest hu)
  · intro u n timeout hu hn
    rw [hfired] at hn
    rw [hpc] at hu
    by_cases hut : u = t
    · subst hut
      rw [Function.update_self] at hu
      rw [hasleep n timeout hu] at hn
      cases hn
    · rw [Function.update_of_ne hut] at hu
      obtain ⟨w, job, rest, hw⟩ := h.waking u n timeout hu hn
      have hne : w ≠ t := by
        rintro rfl
        exact hleft job n rest hw u timeout hu
      exact ⟨w, job, rest, by rw [hpc, Function.update_of_ne hne, hw]⟩
  · rw [hpc]
    refine update_cases (P := fun _ (q : Pc) => ∀ job, q.job = some job →
      ∀ n ∈ job.targets, Settled s' n ∨ n ∈ q.todo) ?_ fun u _ job hu n hn => ?_
    · exact fun job hj n hn => (hjob job hj n hn).imp_left (hsettled n)
    · exact (h.jobs u job hu n hn).imp_left (hsettled n)

/-- A step outside the notifications. -/
theorem Awake.quiet (h : Awake s) (hpc : s'.pc = Function.update s.pc t pc)
    (hfired : ∀ n, (s'.node n).fired = (s.node n).fired)
    (hasleep : ∀ n timeout, pc ≠ .asleep n timeout) (hfrom : (s.pc t).job = none)
    (hto : pc.job = none) (hserved : s'.served = s.served) : Awake s' := by
  apply h.move hpc hfired
  · exact fun n timeout heq => absurd heq (hasleep n timeout)
  · rintro job n rest rfl
    cases hto
  · intro job n rest heq
    rw [heq] at hfrom
    cases hfrom
  · intro job hj
    rw [hto] at hj
    cases hj
  · exact fun n hn => h.served n (hserved ▸ hn)

theorem Awake.fire {job : Job} {rest : List Nat} (h : Awake s)
    (hpc : s.pc t = .firing job n rest) :
    Awake ((s.goto t (.waking job n rest)).setNode n (s.node n).fire) := by
  have hfired : ∀ m, (s.node m).fired = true →
      (Function.update s.node n (s.node n).fire m).fired = true :=
    update_cases (P := fun m (q : Waiter) => (s.node m).fired = true → q.fired = true)
      (fun _ => rfl) fun _ _ => id
  have hsettled : ∀ m, Settled s m →
      Settled ((s.goto t (.waking job n rest)).setNode n (s.node n).fire) m :=
    fun m hm => hm.keep rfl (hfired m) nofun
  refine ⟨?_, ?_, ?_, fun m hm => hsettled m (h.served m hm)⟩
  · refine update_cases (P := fun _ (q : Pc) => ∀ job' m rest', q = .waking job' m rest' →
      (Function.update s.node n (s.node n).fire m).fired = true) ?_ fun u _ job' m rest' hu => ?_
    · intro job' m rest' heq
      cases heq
      rw [Function.update_self]
      rfl
    · exact hfired m (h.fired u job' m rest' hu)
  · intro u m timeout hu hm
    change Function.update s.pc t _ u = _ at hu
    change (Function.update s.node n _ m).fired = true at hm
    by_cases hmn : m = n
    · subst hmn
      exact ⟨t, job, rest, Function.update_self _ _ _⟩
    · rw [Function.update_of_ne hmn] at hm
      by_cases hut : u = t
      · subst hut
        rw [Function.update_self] at hu
        cases hu
      · rw [Function.update_of_ne hut] at hu
        obtain ⟨w, job', rest', hw⟩ := h.waking u m timeout hu hm
        have hne : w ≠ t := by
          rintro rfl
          rw [hpc] at hw
          cases hw
        exact ⟨w, job', rest', (Function.update_of_ne hne _ _).trans hw⟩
  · refine update_cases (P := fun _ (q : Pc) => ∀ job', q.job = some job' →
      ∀ m ∈ job'.targets, Settled _ m ∨ m ∈ q.todo) ?_ fun u _ job' hu m hm => ?_
    · intro job' hj m hm
      have hall := h.jobs t job' (by rw [hpc]; exact hj) m hm
      rw [hpc] at hall
      exact hall.imp_left (hsettled m)
    · exact (h.jobs u job' hu m hm).imp_left (hsettled m)

theorem Awake.rouse (h : Awake s) (n : Nat) : Awake (s.rouse n) := by
  rcases rouse_cases s n with heq | ⟨u, timeout, hpc, -, heq⟩ <;> rw [heq]
  · exact h
  · exact h.quiet rfl (fun _ => rfl) nofun (by rw [hpc]; rfl) rfl rfl

/-- Only the owner could sleep there. -/
theorem Placed.rouse_awake (h : Placed s) (n u : Nat) (timeout : Option Int) :
    (s.rouse n).pc u ≠ .asleep n timeout := by
  intro hu
  obtain ⟨g, hg⟩ := (h.rouse n).stage n
  have hwaits : g.near u .waits := (hg.near u .waits).mp (by rw [hu]; exact ⟨rfl, rfl⟩)
  have howner : (s.node n).owner = u := by
    rw [← rouse_node s n, hg.node]
    rcases Stage.eq_of_waits hwaits with rfl | ⟨w, rfl⟩ | rfl <;> rfl
  unfold State.rouse at hu
  rw [howner] at hu
  split at hu
  · rename_i m timeout' hpc
    split at hu
    · exact absurd ((Function.update_self u _ s.pc).symm.trans hu) nofun
    · rename_i hne
      rw [hpc] at hu
      cases hu
      exact hne rfl
  · rename_i hnot
    exact hnot _ _ hu

theorem Awake.wake {job : Job} {rest : List Nat} (h : Awake s) (hplaced : Placed s)
    (hpc : s.pc t = .waking job n rest) :
    Awake ((s.rouse n).goto t (State.proceed job rest)) := by
  have hpc' := waking_of_rouse (n := n) hpc
  have hrouse := h.rouse n
  obtain ⟨-, -, hjob, htodo⟩ := proceed_cases job rest
  have hn : Settled (s.rouse n) n :=
    ⟨hrouse.fired t job n rest hpc', hplaced.rouse_awake n⟩
  refine hrouse.move rfl (fun _ => rfl) ?_ ?_ ?_ ?_ hrouse.served
  · intro m timeout heq
    cases rest <;> cases heq
  · intro job' m rest' heq
    cases rest <;> cases heq
  · intro job' m rest' heq
    rw [hpc'] at heq
    cases heq
    exact hplaced.rouse_awake n
  · intro job' hj m hm
    rw [hjob] at hj
    cases hj
    have hall := hrouse.jobs t job (by rw [hpc']; rfl) m hm
    rw [hpc'] at hall
    rw [htodo]
    rcases hall with hs | hin
    · exact .inl hs
    · rcases List.mem_cons.mp hin with rfl | hin
      · exact .inl hn
      · exact .inr hin

theorem fired_setNode {node : Waiter} (h : node.fired = (s.node n).fired) (m : Nat) :
    (Function.update s.node n node m).fired = (s.node m).fired :=
  update_cases (P := fun m (q : Waiter) => q.fired = (s.node m).fired) h
    (fun _ _ => rfl) m

theorem Step.awake (hstep : Step s s') (h : Awake s) (hplaced : Placed s) : Awake s' := by
  cases hstep with
  | @move t pc₀ pc _ _ _ hpc hmove _ _ =>
      refine h.move rfl (fun _ => rfl) hmove.asleep ?_ ?_ ?_ h.served
      · rintro job n rest rfl
        cases hmove.idle'
      · rintro job n rest heq
        have hidle := hmove.idle
        rw [← hpc, heq] at hidle
        cases hidle
      · intro job hj
        rw [hmove.idle'] at hj
        cases hj
  | @push t timeout hpc =>
      refine h.quiet rfl (fired_setNode ?_) nofun (by rw [hpc]; rfl) rfl rfl
      change _ = (s.node s.nodes).fired
      rw [hplaced.unborn.node]
      rfl
  | hear hpc _ | depart hpc _ _ =>
      exact h.quiet rfl (fun _ => rfl) nofun (by rw [hpc]; rfl) rfl rfl
  | withdraw hpc _ | reacquire hpc _ | conclude hpc =>
      exact h.quiet rfl (fired_setNode rfl) nofun (by rw [hpc]; rfl) rfl rfl
  | nobody hpc _ =>
      refine h.move rfl (fun _ => rfl) nofun nofun (by rw [hpc]; exact nofun) ?_ h.served
      intro job hj n hn
      cases hj
      cases hn
  | pick hpc hperm =>
      refine h.move rfl (fired_setNode rfl) nofun nofun (by rw [hpc]; exact nofun) ?_
        h.served
      intro job hj n hn
      cases hj
      exact .inr hn
  | @pickAll t held order hpc hperm =>
      obtain ⟨-, -, hjob, htodo⟩ := proceed_cases ⟨held, s.waiters⟩ order
      refine h.move rfl (fun n => ?_) ?_ ?_ (by rw [hpc]; exact nofun) ?_ h.served
      · change (if n ∈ s.waiters then (s.node n).unlink else s.node n).fired = _
        split <;> rfl
      · intro m timeout heq
        cases order <;> cases heq
      · intro job' m rest' heq
        cases order <;> cases heq
      · intro job hj n hn
        rw [hjob] at hj
        cases hj
        rw [htodo]
        exact .inr (hperm.mem_iff.mpr hn)
  | fire hpc => exact h.fire hpc
  | wake hpc => exact h.wake hplaced hpc
  | @finish t job hpc =>
      have hidle : (State.userCode job.held).job = none := by cases job.held <;> rfl
      refine h.move rfl (fun _ => rfl) ?_ ?_ (by rw [hpc]; exact nofun) ?_ ?_
      · intro m timeout heq
        cases hheld : job.held <;> rw [hheld] at heq <;> cases heq
      · intro job' m rest' heq
        rw [heq] at hidle
        cases hidle
      · intro job' hj
        rw [hidle] at hj
        cases hj
      · intro n hn
        rcases List.mem_append.mp hn with hin | hin
        · exact h.served n hin
        · have hall := h.jobs t job (by rw [hpc]; rfl) n hin
          rw [hpc] at hall
          exact hall.resolve_right List.not_mem_nil

end Awake

section Told

variable {s s' : State} {t n : Nat} {pc pc₀ : Pc}

/-- Constructed, and not in the list any more. -/
def Unlinked (s : State) (n : Nat) : Prop := n < s.nodes ∧ n ∉ s.waiters

theorem Step.unlinked (hstep : Step s s') (h : Unlinked s n) : Unlinked s' n := by
  obtain ⟨hborn, hout⟩ := h
  cases hstep with
  | push hpc =>
      refine ⟨Nat.lt_succ_of_lt hborn, fun hmem => ?_⟩
      rcases List.mem_append.mp hmem with hin | hin
      · exact hout hin
      · exact absurd (List.mem_singleton.mp hin) (Nat.ne_of_lt hborn)
  | withdraw _ _ => exact ⟨hborn, fun hmem => hout (List.mem_of_mem_erase hmem)⟩
  | pick _ hperm =>
      exact ⟨hborn, fun hmem => hout (hperm.subset (List.mem_cons_of_mem _ hmem))⟩
  | pickAll => exact ⟨hborn, List.not_mem_nil⟩
  | wake => exact ⟨by simpa [State.goto] using hborn, by simpa [State.goto] using hout⟩
  | _ => exact ⟨hborn, hout⟩

/-- What a `notify_one` notes that takes this step. -/
theorem Step.ones (hstep : Step s s') (hplaced : Placed s) :
    s'.ones = s.ones ∨ ∃ call, s'.ones = s.ones ++ [call] ∧
      (call.1 ≠ [] → ∃ n ∈ call.1, call.2 = some n) ∧
      ∀ n, call.2 = some n → n ∈ s.waiters ∧ Unlinked s' n ∧
        ∃ w job, (s'.pc w).job = some job ∧ n ∈ job.targets := by
  cases hstep with
  | nobody hpc hempty =>
      exact .inr ⟨_, rfl, fun hne => absurd hempty hne, nofun⟩
  | @pick t n held rest hpc hperm =>
      have hmem : n ∈ s.waiters := hperm.subset List.mem_cons_self
      refine .inr ⟨_, rfl, fun _ => ⟨n, hmem, rfl⟩, fun m hm => ?_⟩
      cases hm
      obtain ⟨g, hg⟩ := hplaced.stage n
      obtain ⟨u, rfl⟩ := hg.queued hmem
      have hout := (List.nodup_cons.mp (hperm.nodup_iff.mpr hplaced.nodup)).1
      refine ⟨hmem, ⟨hg.born.mpr rfl, hout⟩, t, ⟨held, [n]⟩, ?_,
        List.mem_singleton_self n⟩
      change (Function.update s.pc t _ t).job = _
      rw [Function.update_self]
      rfl
  | wake => exact .inl (by simp [State.goto])
  | _ => exact .inl rfl

/-- What a `notify_all` notes that takes this step. -/
theorem Step.alls (hstep : Step s s') : s'.alls = s.alls ∨
    s'.alls = s.alls ++ [s.waiters] ∧
      ∃ w job, (s'.pc w).job = some job ∧ job.targets = s.waiters := by
  cases hstep with
  | @pickAll t held order hpc hperm =>
      refine .inr ⟨rfl, t, ⟨held, s.waiters⟩, ?_, rfl⟩
      change (Function.update s.pc t _ t).job = _
      rw [Function.update_self]
      exact (proceed_cases _ order).2.2.1
  | wake => exact .inl (by simp [State.goto])
  | _ => exact .inl rfl

theorem Step.notified (hstep : Step s s') (hplaced : Placed s) (h : s'.Notified n) :
    s.Notified n ∨ n ∈ s.waiters ∧ Unlinked s' n ∧
      ∃ w job, (s'.pc w).job = some job ∧ n ∈ job.targets := by
  obtain ⟨call, hmem, hcall⟩ := h
  rcases hstep.ones hplaced with heq | ⟨call', heq, -, hpicked⟩ <;> rw [heq] at hmem
  · exact .inl ⟨call, hmem, hcall⟩
  · rcases List.mem_append.mp hmem with hin | hin
    · exact .inl ⟨call, hin, hcall⟩
    · rw [List.mem_singleton.mp hin] at hcall
      exact .inr (hpicked n hcall)

/-- Out of the list, and not by `notify_one`. -/
def Withdrawn (s : State) (n : Nat) : Prop := Unlinked s n ∧ ¬ s.Notified n

theorem Step.withdrawn (hstep : Step s s') (hplaced : Placed s) (h : Withdrawn s n) :
    Withdrawn s' n := by
  refine ⟨hstep.unlinked h.1, fun hnotified => ?_⟩
  rcases hstep.notified hplaced hnotified with hold | ⟨hmem, -⟩
  · exact h.2 hold
  · exact h.1.2 hmem

/-- What `notify_one` has unlinked is not told to have timed out. -/
structure Told (s : State) : Prop where
  late : ∀ t n, (s.pc t).late n → Withdrawn s n
  result : ∀ n, (s.node n).result = some .timeout → Withdrawn s n
  unlinked : ∀ n, s.Notified n → Unlinked s n
  /-- The notifier is at it, or has done it. -/
  served : ∀ n, s.Notified n ∨ (∃ call ∈ s.alls, n ∈ call) →
    n ∈ s.served ∨ ∃ w job, (s.pc w).job = some job ∧ n ∈ job.targets
  found : ∀ call ∈ s.ones, call.1 ≠ [] → ∃ n ∈ call.1, call.2 = some n

theorem not_notified_start : ¬ State.start.Notified n := by
  rintro ⟨call, hmem, -⟩
  cases hmem

theorem told_start : Told State.start where
  late _ _ h := h.elim
  result _ h := by cases h
  unlinked _ h := absurd h not_notified_start
  served _ h := by
    rcases h with h | ⟨call, hmem, -⟩
    · exact absurd h not_notified_start
    · cases hmem
  found _ h := absurd h List.not_mem_nil

theorem late_goto {u : Nat} (hpc : s'.pc = Function.update s.pc t pc)
    (h : (s'.pc u).late n) (hlate : pc.late n → (s.pc t).late n) : (s.pc u).late n := by
  rw [hpc] at h
  exact update_cases (P := fun u (q : Pc) => q.late n → (s.pc u).late n) hlate
    (fun _ _ => id) u h

theorem late_rouse {m u : Nat} (h : ((s.rouse m).pc u).late n) : (s.pc u).late n := by
  rcases rouse_cases s m with heq | ⟨v, timeout, -, -, heq⟩ <;> rw [heq] at h
  · exact h
  · exact late_goto rfl h False.elim

theorem not_late_proceed (job : Job) (rest : List Nat) (n : Nat) :
    ¬ (State.proceed job rest).late n := by
  cases rest <;> exact id

/-- A wait comes to be late under `waiters_mutex_`. -/
theorem Step.late (hstep : Step s s') (hplaced : Placed s) (htold : Told s) {u : Nat}
    (h : (s'.pc u).late n) : (s.pc u).late n ∨ Withdrawn s' n := by
  cases hstep with
  | move hpc hmove _ _ =>
      refine .inl (late_goto rfl h fun hm => ?_)
      rw [hpc, ← hmove.late]
      exact hm
  | push | conclude | nobody | pick | fire => exact .inl (late_goto rfl h False.elim)
  | hear =>
      refine .inl (late_goto rfl h ?_)
      rintro ⟨hwoken, -⟩
      cases hwoken
  | @withdraw t n' woken hpc hlinked =>
      by_cases hu : u = t
      · subst hu
        change (Function.update s.pc u _ u).late n at h
        rw [Function.update_self] at h
        obtain ⟨-, rfl⟩ := h
        obtain ⟨g, hg⟩ := hplaced.stage n
        obtain ⟨v, rfl⟩ := hg.queued hlinked
        exact .inr ⟨⟨hg.born.mpr rfl, hplaced.nodup.not_mem_erase⟩,
          fun hnotified => (htold.unlinked n hnotified).2 hlinked⟩
      · exact .inl (by rwa [show (_ : State).pc u = _ from Function.update_of_ne hu _ _] at h)
  | @depart t n' woken hpc hlinked hintime =>
      by_cases hu : u = t
      · subst hu
        change (Function.update s.pc u _ u).late n at h
        rw [Function.update_self] at h
        obtain ⟨hwoken, rfl⟩ := h
        obtain ⟨g, hg⟩ := hplaced.stage n
        have hwaits := @At.waited s u n g hg (by rw [hpc]; exact ⟨rfl, rfl⟩)
        have hborn : g.born = true := by
          rcases hwaits with rfl | ⟨w, rfl⟩ | rfl <;> rfl
        exact .inr ⟨⟨hg.born.mpr hborn, hlinked⟩, hintime hwoken⟩
      · exact .inl (by rwa [show (_ : State).pc u = _ from Function.update_of_ne hu _ _] at h)
  | reacquire hpc _ =>
      refine .inl (late_goto rfl h fun hm => ?_)
      rw [hpc]
      exact hm
  | @pickAll t held order _ _ =>
      exact .inl (late_goto rfl h fun hm => absurd hm (not_late_proceed _ order n))
  | @wake t m job rest _ =>
      refine .inl (late_rouse (m := m) (late_goto rfl h fun hm => ?_))
      exact absurd hm (not_late_proceed job rest n)
  | @finish t job _ =>
      refine .inl (late_goto rfl h fun hm => ?_)
      cases hheld : job.held <;> rw [hheld] at hm <;> exact hm.elim

theorem result_setNode {m : Nat} {node : Waiter} {r : CvStatus}
    (hupdate : s'.node = Function.update s.node m node)
    (hnode : node.result = (s.node m).result ∨ node.result = none)
    (h : (s'.node n).result = some r) : (s.node n).result = some r := by
  rw [hupdate] at h
  by_cases hn : n = m
  · subst hn
    rw [Function.update_self] at h
    rcases hnode with heq | heq <;> rw [heq] at h
    · exact h
    · cases h
  · rwa [Function.update_of_ne hn] at h

theorem Step.result (hstep : Step s s') (h : (s'.node n).result = some .timeout) :
    (s.node n).result = some .timeout ∨ ∃ u, (s.pc u).late n := by
  cases hstep with
  | push =>
      refine .inl (result_setNode rfl ?_ h)
      exact .inr rfl
  | withdraw | reacquire | pick | fire =>
      refine .inl (result_setNode rfl ?_ h)
      exact .inl rfl
  | @conclude t n' woken hpc =>
      by_cases hn : n = n'
      · subst hn
        change (Function.update s.node n _ n).result = _ at h
        rw [Function.update_self] at h
        refine .inr ⟨t, ?_⟩
        rw [hpc]
        cases woken with
        | false => exact ⟨rfl, rfl⟩
        | true => cases h
      · exact .inl (by rwa [show (_ : State).node n = _ from Function.update_of_ne hn _ _] at h)
  | pickAll =>
      change (if n ∈ s.waiters then (s.node n).unlink else s.node n).result = _ at h
      split at h <;> exact .inl h
  | wake => exact .inl (by simpa [State.goto] using h)
  | _ => exact .inl h

/-- The call of a notifier goes on until all its waiters are served. -/
theorem Step.served (hstep : Step s s') {w : Nat} {job : Job}
    (hjob : (s.pc w).job = some job) (hn : n ∈ job.targets) :
    n ∈ s'.served ∨ ∃ w job, (s'.pc w).job = some job ∧ n ∈ job.targets := by
  have hkept : ∀ {f : Nat → Pc} {t : Nat} {pc : Pc}, (f w).job = some job →
      (w = t → pc.job = some job) → (Function.update f t pc w).job = some job := by
    intro f t pc hf hpc
    by_cases hw : w = t
    · subst hw
      rw [Function.update_self]
      exact hpc rfl
    · rwa [Function.update_of_ne hw]
  cases hstep with
  | move hpc hmove _ _ =>
      refine .inr ⟨w, job, hkept hjob ?_, hn⟩
      rintro rfl
      rw [hpc, hmove.idle] at hjob
      cases hjob
  | push hpc | hear hpc _ | withdraw hpc _ | depart hpc _ _ | reacquire hpc _
  | conclude hpc | nobody hpc _ | pick hpc _ | pickAll hpc _ =>
      refine .inr ⟨w, job, hkept hjob ?_, hn⟩
      rintro rfl
      rw [hpc] at hjob
      cases hjob
  | fire hpc =>
      refine .inr ⟨w, job, hkept hjob ?_, hn⟩
      rintro rfl
      rw [hpc] at hjob
      exact hjob
  | @wake t m job' rest hpc =>
      have hrouse : ((s.rouse m).pc w).job = some job := by
        rw [rouse_pc_of_ne]
        · exact hjob
        · intro m' timeout heq
          rw [heq] at hjob
          cases hjob
      refine .inr ⟨w, job, hkept hrouse ?_, hn⟩
      rintro rfl
      rw [hpc] at hjob
      rw [(proceed_cases job' rest).2.2.1]
      exact hjob
  | @finish t job' hpc =>
      by_cases hw : w = t
      · subst hw
        rw [hpc] at hjob
        cases hjob
        exact .inl (List.mem_append_right _ hn)
      · exact .inr ⟨w, job, hkept hjob fun heq => absurd heq hw, hn⟩

theorem Step.served_mono (hstep : Step s s') (hn : n ∈ s.served) : n ∈ s'.served := by
  cases hstep with
  | finish => exact List.mem_append_left _ hn
  | wake => simpa [State.goto] using hn
  | _ => exact hn

theorem Step.told (hstep : Step s s') (h : Told s) (hplaced : Placed s) : Told s' := by
  refine ⟨fun u n hlate => ?_, fun n hn => ?_, fun n hn => ?_, fun n hn => ?_, ?_⟩
  · rcases hstep.late hplaced h hlate with hold | hnew
    · exact hstep.withdrawn hplaced (h.late u n hold)
    · exact hnew
  · rcases hstep.result hn with hold | ⟨u, hlate⟩
    · exact hstep.withdrawn hplaced (h.result n hold)
    · exact hstep.withdrawn hplaced (h.late u n hlate)
  · rcases hstep.notified hplaced hn with hold | ⟨-, hunlinked, -⟩
    · exact hstep.unlinked (h.unlinked n hold)
    · exact hunlinked
  · have hold : s.Notified n ∨ (∃ call ∈ s.alls, n ∈ call) →
        n ∈ s'.served ∨ ∃ w job, (s'.pc w).job = some job ∧ n ∈ job.targets := by
      intro hold
      rcases h.served n hold with hdone | ⟨w, job, hjob, htarget⟩
      · exact .inl (hstep.served_mono hdone)
      · exact hstep.served hjob htarget
    rcases hn with hn | ⟨call, hmem, hin⟩
    · rcases hstep.notified hplaced hn with hn | ⟨-, -, hjob⟩
      · exact hold (.inl hn)
      · exact .inr hjob
    · rcases hstep.alls with heq | ⟨heq, w, job, hjob, htargets⟩ <;> rw [heq] at hmem
      · exact hold (.inr ⟨call, hmem, hin⟩)
      · rcases List.mem_append.mp hmem with hmem | hmem
        · exact hold (.inr ⟨call, hmem, hin⟩)
        · rw [List.mem_singleton.mp hmem, ← htargets] at hin
          exact .inr ⟨w, job, hjob, hin⟩
  · rcases hstep.ones hplaced with heq | ⟨call, heq, hfound, -⟩ <;> rw [heq]
    · exact h.found
    · intro call' hmem
      rcases List.mem_append.mp hmem with hin | hin
      · exact h.found call' hin
      · rw [List.mem_singleton.mp hin]
        exact hfound

end Told

/-! ### What the condition variable promises -/

/-- The wait of some thread on this waiter comes nearer to its end with every step of
the thread, which only a mutex can hold up. -/
def Returns (s : State) (n : Nat) : Prop :=
  ∃ t r, (s.pc t).near r n ∧ 0 < (s.pc t).left ∧ ∀ expired draws,
    match s.resume t expired draws with
    | some s' => (s'.pc t).left < (s.pc t).left
    | none => s.mutex ≠ none ∨ s.waitersMutex ≠ none

/-- Unlinked once, and before the end of the wait. -/
structure Waiter.Proper (n : Waiter) : Prop where
  links : n.links = 1
  unlinks : n.unlinks ≤ 1
  gone : n.alive = false → n.unlinks = 1

structure Sound (s : State) : Prop where
  /-- The wait that is picked does not time out; its waiter has been served, or the
  call of `notify_one` is not over. -/
  notifyOne : ∀ call ∈ s.ones, call.1 ≠ [] → ∃ n ∈ call.1, call.2 = some n ∧
    (s.node n).result ≠ some .timeout ∧
    (n ∈ s.served ∨ ∃ w job, (s.pc w).job = some job ∧ n ∈ job.targets)
  notifyAll : ∀ call ∈ s.alls, ∀ n ∈ call,
    n ∈ s.served ∨ ∃ w job, (s.pc w).job = some job ∧ n ∈ job.targets
  served : ∀ n ∈ s.served, Settled s n
  returns : ∀ n ∈ s.served, (s.node n).result = none → Returns s n
  nodes : ∀ n < s.nodes, (s.node n).Proper
  alive : ∀ t, ∀ n ∈ s.touches t, (s.node n).alive = true
  holding : ∀ t, s.pc t = .holding → s.mutex = some t

section Sound

variable {s s' : State} {t n : Nat}

theorem Settled.returns (h : Settled s n) (hplaced : Placed s)
    (hresult : (s.node n).result = none) : Returns s n := by
  obtain ⟨hfired, hawake⟩ := h
  obtain ⟨g, hg⟩ := hplaced.stage n
  have hnear : ∃ t r, g.near t r ∧ r ≠ .fires := by
    rw [hg.node] at hfired hresult
    cases g with
    | unborn | queued | picked => cases hfired
    | fired t => exact ⟨t, .waits, ⟨rfl, rfl⟩, by decide⟩
    | gone t b => exact ⟨t, .leaves, ⟨rfl, rfl⟩, by decide⟩
    | dead t b => exact ⟨t, .returns, ⟨rfl, rfl⟩, by decide⟩
    | concluded => cases hresult
  obtain ⟨t, r, hr, hne⟩ := hnear
  have hnear := (hg.near t r).mpr hr
  refine ⟨t, r, hnear, ?_⟩
  cases hpc : s.pc t <;> rw [hpc] at hnear <;>
    first | exact hnear.elim | obtain ⟨hrole, hn⟩ := hnear
  case firing | waking => exact absurd hrole hne
  case asleep m timeout => exact absurd (hn ▸ hpc) (hawake t timeout)
  all_goals
    subst hn
    refine ⟨Nat.succ_pos _, fun expired draws => ?_⟩
  case checking timeout =>
    cases timeout <;> simp [State.resume, hpc, hfired, State.goto, Pc.left]
  case leaving | unlocking | yielding | returning =>
    simp [State.resume, hpc, State.goto, State.setNode, Pc.left]
  all_goals
    simp only [State.resume, hpc, hfired, if_true]
    split_ifs <;> simp_all [State.goto, State.setNode, Pc.left]

theorem Stage.proper {g : Stage} (h : g.born = true) : g.node.Proper := by
  cases g with
  | unborn => cases h
  | queued => exact ⟨rfl, Nat.zero_le 1, nofun⟩
  | _ => exact ⟨rfl, Nat.le_refl 1, fun _ => rfl⟩

theorem Stage.alive_of_near {g : Stage} {r : Role} (h : g.near t r) (hr : r ≠ .returns) :
    g.node.alive = true := by
  cases g with
  | unborn | concluded => exact h.elim
  | dead => exact absurd h.2 hr
  | _ => rfl

theorem Placed.alive_of_near {r : Role} (h : Placed s) (hnear : (s.pc t).near r n)
    (hr : r ≠ .returns) : (s.node n).alive = true := by
  obtain ⟨g, hg⟩ := h.stage n
  rw [hg.node]
  exact Stage.alive_of_near ((hg.near t r).mp hnear) hr

theorem Placed.alive (h : Placed s) (hmem : n ∈ s.touches t) :
    (s.node n).alive = true := by
  have hqueue : n ∈ s.waiters → (s.node n).alive = true := by
    intro hin
    obtain ⟨g, hg⟩ := h.stage n
    obtain ⟨u, rfl⟩ := hg.queued hin
    rw [hg.node]
    rfl
  unfold State.touches at hmem
  split at hmem
  case h_1 | h_2 => exact hqueue hmem
  case h_3 hpc | h_4 hpc =>
      exact @Placed.alive_of_near s t n .waits h
        (by rw [hpc]; exact ⟨rfl, List.mem_singleton.mp hmem⟩) nofun
  case h_5 hpc =>
      exact @Placed.alive_of_near s t n .leaves h
        (by rw [hpc]; exact ⟨rfl, List.mem_singleton.mp hmem⟩) nofun
  case h_6 rest hpc =>
      refine @Placed.alive_of_near s t n .fires h ?_ nofun
      rw [hpc, List.mem_singleton.mp hmem]
      exact ⟨rfl, List.mem_cons_self⟩
  case h_7 hpc =>
      rcases List.mem_cons.mp hmem with rfl | hin
      · exact @Placed.alive_of_near s t n .waits h (by rw [hpc]; exact ⟨rfl, rfl⟩) nofun
      · exact hqueue hin
  case h_8 => cases hmem

structure Sane (s : State) : Prop where
  guarded : Guarded s
  placed : Placed s
  ordered : Ordered s
  awake : Awake s
  told : Told s

theorem sane_start : Sane State.start :=
  ⟨guarded_start, placed_start, fun _ => List.nodup_nil, awake_start, told_start⟩

theorem Step.sane (hstep : Step s s') (h : Sane s) : Sane s' where
  guarded := hstep.guarded h.guarded
  placed := hstep.placed h.placed h.guarded h.ordered
  ordered := hstep.ordered h.ordered h.placed
  awake := hstep.awake h.awake h.placed
  told := hstep.told h.told h.placed

theorem Sane.sound (h : Sane s) : Sound s := by
  refine ⟨fun call hmem hne => ?_,
    fun call hmem n hin => h.told.served n (.inr ⟨call, hmem, hin⟩), h.awake.served,
    fun n hn => ?_, fun n hn => ?_, fun t n => h.placed.alive, fun t hpc => ?_⟩
  · obtain ⟨n, hin, hcall⟩ := h.told.found call hmem hne
    have hnotified : s.Notified n := ⟨call, hmem, hcall⟩
    refine ⟨n, hin, hcall, fun hresult => ?_, h.told.served n (.inl hnotified)⟩
    exact (h.told.result n hresult).2 hnotified
  · exact (h.awake.served n hn).returns h.placed
  · obtain ⟨g, hg⟩ := h.placed.stage n
    rw [hg.node]
    exact Stage.proper (hg.born.mp hn)
  · exact (h.guarded.holder t).mp (by rw [hpc]; rfl)

/-- No notification is lost as long as nobody comes too late. -/
theorem condVar_sound (s : State) (h : Reached s) : Sound s := by
  have hsane : Sane s := by
    refine h.invariant sane_start fun s e s' hs hintime hnext => ?_
    exact (step_of_next hintime hnext).sane hs
  exact hsane.sound

end Sound

/-- The thread goes on so many times. -/
def run (t steps : Nat) : List Event := List.replicate steps (.resume t true fun _ => 0)

/-- One thread waits and another one notifies it. -/
def notified : List Event :=
  [.lock 1] ++ run 1 1 ++ [.wait 1 none] ++ run 1 6 ++ [.notifyOne 2] ++ run 2 5 ++ run 1 4

theorem condVar_sound_notified :
    ∃ s, Reached s ∧ (s.node 0).result = some .noTimeout ∧ Sound s := by
  obtain ⟨s, hreach, hresult⟩ := @exists_reach _ _ State.next InTime State.start _ notified
    (fun s => (s.node 0).result = some .noTimeout) _ (by decide +kernel)
  exact ⟨s, hreach, hresult, condVar_sound s hreach⟩

/-- The first waiter has timed out when `notify_one` picks it, and the second one
waits on. -/
def intercepted : List Event :=
  [.lock 1] ++ run 1 1 ++ [.wait 1 (some 10)] ++ run 1 5 ++
    [.lock 2] ++ run 2 1 ++ [.wait 2 none] ++ run 2 5 ++
    run 1 3 ++ [.notifyOne 3] ++ run 3 5 ++ run 1 6

theorem notification_lost :
    ∃ s, Reach State.next (fun _ _ => True) State.start s ∧
      (s.ones = [([0, 1], some 0)] ∧ s.pc 3 = .outside ∧
        (s.node 0).result = some .timeout ∧ s.waiters = [1] ∧ s.pc 2 = .asleep 1 none) ∧
      ¬ Sound s := by
  obtain ⟨s, hreach, hlost⟩ := @exists_reach _ _ State.next (fun _ _ => True) State.start _
    intercepted (fun s => s.ones = [([0, 1], some 0)] ∧ s.pc 3 = .outside ∧
      (s.node 0).result = some .timeout ∧ s.waiters = [1] ∧ s.pc 2 = .asleep 1 none) _
    (by decide +kernel)
  refine ⟨s, hreach, hlost, fun hsound => ?_⟩
  obtain ⟨hones, -, hresult, -⟩ := hlost
  have hcall : ([0, 1], some 0) ∈ s.ones := by
    rw [hones]
    exact List.mem_singleton_self _
  obtain ⟨n, -, hn, hnot, -⟩ := hsound.notifyOne _ hcall (List.cons_ne_nil _ _)
  cases hn
  exact hnot hresult

end FaultyCondVar

end TwistSim

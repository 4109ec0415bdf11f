/-
What the threads of a `WaitGroup` know of the bodies, and what `Join` promises: all
that the bodies did comes before its return, unless a clock overflows.
-/
import TwistSim.WaitGroup

namespace TwistSim

namespace WaitGroup

variable {g : Group} {s s' : State} {t : ThreadId}

/-! ### Order -/

/-- What the threads know of what was done by bodies: `left_` carries what was done
by those that subtracted themselves, and `done_` carries everything in the end. -/
structure Ordered (g : Group) (s : State) : Prop where
  own : s.memory.OwnEpochs
  attributed : ∀ a ∈ s.log, s.memory.Attributed a
  made : ∀ a ∈ s.log, ∃ i, (s.pc a.thread).index = some i
  counted : ∀ a ∈ s.log, (s.pc a.thread).counted = true → s.memory.Knows a.thread a
  carried : ∀ a ∈ s.log, (s.pc a.thread).counted = false →
    s.memory.Carries g.left.loc a
  loaded : ∀ u i old, s.pc u = .subCommitting i old →
    ∀ a ∈ s.log, (s.pc a.thread).counted = false → s.memory.Knows u a
  finishing : ∀ u i, s.pc u = .finishing i → ∀ a ∈ s.log, s.memory.Knows u a
  finished : s.deleted.length = s.count →
    ∀ a ∈ s.log, s.memory.Carries g.done.loc a
  joined : s.pc g.owner = .joined → ∀ a ∈ s.log, s.memory.Knows g.owner a

theorem Ordered.start : Ordered g State.start where
  own _ _ := Nat.zero_le _
  attributed _ ha := absurd ha List.not_mem_nil
  made _ ha := absurd ha List.not_mem_nil
  counted _ ha := absurd ha List.not_mem_nil
  carried _ ha := absurd ha List.not_mem_nil
  loaded _ _ _ hpc := Pc.noConfusion hpc
  finishing _ _ hpc := Pc.noConfusion hpc
  finished _ _ ha := absurd ha List.not_mem_nil
  joined hpc := Pc.noConfusion hpc

section Order

variable {pc : Pc} {m : Memory}

theorem Ordered.running {a : OldAccess} (h : Ordered g s) (hplaced : Placed g s)
    (ha : a ∈ s.log) : s.Running g := by
  obtain ⟨i, hindex⟩ := h.made a ha
  exact hplaced.running hindex

/-- Threads go on for their nodes, and nobody forgets. -/
theorem ordered_of_step (h : Ordered g s) (hgrows : s.memory.Grows s'.memory)
    (hlog : s'.log = s.log)
    (hpcs : ∀ u i, (s.pc u).index = some i → (s'.pc u).index = some i ∧
      ((s'.pc u).counted = true → (s.pc u).counted = true))
    (hcarried : ∀ a ∈ s.log, (s'.pc a.thread).counted = false →
      s'.memory.Carries g.left.loc a)
    (hloaded : ∀ u i old, s'.pc u = .subCommitting i old →
      ∀ a ∈ s.log, (s'.pc a.thread).counted = false → s'.memory.Knows u a)
    (hfinishing : ∀ u i, s'.pc u = .finishing i → ∀ a ∈ s.log, s'.memory.Knows u a)
    (hfinished : s'.deleted.length = s'.count →
      ∀ a ∈ s.log, s'.memory.Carries g.done.loc a)
    (hjoined : s'.pc g.owner = .joined → ∀ a ∈ s.log, s'.memory.Knows g.owner a) :
    Ordered g s' where
  own := hgrows.own h.own
  attributed a ha := hgrows.attributed (h.attributed a (hlog ▸ ha))
  made a ha := by
    obtain ⟨i, hindex⟩ := h.made a (hlog ▸ ha)
    exact ⟨i, (hpcs _ i hindex).1⟩
  counted a ha hcounted := by
    have hold : a ∈ s.log := hlog ▸ ha
    obtain ⟨i, hindex⟩ := h.made a hold
    exact hgrows.knows (h.attributed a hold).2
      (h.counted a hold ((hpcs _ i hindex).2 hcounted))
  carried a ha := hcarried a (hlog ▸ ha)
  loaded u i old hpc a ha := hloaded u i old hpc a (hlog ▸ ha)
  finishing u i hpc a ha := hfinishing u i hpc a (hlog ▸ ha)
  finished hall a ha := hfinished hall a (hlog ▸ ha)
  joined hpc a ha := hjoined hpc a (hlog ▸ ha)

theorem counted_present (h : pc.counted = true) :
    pc.present = true ∧ ∃ i, pc.index = some i := by
  cases pc with
  | body i | subLoading i | subCommitting i _ => exact ⟨rfl, i, rfl⟩
  | _ => cases h

/-- What is done in user code. -/
theorem Ordered.user {op : Op} (h : Ordered g s) (hplaced : Placed g s)
    (hcounts : Counts g s) (hroomy : s.memory.Roomy) (hrun : s.MayRun op.performer)
    (hleft : Memory.touches g.left.loc op = false)
    (hdone : Memory.touches g.done.loc op = false)
    (hperform : s.memory.perform op = some m) :
    Ordered g { s with memory := m, log := s.note m op } := by
  have hgrows := Memory.perform_grows hroomy hperform
  have hown := hgrows.own h.own
  have hthread := Memory.hasThread_iff.mp (Memory.hasThread.mono hrun.1 hgrows.threadCount)
  have hnote : ∀ a ∈ s.note m op, a ∈ s.log ∨
      a = m.record op ∧ (s.pc op.performer).counted = true := by
    intro a ha
    unfold State.note at ha
    split at ha
    · rename_i hcounted
      exact (List.mem_cons.mp ha).symm.imp_right fun heq => ⟨heq, hcounted⟩
    · exact Or.inl ha
  have hknown : ∀ a ∈ s.log, a.thread ≤ s.memory.threadCount := fun a ha =>
    (h.attributed a ha).2
  have hfinished : s.deleted.length = s.count → ∀ a ∈ s.note m op, a ∈ s.log := by
    intro hall a ha
    refine (hnote a ha).resolve_right fun hnew => ?_
    have hpresent := (counted_present hnew.2).1
    rw [hplaced.absent hall] at hpresent
    cases hpresent
  exact {
    own := hown
    attributed := fun a ha => by
      rcases hnote a ha with ha | ⟨rfl, -⟩
      · exact hgrows.attributed (h.attributed a ha)
      · exact hthread
    made := fun a ha => by
      rcases hnote a ha with ha | ⟨rfl, hcounted⟩
      · exact h.made a ha
      · exact (counted_present hcounted).2
    counted := fun a ha hcounted => by
      rcases hnote a ha with ha | ⟨rfl, -⟩
      · exact hgrows.knows (hknown a ha) (h.counted a ha hcounted)
      · exact hown.knows_currAccess hthread.2 _
    carried := fun a ha hcommitted => by
      rcases hnote a ha with ha | ⟨rfl, hcounted⟩
      · exact Memory.perform_carries hleft hperform (h.carried a ha hcommitted)
      · exact absurd (hcounted.symm.trans hcommitted) (by decide)
    loaded := fun u i old hpc a ha hcommitted => by
      have hle := hplaced.le (u := u) (by rw [hpc]; exact Pc.noConfusion)
      rcases hnote a ha with ha | ⟨rfl, hcounted⟩
      · exact hgrows.knows hle (h.loaded u i old hpc a ha hcommitted)
      · exact absurd (hcounted.symm.trans hcommitted) (by decide)
    finishing := fun u i hpc a ha => by
      have hle := hplaced.le (u := u) (by rw [hpc]; exact Pc.noConfusion)
      rcases hnote a ha with ha | ⟨rfl, hcounted⟩
      · exact hgrows.knows hle (h.finishing u i hpc a ha)
      · by_cases hu : u = op.performer
        · rw [← hu, hpc] at hcounted
          cases hcounted
        · exact absurd hpc (hplaced.quiet hrun hu i).1
    finished := fun hall a ha => Memory.perform_carries hdone hperform
      (h.finished hall a (hfinished hall a ha))
    joined := fun hpc a ha => by
      have hle := hplaced.le (u := g.owner) (by rw [hpc]; exact Pc.noConfusion)
      exact hgrows.knows hle (h.joined hpc a (hfinished (hcounts.joined hpc) a ha)) }

/-- A turn of the owner. -/
theorem Ordered.turn (h : Ordered g s) (hplaced : Placed g s) (hcounts : Counts g s)
    (hroomy : s.memory.Roomy) (hrun : s.MayRun g.owner) (hturn : Turn g s pc m) :
    Ordered g { s.goto g.owner pc with memory := m } := by
  have hgrows : s.memory.Grows m := by
    cases hturn with
    | initLeft _ h | initDone _ h | store _ h | check _ h _ =>
        exact Memory.reply_grows hroomy h
    | _ => exact Memory.Grows.refl _
  -- Once there are bodies, the owner waits and checks.
  have hsame : (s.pc g.owner).started = true → m.atomics = s.memory.atomics := by
    intro hstarted
    cases hturn with
    | initLeft hpc _ | initDone hpc _ | store hpc _ =>
        rw [hpc] at hstarted
        cases hstarted
    | check _ hreply _ =>
        exact (Memory.load_spec (Memory.reply_ok hreply).2 (Or.inl rfl)).2.1
    | _ => rfl
  have hquiet := hplaced.goto_quiet hrun (owning_quiet hturn.owning)
  have hpcs : ∀ u i, (s.pc u).index = some i → (s.goto g.owner pc).pc u = s.pc u :=
    fun u i hindex => goto_pc_of_ne (index_ne_owner hplaced hindex)
  have hthread : ∀ a ∈ s.log, (s.goto g.owner pc).pc a.thread = s.pc a.thread :=
    fun a ha => (h.made a ha).elim fun i hindex => hpcs _ i hindex
  refine ordered_of_step h hgrows rfl (fun u i hindex => ?_) (fun a ha hcommitted => ?_)
    (fun u i old hpc => absurd hpc ((hquiet u i).2 old))
    (fun u i hpc => absurd hpc (hquiet u i).1) (fun hall a ha => ?_) fun hpc a ha => ?_
  · show ((s.goto g.owner pc).pc u).index = _ ∧ _
    rw [hpcs u i hindex]
    exact ⟨hindex, id⟩
  · have hstarted := (h.running hplaced ha).1
    refine (h.carried a ha ?_).congr (congrFun (hsame hstarted) _)
    exact (congrArg Pc.counted (hthread a ha)).symm.trans hcommitted
  · exact (h.finished hall a ha).congr
      (congrFun (hsame (h.running hplaced ha).1) _)
  · obtain rfl : pc = .joined := (goto_pc_self s g.owner pc).symm.trans hpc
    have hall := (hturn.words hcounts hplaced hrun).2.2.2.2 rfl
    cases hturn with
    | joinNothing _ hcount => exact absurd hcount (h.running hplaced ha).2
    | wait _ hafter => rcases hafter with hafter | ⟨hafter, -⟩ <;> cases hafter
    | check _ hreply _ =>
        obtain ⟨-, -, hlearns⟩ :=
          Memory.load_spec (Memory.reply_ok hreply).2 (Or.inl rfl)
        exact (hlearns a (h.attributed a ha) (h.finished hall a ha)).2 rfl

theorem Ordered.add (h : Ordered g s) (hplaced : Placed g s)
    (hpc : s.pc g.owner = .owns) : Ordered g { s with count := s.count + 1 } := by
  have hempty : ∀ a, a ∉ s.log := by
    intro a ha
    have hstarted := (h.running hplaced ha).1
    rw [hpc] at hstarted
    cases hstarted
  exact ordered_of_step h (Memory.Grows.refl _) rfl (fun _ _ hindex => ⟨hindex, id⟩)
    h.carried h.loaded h.finishing (fun _ a ha => absurd ha (hempty a)) h.joined

theorem Ordered.spawn {nodes : Nat} (h : Ordered g s) (hplaced : Placed g s)
    (hroomy : s.memory.Roomy) (hrun : s.MayRun g.owner)
    (hpc : s.pc g.owner = .spawning (nodes + 1))
    (hspawn : s.memory.perform (.spawn g.owner (s.memory.threadCount + 1)) = some m) :
    Ordered g { (s.goto g.owner (.spawning nodes)).goto (s.memory.threadCount + 1)
      (.body nodes) with memory := m } := by
  have hgrows := Memory.perform_grows hroomy hspawn
  have hle := hplaced.le (u := g.owner) (by rw [hpc]; exact Pc.noConfusion)
  have hpcs : ∀ u i, (s.pc u).index = some i →
      ((s.goto g.owner (.spawning nodes)).goto (s.memory.threadCount + 1)
        (.body nodes)).pc u = s.pc u := by
    intro u i hindex
    have hthread := hplaced.le (u := u) fun hout => by
      rw [hout] at hindex
      cases hindex
    rw [goto_pc_of_ne (Nat.ne_of_lt (Nat.lt_succ_of_le hthread)),
      goto_pc_of_ne (index_ne_owner hplaced hindex)]
  have hquiet := @Placed.spawn_quiet g s nodes (s.memory.threadCount + 1) hplaced hrun
  refine ordered_of_step h hgrows rfl (fun u i hindex => ?_) (fun a ha hcommitted => ?_)
    (fun u i old hu => absurd hu ((hquiet u i).2 old))
    (fun u i hu => absurd hu (hquiet u i).1) (fun hall a ha => ?_) fun hjoined => ?_
  · refine ⟨(congrArg Pc.index (hpcs u i hindex)).trans hindex, fun hcounted => ?_⟩
    exact (congrArg Pc.counted (hpcs u i hindex)).symm.trans hcounted
  · obtain ⟨i, hindex⟩ := h.made a ha
    refine Memory.perform_carries rfl hspawn (h.carried a ha ?_)
    exact (congrArg Pc.counted (hpcs _ i hindex)).symm.trans hcommitted
  · exact Memory.perform_carries rfl hspawn (h.finished hall a ha)
  · have howner : ((s.goto g.owner (.spawning nodes)).goto (s.memory.threadCount + 1)
        (.body nodes)).pc g.owner = .spawning nodes := by
      rw [goto_pc_of_ne (Nat.ne_of_lt (Nat.lt_succ_of_le hle)), goto_pc_self]
    exact Pc.noConfusion (howner.symm.trans hjoined)

/-- The thread of a body goes on for its node. -/
theorem goto_same {i : Nat} (hindex : (s.pc t).index = some i) (hnew : pc.index = some i)
    (hcounted : pc.counted = true → (s.pc t).counted = true) :
    ∀ u j, (s.pc u).index = some j → ((s.goto t pc).pc u).index = some j ∧
      (((s.goto t pc).pc u).counted = true → (s.pc u).counted = true) :=
  goto_cases (P := fun u pc => ∀ j, (s.pc u).index = some j → pc.index = some j ∧
    (pc.counted = true → (s.pc u).counted = true))
    (fun _ hj => ⟨hnew.trans (hindex.symm.trans hj), hcounted⟩)
    fun _ _ _ hj => ⟨hj, id⟩

/-- Who is not counted after the turn, was not before, unless it had the turn. -/
theorem goto_uncounted {u : ThreadId} (h : ((s.goto t pc).pc u).counted = false) :
    u = t ∨ (s.pc u).counted = false := by
  by_cases hut : u = t
  · exact Or.inl hut
  · rw [goto_pc_of_ne hut] at h
    exact Or.inr h

theorem Ordered.pass (h : Ordered g s) (hplaced : Placed g s)
    (hroomy : s.memory.Roomy) (hrun : s.MayRun t) (hpass : Pass g s t pc m) :
    Ordered g { s.goto t pc with memory := m } := by
  have hbefore : (s.pc t).counted = true ∧ pc.counted = true ∧
      ∃ i, (s.pc t).index = some i ∧ pc.index = some i := by
    cases hpass with
    | exit hpc | load hpc _ =>
        rw [hpc]
        exact ⟨rfl, rfl, _, rfl, rfl⟩
  obtain ⟨hcounted, hcounted', i, hindex, hindex'⟩ := hbefore
  have hatomics : m.atomics = s.memory.atomics := by
    cases hpass with
    | exit _ => rfl
    | load _ hreply => exact (Memory.load_spec (Memory.reply_ok hreply).2 (Or.inr rfl)).2.1
  have hgrows : s.memory.Grows m := by
    cases hpass with
    | exit _ => exact Memory.Grows.refl _
    | load _ hreply => exact Memory.reply_grows hroomy hreply
  have huncounted : ∀ u, ((s.goto t pc).pc u).counted = false →
      (s.pc u).counted = false := by
    intro u hu
    refine (goto_uncounted hu).resolve_left ?_
    rintro rfl
    rw [goto_pc_self, hcounted'] at hu
    cases hu
  have howner := (index_ne_owner hplaced hindex).symm
  refine ordered_of_step h hgrows rfl (goto_same hindex hindex' fun _ => hcounted)
    (fun a ha hcommitted => ?_) (fun u j old hpc a ha hcommitted => ?_)
    (fun u j hpc => ?_) (fun hall a ha => ?_) fun hpc a ha => ?_
  · exact (h.carried a ha (huncounted _ hcommitted)).congr (congrFun hatomics _)
  · obtain rfl : u = t := by
      by_contra hut
      exact (hplaced.quiet hrun hut j).2 old ((goto_pc_of_ne hut).symm.trans hpc)
    have hcarried := h.carried a ha (huncounted _ hcommitted)
    cases hpass with
    | exit _ => cases (goto_pc_self s u _).symm.trans hpc
    | load _ hreply =>
        obtain ⟨-, -, hlearns⟩ :=
          Memory.load_spec (Memory.reply_ok hreply).2 (Or.inr rfl)
        exact (hlearns a (h.attributed a ha) hcarried).2 rfl
  · refine absurd hpc (goto_cases (P := fun _ pc => pc ≠ .finishing j) ?_
      (fun u hu => (hplaced.quiet hrun hu j).1) u)
    rintro rfl
    cases hcounted'
  · exact (h.finished hall a ha).congr (congrFun hatomics _)
  · have hjoined := (goto_pc_of_ne howner).symm.trans hpc
    exact hgrows.knows (hplaced.le (by rw [hjoined]; exact Pc.noConfusion))
      (h.joined hjoined a ha)

/-- Once a body has subtracted itself, `left_` carries what it did. -/
theorem Commits.carries {i old : Nat} {a : OldAccess} (hcommit : Commits g s t i old m)
    (h : Ordered g s) (hroomy : s.memory.Roomy) (ha : a ∈ s.log)
    (hwho : a.thread = t ∨ (s.pc a.thread).counted = false) :
    m.Carries g.left.loc a := by
  obtain ⟨hpc, value, hreply⟩ := hcommit
  obtain ⟨hthread, hcall⟩ := Memory.reply_ok hreply
  obtain ⟨-, -, hkeeps, hreleases⟩ := Memory.commit_spec hcall rfl
  rcases hwho with hwho | hwho
  · have hknows := h.counted a ha (by rw [hwho, hpc]; rfl)
    rw [hwho] at hknows
    exact hreleases (hroomy.hasRoom (Memory.hasThread_iff.mp hthread).2) rfl a
      (h.attributed a ha) hknows
  · exact hkeeps a (h.carried a ha hwho)

/-- While the last body leaves, all the others have left. -/
theorem Placed.others_absent {i : Nat} (h : Placed g s) (ht : s.memory.hasThread t = true)
    (hindex : (s.pc t).index = some i) (hpresent : (s.pc t).present = true)
    (hlast : s.deleted.length + 1 = s.count) {u : ThreadId} (hu : u ≠ t) :
    (s.pc u).present = false := by
  have hall : (s.leave t i).deleted.length = (s.leave t i).count := by
    show (s.deleted ++ [i]).length = s.count
    rw [List.length_append, List.length_singleton]
    exact hlast
  have habsent := (h.leave ht hindex hpresent).absent hall u
  have hsame : (s.goto t (.exited i)).pc u = s.pc u := goto_pc_of_ne hu
  exact (congrArg Pc.present hsame).symm.trans habsent

theorem Ordered.commitLast {i : Nat} (h : Ordered g s) (hplaced : Placed g s)
    (hcounts : Counts g s) (hroomy : s.memory.Roomy) (hrun : s.MayRun t)
    (hcommit : Commits g s t i 1 m) :
    Ordered g { s.goto t (.finishing i) with memory := m } := by
  obtain ⟨hindex, hpresent, -⟩ := hcommit.spec
  have hcarries := fun a ha => @Commits.carries _ _ _ _ _ _ a hcommit h hroomy ha
  obtain ⟨hpc, value, hreply⟩ := hcommit
  have hgrows := Memory.reply_grows hroomy hreply
  have hle := (Memory.hasThread_iff.mp hrun.1).2
  obtain ⟨hone, hlt, -⟩ := hcounts.loaded_eq hplaced hrun hpc
  have hlast : s.deleted.length + 1 = s.count := by omega
  refine ordered_of_step h hgrows rfl (goto_same hindex rfl Bool.noConfusion)
    (fun a ha hcommitted => hcarries a ha (goto_uncounted hcommitted))
    (fun u j old hu => ?_) (fun u j hu a ha => ?_)
    (fun hall => absurd hall (Nat.ne_of_lt hlt)) fun hjoined a ha => ?_
  · exact absurd hu (goto_cases (P := fun _ pc => pc ≠ .subCommitting j old)
      Pc.noConfusion (fun u hu => (hplaced.quiet hrun hu j).2 old) u)
  · obtain rfl : u = t := by
      by_contra hut
      exact (hplaced.quiet hrun hut j).1 ((goto_pc_of_ne hut).symm.trans hu)
    refine hgrows.knows hle ?_
    by_cases hself : a.thread = u
    · have hknows := h.counted a ha (by rw [hself, hpc]; rfl)
      rwa [hself] at hknows
    · have habsent := hplaced.others_absent hrun.1 hindex hpresent hlast hself
      refine h.loaded u i 1 hpc a ha (Bool.eq_false_of_not_eq_true fun hcounted => ?_)
      rw [(counted_present hcounted).1] at habsent
      cases habsent
  · have hsame := (goto_pc_of_ne (index_ne_owner hplaced hindex).symm).symm.trans hjoined
    have hall := hcounts.joined hsame
    exact absurd hall (Nat.ne_of_lt hlt)

theorem Ordered.commit {i old : Nat} (h : Ordered g s) (hplaced : Placed g s)
    (hcounts : Counts g s) (hroomy : s.memory.Roomy) (hrun : s.MayRun t)
    (hold : old ≠ 1) (hcommit : Commits g s t i old m) :
    Ordered g (State.leave { s with memory := m } t i) := by
  obtain ⟨hindex, hpresent, -⟩ := hcommit.spec
  have hcarries := fun a ha => @Commits.carries _ _ _ _ _ _ a hcommit h hroomy ha
  obtain ⟨hpc, value, hreply⟩ := hcommit
  have hgrows := Memory.reply_grows hroomy hreply
  obtain ⟨heq, hlt, -⟩ := hcounts.loaded_eq hplaced hrun hpc
  have hquiet := @Placed.goto_quiet _ _ _ (.exited i) hplaced hrun
    fun _ => ⟨Pc.noConfusion, fun _ => Pc.noConfusion⟩
  refine ordered_of_step h hgrows rfl (goto_same hindex rfl Bool.noConfusion)
    (fun a ha hcommitted => hcarries a ha (goto_uncounted hcommitted))
    (fun u j old hu => absurd hu ((hquiet u j).2 old))
    (fun u j hu => absurd hu (hquiet u j).1) (fun hall => ?_) fun hjoined => ?_
  · replace hall : (s.deleted ++ [i]).length = s.count := hall
    rw [List.length_append, List.length_singleton] at hall
    omega
  · have hsame := (goto_pc_of_ne (s := s) (index_ne_owner hplaced hindex).symm).symm.trans
      hjoined
    exact absurd (hcounts.joined hsame) (Nat.ne_of_lt hlt)

/-- The last store carries what was done by all the bodies. -/
theorem Departs.ordered {i : Nat} (h : Departs g s s' t i) (ho : Ordered g s)
    (hplaced : Placed g s) (hcounts : Counts g s) (hrun : s.MayRun t)
    (hgrows : s.memory.Grows s'.memory)
    (hleft : s'.memory.atomics g.left.loc = s.memory.atomics g.left.loc)
    (hdone : ∀ a ∈ s.log, s'.memory.Carries g.done.loc a) : Ordered g s' := by
  have hindex : (s.pc t).index = some i := by rw [h.finishing]; rfl
  obtain ⟨hlast, -⟩ := hcounts.finishing t i h.finishing
  refine ordered_of_step ho hgrows h.log (fun u j hj => ?_) (fun a ha _ => ?_)
    (fun u j old hu => absurd hu ((h.quiet hplaced hrun u j).2 old))
    (fun u j hu => absurd hu (h.quiet hplaced hrun u j).1) (fun _ => hdone)
    fun hjoined => ?_
  · by_cases hut : u = t
    · rw [hut, h.self]
      exact ⟨hindex.symm.trans (hut ▸ hj), Bool.noConfusion⟩
    · rcases h.others u hut with hsame | ⟨howner, -⟩
      · rw [hsame]
        exact ⟨hj, id⟩
      · exact absurd howner (index_ne_owner hplaced hj)
  · refine (ho.carried a ha ?_).congr hleft
    by_cases hself : a.thread = t
    · rw [hself, h.finishing]
      rfl
    · have habsent := hplaced.others_absent hrun.1 hindex (by rw [h.finishing]; rfl) hlast
        hself
      refine Bool.eq_false_of_not_eq_true fun hcounted => ?_
      rw [(counted_present hcounted).1] at habsent
      cases habsent
  · rcases h.others g.owner (index_ne_owner hplaced hindex).symm with hsame | ⟨-, hchecking⟩
    · have := hcounts.joined (hsame.symm.trans hjoined)
      omega
    · cases hchecking.symm.trans hjoined

/-- Every step keeps the order, as long as no clock overflows. -/
theorem Ordered.step (h : Ordered g s) (hplaced : Placed g s) (hcounts : Counts g s)
    (hroomy : s.memory.Roomy) (hstep : Step g s s') : Ordered g s' := by
  cases hstep with
  | user hrun _ hleft hdone hperform =>
      exact h.user hplaced hcounts hroomy hrun hleft hdone hperform
  | add hpc => exact h.add hplaced hpc
  | turn hrun hturn => exact h.turn hplaced hcounts hroomy hrun hturn
  | spawn hrun hpc hspawn => exact h.spawn hplaced hroomy hrun hpc hspawn
  | pass hrun hpass => exact h.pass hplaced hroomy hrun hpass
  | commitLast hrun hcommit => exact h.commitLast hplaced hcounts hroomy hrun hcommit
  | commit hrun hold hcommit => exact h.commit hplaced hcounts hroomy hrun hold hcommit
  | @finish t i m hrun hfinish hquiet =>
      obtain ⟨hpc, value, hreply⟩ := hfinish
      obtain ⟨-, hothers, hcarries⟩ := Memory.store_spec (Memory.reply_ok hreply).2 rfl
      exact (departs hpc m).ordered h hplaced hcounts hrun
        (Memory.reply_grows hroomy hreply) (hothers _ g.apart) fun a ha =>
          hcarries (hroomy.hasRoom (Memory.hasThread_iff.mp hrun.1).2) rfl a
            (h.attributed a ha) (h.finishing t i hpc a ha)
  | @finishWakes t i m m' hrun hfinish hparked hwake =>
      obtain ⟨hpc, value, hreply⟩ := hfinish
      obtain ⟨-, hothers, hcarries⟩ := Memory.store_spec (Memory.reply_ok hreply).2 rfl
      have hne := index_ne_owner hplaced (t := t) (by rw [hpc]; rfl)
      have hwaiter := hplaced.fresh g.owner (by rw [hparked]; exact Pc.noConfusion)
      have hroom := Memory.wakeRoom_of_write hroomy (Or.inl rfl) hreply hwaiter hne.symm
      have hsame : m'.atomics g.left.loc = m.atomics g.left.loc :=
        Memory.exec_atomics rfl (Memory.perform_ok hwake)
      refine (departs_wakes hpc m').ordered h hplaced hcounts hrun
        ((Memory.reply_grows hroomy hreply).trans (Memory.perform_wake_grows hroom hwake))
        (hsame.trans (hothers _ g.apart)) fun a ha => ?_
      exact Memory.perform_carries rfl hwake
        (hcarries (hroomy.hasRoom (Memory.hasThread_iff.mp hrun.1).2) rfl a
          (h.attributed a ha) (h.finishing t i hpc a ha))

end Order

/-! ### What the group promises -/

namespace State

variable (g : Group)

/-- When `Join` has returned, every node has been given to exactly one thread, this
thread has left the group, and the node has been deleted, once. -/
def JoinsAll (s : State) : Prop :=
  s.pc g.owner = .joined → s.deleted.Nodup ∧ (∀ i, i ∈ s.deleted ↔ i < s.count) ∧
    ∀ i < s.count, ∃ u, s.pc u = .exited i ∧ ∀ w, (s.pc w).index = some i → w = u

/-- No two threads have one node, and no node is deleted twice. -/
def SpawnsOnce (s : State) : Prop :=
  (∀ u w i, (s.pc u).index = some i → (s.pc w).index = some i → u = w) ∧
    (∀ u i, (s.pc u).index = some i → i < s.count) ∧ s.deleted.Nodup

/-- Whatever happens next, nothing is read or written that is not there. -/
def Sound (s : State) : Prop :=
  ∀ e s', s.next g e = some s' → ∀ o ∈ s.touched e, s.Alive g o

/-- A parked owner waits for a body. -/
def Awaited (s : State) : Prop :=
  s.pc g.owner = .parked → ∃ u, (s.pc u).present = true

/-- When `Join` has returned, the owner comes after all that the bodies did. -/
def InOrder (s : State) : Prop :=
  s.pc g.owner = .joined → ∀ a ∈ s.log, s.memory.happensBefore a g.owner = true

end State

theorem absent_exited {pc : Pc} {i : Nat} (hindex : pc.index = some i)
    (habsent : pc.present = false) : pc = .exited i := by
  cases pc with
  | exited j => rw [Option.some.inj hindex]
  | body _ | subLoading _ | subCommitting _ _ | finishing _ => cases habsent
  | _ => cases hindex

theorem Counts.joinsAll (h : Counts g s) (hplaced : Placed g s) : s.JoinsAll g := by
  intro hjoined
  have habsent := hplaced.absent (h.joined hjoined)
  have hnodes : ∀ i < s.count, ∃ u, (s.pc u).index = some i := fun i hi =>
    (hplaced.nodes i).mpr ⟨by rw [State.unspawned, hjoined]; exact Nat.zero_le i, hi⟩
  refine ⟨hplaced.nodup, fun i => (hplaced.deleted i).trans ⟨?_, fun hi => ?_⟩,
    fun i hi => ?_⟩
  · rintro ⟨u, hu, -⟩
    exact ((hplaced.nodes i).mp ⟨u, hu⟩).2
  · obtain ⟨u, hu⟩ := hnodes i hi
    exact ⟨u, hu, habsent u⟩
  · obtain ⟨u, hu⟩ := hnodes i hi
    exact ⟨u, absent_exited hu (habsent u), fun w hw => hplaced.index w u i hw hu⟩

/-- A body that is there keeps the group and its node. -/
theorem Counts.alive_of_present {i : Nat} (h : Counts g s) (hplaced : Placed g s)
    (hindex : (s.pc t).index = some i) (hpresent : (s.pc t).present = true) :
    s.Alive g .group ∧ s.Alive g (.node i) := by
  have hstarted := (hplaced.running hindex).1
  have hlt := hplaced.lt_of_present hpresent
  refine ⟨⟨?_, fun hjoined => ?_⟩, ((hplaced.nodes i).mp ⟨t, hindex⟩).2, fun hdeleted => ?_⟩
  · cases hpc : s.pc g.owner with
    | spawning _ | parked | checking | joined => rfl
    | _ =>
        rw [hpc] at hstarted
        cases hstarted
  · exact absurd (h.joined hjoined) (Nat.ne_of_lt hlt)
  · obtain ⟨u, hu, habsent⟩ := (hplaced.deleted i).mp hdeleted
    rw [hplaced.index u t i hu hindex, hpresent] at habsent
    cases habsent

theorem Placed.node_alive {nodes : Nat} (h : Placed g s)
    (hpc : s.pc g.owner = .spawning (nodes + 1)) : s.Alive g (.node nodes) := by
  have hunspawned : s.unspawned g = nodes + 1 := by rw [State.unspawned, hpc]; rfl
  have hbalance := h.balance
  rw [hunspawned] at hbalance
  refine ⟨by omega, fun hdeleted => ?_⟩
  obtain ⟨u, hu, -⟩ := (h.deleted nodes).mp hdeleted
  have hle := ((h.nodes nodes).mp ⟨u, hu⟩).1
  rw [hunspawned] at hle
  exact absurd hle (Nat.not_succ_le_self nodes)

/-- A thread that exits or goes on finds everything in place. -/
theorem Counts.alive_of_turn (h : Counts g s) (hplaced : Placed g s)
    (hturn : (s.pc t).present = true ∨
      (s.pc t).owning = true ∧ s.pc t ≠ .joined) :
    ∀ o ∈ (s.pc t).reads, s.Alive g o := by
  rcases hturn with hpresent | ⟨howning, hjoined⟩
  · have hpair : ∀ i, (s.pc t).index = some i →
        ∀ o ∈ [Object.group, .node i], s.Alive g o := by
      intro i hindex
      simpa using h.alive_of_present hplaced hindex hpresent
    cases hpc : s.pc t with
    | body i | subLoading i | subCommitting i _ | finishing i =>
        exact hpair i (by rw [hpc]; rfl)
    | _ =>
        rw [hpc] at hpresent
        cases hpresent
  · have hself := hplaced.owner t howning
    have hgroup : s.Alive g .group := ⟨hself ▸ howning, hself ▸ hjoined⟩
    cases hpc : s.pc t with
    | spawning nodes =>
        cases nodes with
        | zero => simpa [Pc.reads] using hgroup
        | succ nodes =>
            have hnode := hplaced.node_alive (hself ▸ hpc)
            simpa [Pc.reads] using ⟨hgroup, hnode⟩
    | initLeft | initDone | owns | storing | parked | checking | joined =>
        simpa [Pc.reads] using hgroup
    | _ =>
        rw [hpc] at howning
        cases howning

theorem Counts.sound (h : Counts g s) (hplaced : Placed g s) : s.Sound g := by
  intro e s' hnext
  unfold State.next at hnext
  cases e with
  | user _ | construct => exact fun o ho => absurd ho List.not_mem_nil
  | add =>
      dsimp only at hnext
      split at hnext
      · rename_i hcond
        simp only [State.touched, List.mem_singleton, forall_eq, State.Alive, hcond.2]
        exact ⟨rfl, Pc.noConfusion⟩
      · cases hnext
  | join =>
      dsimp only at hnext
      split at hnext
      · rename_i hcond
        simp only [State.touched, List.mem_singleton, forall_eq, State.Alive, hcond.2]
        exact ⟨rfl, Pc.noConfusion⟩
      · cases hnext
  | exit t =>
      dsimp only at hnext
      split at hnext
      · rename_i i hpc
        exact h.alive_of_turn hplaced (Or.inl (by rw [hpc]; rfl))
      · cases hnext
  | resume t spurious =>
      dsimp only at hnext
      split at hnext
      · refine h.alive_of_turn hplaced ?_
        unfold State.resume at hnext
        cases hpc : s.pc t with
        | outside | owns | parked | joined | body _ | exited _ =>
            rw [hpc] at hnext
            cases hnext
        | subLoading _ | subCommitting _ _ | finishing _ => exact Or.inl rfl
        | _ => exact Or.inr ⟨rfl, Pc.noConfusion⟩
      · cases hnext

theorem Counts.awaited (h : Counts g s) (hplaced : Placed g s) : s.Awaited g := by
  intro hparked
  by_contra hnone
  have hzero : tally (fun u => (s.pc u).present) s.memory.threadCount = 0 :=
    tally_eq_zero fun u => Bool.eq_false_of_not_eq_true fun hu => hnone ⟨u, hu⟩
  have hbalance := hplaced.balance
  have hunspawned : s.unspawned g = 0 := by rw [State.unspawned, hparked]; rfl
  rw [hzero, hunspawned] at hbalance
  exact h.parked hparked (by omega)

theorem reach_counts {C : State → Event → Prop}
    (h : Reach (State.next g) C State.start s) : Placed g s ∧ Counts g s :=
  h.invariant (I := fun s => Placed g s ∧ Counts g s) ⟨Placed.start, Counts.start⟩
    fun _ _ _ hs _ hnext =>
      have hstep := step_of_next hs.1.owner hnext
      ⟨hs.1.step hstep, hs.2.step hs.1 hstep⟩

theorem reach_ordered
    (h : Reach (State.next g) (fun s _ => s.memory.Roomy) State.start s) : Ordered g s := by
  refine (h.invariant (I := fun s => (Placed g s ∧ Counts g s) ∧ Ordered g s)
    ⟨⟨Placed.start, Counts.start⟩, Ordered.start⟩ fun _ _ _ hs hroomy hnext => ?_).2
  have hstep := step_of_next hs.1.1.owner hnext
  exact ⟨⟨hs.1.1.step hstep, hs.1.2.step hs.1.1 hstep⟩,
    hs.2.step hs.1.1 hs.1.2 hroomy hstep⟩

/-- `Join` spawns every body once and returns when all have left; nobody touches what
is gone, and the owner is not forgotten; as long as no clock overflows, `Join` comes
after all that the bodies did. -/
theorem waitGroup_correct
    (h : Reach (State.next g) (fun _ _ => True) State.start s) :
    s.JoinsAll g ∧ s.SpawnsOnce ∧ s.Sound g ∧ s.Awaited g ∧
      (Reach (State.next g) (fun s _ => s.memory.Roomy) State.start s →
        s.InOrder g) := by
  obtain ⟨hplaced, hcounts⟩ := reach_counts h
  refine ⟨hcounts.joinsAll hplaced, ⟨hplaced.index, fun u i hu => ?_, hplaced.nodup⟩,
    hcounts.sound hplaced, hcounts.awaited hplaced, fun hroomy hjoined a ha => ?_⟩
  · exact ((hplaced.nodes i).mp ⟨u, hu⟩).2
  · exact Memory.happensBefore_iff.mpr ((reach_ordered hroomy).joined hjoined a ha)

/-! ### Runs -/

/-- A group of the main thread, and a variable of the user. -/
def exampleGroup : Group where
  owner := 1
  left := ⟨16, ⟨"main.cpp", "main", 1⟩⟩
  done := ⟨24, ⟨"main.cpp", "main", 1⟩⟩
  apart := by decide

def counter : SyncVar := ⟨48, ⟨"main.cpp", "main", 2⟩⟩

/-- The owner adds a body, spawns it, and waits; the body makes an access. -/
def oneBody : List Event :=
  [.user (.sync 1 (counter.init 0)), .construct, .resume 1 false, .resume 1 false, .add,
   .join, .resume 1 false, .resume 1 false, .resume 1 false,
   .user (.access 2 ⟨64, .init, counter.site⟩)]

/-- The body leaves the group, and `Join` returns. -/
def leaving : List Event :=
  [.exit 2, .resume 2 false, .resume 2 false, .resume 2 false, .resume 1 false]

theorem waitGroup_correct_oneBody :
    ∃ s, Reach (State.next exampleGroup) (fun s _ => s.memory.Roomy) State.start s ∧
      s.pc 1 = .joined ∧ s.log.length = 1 ∧ s.JoinsAll exampleGroup ∧
      s.InOrder exampleGroup := by
  obtain ⟨s, hreach, hpc, hlog⟩ := @exists_reach _ _ (State.next exampleGroup)
    (fun s _ => s.memory.Roomy) State.start _ (oneBody ++ leaving)
    (fun s => s.pc 1 = .joined ∧ s.log.length = 1) _ (by decide)
  have hcorrect := waitGroup_correct (hreach.mono fun _ _ _ => trivial)
  exact ⟨s, hreach, hpc, hlog, hcorrect.1, hcorrect.2.2.2.2 hreach⟩

/-- The body keeps loading its counter. -/
def State.loadingLog (s : State) : Nat → List OldAccess
  | 0 => s.log
  | k + 1 => (s.memory.advanced 2 (k + 1)).record (.sync 2 counter.debugLoad) ::
      s.loadingLog k

def State.loading (s : State) (k : Nat) : State :=
  { s with memory := s.memory.advanced 2 k, log := s.loadingLog k }

theorem mem_note {op : Op} {m : Memory} {a : OldAccess} (ha : a ∈ s.log) :
    a ∈ s.note m op := by
  unfold State.note
  split
  · exact List.mem_cons_of_mem _ ha
  · exact ha

/-- Nothing is forgotten. -/
theorem Step.log {a : OldAccess} (h : Step g s s') (ha : a ∈ s.log) : a ∈ s'.log := by
  cases h with
  | user _ _ _ _ _ => exact mem_note ha
  | _ => exact ha

theorem reach_loading
    (h : Reach (State.next exampleGroup) (fun _ _ => True) State.start s)
    (hrun : s.MayRun 2) (hpc : (s.pc 2).idle = true ∧ (s.pc 2).counted = true)
    {value : Nat} (hword : s.memory.Word counter.loc value) (k : Nat) :
    Reach (State.next exampleGroup) (fun _ _ => True) State.start (s.loading (k + 1)) := by
  have hstep : ∀ (m : Memory) (log : List OldAccess), m.Word counter.loc value →
      m.threadCount = s.memory.threadCount →
      State.next exampleGroup { s with memory := m, log := log }
          (.user (.sync 2 counter.debugLoad)) =
        some { s with
          memory := m.ticked 2
          log := (m.ticked 2).record (.sync 2 counter.debugLoad) :: log } := by
    intro m log hword hcount
    have hthread := Memory.hasThread.mono hrun.1 (Nat.le_of_eq hcount.symm)
    have hmay : State.MayRun { s with memory := m, log := log } 2 :=
      ⟨hthread, hcount ▸ hrun.2⟩
    unfold State.next
    dsimp only
    rw [if_pos ⟨hmay, hpc.1, rfl, rfl⟩, Memory.perform_debugLoad hthread hword]
    simp only [Option.map_some, State.note, Op.performer, Op.thread, hpc.2, if_true]
  induction k with
  | zero => exact h.step (e := .user (.sync 2 counter.debugLoad)) trivial (hstep _ _ hword rfl)
  | succ k ih =>
      refine ih.step (e := .user (.sync 2 counter.debugLoad)) trivial ?_
      have hnext := hstep (s.memory.advanced 2 (k + 1)) (s.loadingLog (k + 1)) hword rfl
      rw [Memory.advanced_ticked] at hnext
      exact hnext

def afterBody : State :=
  (runEvents (State.next exampleGroup) (fun _ _ => True) oneBody State.start).getD
    State.start

theorem reach_afterBody :
    Reach (State.next exampleGroup) (fun _ _ => True) State.start afterBody := by
  refine @reach_of_run _ _ _ _ _ _ oneBody _ _ Reach.start ?_
  obtain ⟨s, hrun⟩ := Option.isSome_iff_exists.mp
    (show (runEvents (State.next exampleGroup) (fun _ _ => True) oneBody
      State.start).isSome = true by decide)
  rw [afterBody, hrun]
  rfl

theorem mem_loadingLog {a : OldAccess} (ha : a ∈ s.log) (k : Nat) :
    a ∈ s.loadingLog k := by
  induction k with
  | zero => exact ha
  | succ k ih => exact List.mem_cons_of_mem _ ih

/-- With 2^32 ticks a body comes to an epoch before its access: the owner joins it
and does not come after the access. -/
theorem joined_before_access :
    ¬ ∀ s, Reach (State.next exampleGroup) (fun _ _ => True) State.start s →
      s.InOrder exampleGroup := by
  intro hclaim
  have hword : afterBody.memory.Word counter.loc 0 := Memory.word_iff.mp (by decide)
  have hloads := reach_loading reach_afterBody (by decide) (by decide) hword (2 ^ 32 - 6)
  obtain ⟨s, hreach, hjoined, hbefore⟩ :=
    @exists_reach _ _ (State.next exampleGroup) (fun _ _ => True)
      (afterBody.loading (2 ^ 32 - 5)) _ leaving
      (fun s => s.pc 1 = .joined ∧
        s.memory.happensBefore ⟨64, .init, 2, 2, counter.site⟩ 1 = false) _
      (by decide +kernel)
  obtain ⟨hall, hlog⟩ := hreach.invariant
    (I := fun s => Reach (State.next exampleGroup) (fun _ _ => True) State.start s ∧
      (⟨64, .init, 2, 2, counter.site⟩ : OldAccess) ∈ s.log)
    ⟨hloads, mem_loadingLog (by decide) _⟩ fun s e s' hs _ hnext =>
      ⟨hs.1.step trivial hnext,
        (step_of_next (reach_counts hs.1).1.owner hnext).log hs.2⟩
  cases hbefore.symm.trans (hclaim s hall hjoined _ hlog)

end WaitGroup

end TwistSim

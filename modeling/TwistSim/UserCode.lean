/-
User code between two machines of a run.  A routine of the library is a tree of system
calls; a thread runs through it while the others go on in between.
-/
import TwistSim.Exclusion

namespace TwistSim

open Effect

/-- User code: it makes a system call and goes on with the answer. -/
abbrev UserM (α : Type) : Type := Interaction SysCall (fun _ => Answer) α

instance : Monad UserM where
  pure := .ret
  bind := .bind

namespace Answer

def load : Answer → Nat
  | .resumed _ load => load
  | .value _ => 0

def result : Answer → Int
  | .resumed _ _ => 0
  | .value v => v

end Answer

namespace UserM

variable {α β : Type}

/-- `syscall::Sync` -/
def sync (action : Action) : UserM Nat := .ask (.sync action) fun answer => .ret answer.load

def setThreadAttrPreemptive (targetStatus : Bool) : UserM Bool :=
  .ask (.setThreadAttrPreemptive targetStatus) fun answer => .ret (answer.result != 0)

def spuriousTryFailure : UserM Bool :=
  .ask .spuriousTryFailure fun answer => .ret (answer.result != 0)

/-- The scope of a `PreemptionGuard`. -/
def preemptionGuard (body : UserM α) : UserM α := do
  let status ← setThreadAttrPreemptive false
  let x ← body
  let _ ← setThreadAttrPreemptive status
  pure x

end UserM

namespace Machine

open Kernel (Heads Serves)

variable {U σ α β : Type} {S : IScheduler σ} {program : Program U} {t : ThreadId}
  {m m' m₀ m₁ m₂ : Machine U σ} {labels labels' : List SyncLabel}

/-- A run in which thread `t` does not run, but may be resumed at its end. -/
inductive Waits (S : IScheduler σ) (program : Program U) (t : ThreadId) (m : Machine U σ) :
    List SyncLabel → Machine U σ → Prop where
  | start : Waits S program t m [] m
  | step {labels : List SyncLabel} {m₁ m₂ : Machine U σ} {e : LoopEvent}
      (h : Waits S program t m labels m₁) (hwaits : ∀ r budget, m₁.control ≠ .run t r budget)
      (hnext : m₁.next S program e = some m₂) :
      Waits S program t m (labels ++ (label program m₁ m₂).toList) m₂

/-- A call of thread `t`, up to the moment when it runs again. -/
inductive Served (S : IScheduler σ) (program : Program U) (t : ThreadId) (m : Machine U σ)
    (call : SysCall) : List SyncLabel → Answer → Machine U σ → Prop where
  | intro {labels : List SyncLabel} {m₁ m' : Machine U σ} {e : LoopEvent} {r : Resumption}
      {budget budget' : Nat} {user : U} {answer : Answer}
      (hcontrol : m.control = .run t r budget)
      (hrequest : program.resume t r m.space.user = (.sys call, user))
      (hnext : m.next S program e = some m₁) (hwaits : Waits S program t m₁ labels m')
      (hanswer : m'.control = .run t (.answer answer) budget') :
      Served S program t m call ((label program m m₁).toList ++ labels) answer m'

/-- Thread `t` runs through a routine: its requests are those of the routine, one after the
other, each made with the answer to the one before. -/
inductive Does (S : IScheduler σ) (program : Program U) (t : ThreadId) {α : Type} :
    UserM α → Machine U σ → List SyncLabel → α → Machine U σ → Prop where
  | returns {x : α} {m : Machine U σ} : Does S program t (.ret x) m [] x m
  | calls {call : SysCall} {next : Answer → UserM α} {m m₁ m' : Machine U σ}
      {labels labels' : List SyncLabel} {answer : Answer} {x : α}
      (hserved : Served S program t m call labels answer m₁)
      (hrest : Does S program t (next answer) m₁ labels' x m') :
      Does S program t (.ask call next) m (labels ++ labels') x m'

theorem Waits.history (h : Waits S program t m labels m') : History S program m labels m' := by
  induction h with
  | start => exact History.start
  | step _ _ hnext ih => exact ih.step hnext

theorem Served.history {call : SysCall} {answer : Answer}
    (h : Served S program t m call labels answer m') : History S program m labels m' := by
  obtain ⟨_, _, hnext, hwaits, _⟩ := h
  exact (History.start.step hnext).trans hwaits.history

theorem Does.history {code : UserM α} {x : α} (h : Does S program t code m labels x m') :
    History S program m labels m' := by
  induction h with
  | returns => exact History.start
  | calls hserved _ ih => exact hserved.history.trans ih

/-- A routine in two parts. -/
theorem does_bind {code : UserM α} {f : α → UserM β} {y : β}
    (h : Does S program t (code >>= f) m labels y m') :
    ∃ labels₁ labels₂ x m₁, labels = labels₁ ++ labels₂ ∧
      Does S program t code m labels₁ x m₁ ∧ Does S program t (f x) m₁ labels₂ y m' := by
  induction code generalizing m labels with
  | ret x => exact ⟨[], labels, x, m, rfl, Does.returns, h⟩
  | ask call next ih =>
      have hask : Does S program t (.ask call fun answer => next answer >>= f) m labels y m' := h
      cases hask with
      | calls hserved hrest =>
          obtain ⟨labels₁, labels₂, x, m₁, rfl, hfirst, hsecond⟩ := ih _ hrest
          exact ⟨_, labels₂, x, m₁, (List.append_assoc _ _ _).symm, Does.calls hserved hfirst,
            hsecond⟩

theorem does_ret {x y : α} (h : Does S program t (.ret x) m labels y m') :
    labels = [] ∧ y = x ∧ m' = m := by
  cases h
  exact ⟨rfl, rfl, rfl⟩

theorem does_call {call : SysCall} {f : Answer → α} {x : α}
    (h : Does S program t (.ask call fun answer => .ret (f answer)) m labels x m') :
    ∃ answer, x = f answer ∧ Served S program t m call labels answer m' := by
  cases h with
  | @calls _ _ _ m₁ _ labels₁ labels₂ answer _ hserved hrest =>
      obtain ⟨rfl, rfl, rfl⟩ := does_ret hrest
      rw [List.append_nil]
      exact ⟨answer, rfl, hserved⟩

/-- Nobody runs any more. -/
theorem Waits.over (hover : m.Over) (h : Waits S program t m labels m') : m'.Over := by
  induction h with
  | start => exact hover
  | step _ _ hnext ih => exact over_next ih hnext ▸ ih

/-- Who runs does not wait. -/
theorem Waits.running {r : Resumption} {budget : Nat} (hrun : m.control = .run t r budget)
    (h : Waits S program t m labels m') : labels = [] ∧ m' = m := by
  induction h with
  | start => exact ⟨rfl, rfl⟩
  | step _ hwaits _ ih => exact absurd hrun (ih.2 ▸ hwaits r budget)

/-- Who makes the call. -/
theorem Served.request {call : SysCall} {answer : Answer}
    (h : Served S program t m call labels answer m') :
    ∃ r budget user, m.control = .run t r budget ∧
      program.resume t r m.space.user = (.sys call, user) := by
  obtain ⟨hcontrol, hrequest, _, _, _⟩ := h
  exact ⟨_, _, _, hcontrol, hrequest⟩

/-- Who gets the answer. -/
theorem Served.resumed {call : SysCall} {answer : Answer}
    (h : Served S program t m call labels answer m') :
    ∃ budget, m'.control = .run t (.answer answer) budget := by
  obtain ⟨_, _, _, _, hanswer⟩ := h
  exact ⟨_, hanswer⟩

/-- A call is answered at once, or its caller waits. -/
theorem Served.cases {call : SysCall} {answer : Answer}
    (h : Served S program t m call labels answer m') :
    (∃ stat sim₁, (Kernel.handleSystemCall t stat call m.sim).interp S.answer m.scheduler =
        .ok ((.ok (some answer), sim₁), m'.scheduler) ∧
        m'.sim = sim₁.setThread t
          { sim₁.threads t with state := .running, runs := (sim₁.threads t).runs + 1 } ∧
        labels = (call.syncAction.map (SyncLabel.calls t)).toList) ∨
      ∃ stat m₁ e labels₁ budget, m.next S program e = some m₁ ∧
        (Kernel.handleSystemCall t stat call m.sim).interp S.answer m.scheduler =
          .ok ((.ok none, m₁.sim), m₁.scheduler) ∧ m₁.control = .head budget ∧
        labels = (call.syncAction.map (SyncLabel.calls t)).toList ++ labels₁ ∧
        Waits S program t m₁ labels₁ m' := by
  obtain @⟨labels₁, m₁, _, e, r, budget, budget', user, _, hcontrol, hrequest, hnext, hwaits,
    hanswer⟩ := h
  rw [label_serves hcontrol hrequest]
  cases goes_of_next hnext with
  | aborts _ hfinished hdone =>
      have hover := hwaits.over ⟨hfinished, hdone⟩
      rw [hover.1] at hanswer
      cases hanswer
  | rests hfinished _ =>
      rw [hcontrol] at hfinished
      cases hfinished
  | reopens hfinished _ _ =>
      rw [hcontrol] at hfinished
      cases hfinished
  | heads hhead _ _ =>
      rw [hcontrol] at hhead
      cases hhead
  | serves hrun hrequest' _ hserves =>
      rw [hcontrol] at hrun
      cases hrun
      rw [hrequest] at hrequest'
      cases hrequest'
      obtain ⟨control₁, space₁, sim₁, s₁⟩ := m₁
      dsimp only at hserves
      cases hserves with
      | @answers sim _ reply hcall =>
          obtain ⟨rfl, rfl⟩ := hwaits.running rfl
          cases hanswer
          rw [List.append_nil]
          exact Or.inl ⟨_, sim, hcall, rfl, rfl⟩
      | suspends hcall => exact Or.inr ⟨_, _, e, labels₁, _, hnext, hcall, rfl, rfl, hwaits⟩
  | visits hrun hrequest' _ _ _ _ =>
      rw [hcontrol] at hrun
      cases hrun
      rw [hrequest] at hrequest'
      cases hrequest'

/-- A call that neither leaves nor synchronizes is answered at once. -/
theorem Served.answered {call : SysCall} {answer : Answer}
    (h : Served S program t m call labels answer m') (hsync : call.syncAction = none)
    (hstays : call.leaves true = false) :
    labels = [] ∧ ∃ stat sim₁,
      (Kernel.handleSystemCall t stat call m.sim).interp S.answer m.scheduler =
        .ok ((.ok (some answer), sim₁), m'.scheduler) ∧
      m'.sim = sim₁.setThread t
        { sim₁.threads t with state := .running, runs := (sim₁.threads t).runs + 1 } := by
  rcases h.cases with ⟨stat, sim₁, hcall, hsim, hlabels⟩ |
    ⟨stat, m₁, e, labels₁, budget, -, hcall, -⟩
  · rw [hlabels, hsync]
    exact ⟨rfl, stat, sim₁, hcall, hsim⟩
  · obtain ⟨action, rfl⟩ := Kernel.sync_of_suspended hstays hcall
    cases hsync

/-- While a thread waits for its action to be performed. -/
structure Pends (attrs : ThreadAttrs) (t : ThreadId) (action : Action) (m : Machine U σ) :
    Prop where
  tidy : m.Tidy
  thread : t ≤ m.sim.memory.threadCount
  action : (m.sim.threads t).action = some action
  attrs : (m.sim.threads t).attrs = attrs

/-- The action has been performed. -/
structure Performed (attrs : ThreadAttrs) (t : ThreadId) (load : Nat) (m : Machine U σ) :
    Prop where
  tidy : m.Tidy
  thread : t ≤ m.sim.memory.threadCount
  attrs : (m.sim.threads t).attrs = attrs
  resumed : ∃ status budget, m.control = .run t (.answer (.resumed status load)) budget

variable {attrs : ThreadAttrs} {action : Action}

/-- Before the next thread is picked, and when it is. -/
theorem Pends.heads {budget : Nat} (h : m.Pends attrs t action)
    (hcontrol : m.control = .head budget)
    (hheads : Heads S budget m.sim m.scheduler m'.control m'.sim m'.scheduler) :
    m'.Pends attrs t action ∧ (∀ r budget, m'.control ≠ .run t r budget) ∧
        (∀ label', label program m m' = some label' → label'.thread ≠ t) ∨
      ∃ load, label program m m' = some (.performs t action load) ∧ m'.Performed attrs t load := by
  have htidy := (@heads_recorded _ _ _ program _ _ _ h.tidy hcontrol hheads).1
  obtain ⟨control', space', sim', s'⟩ := m'
  dsimp only at hheads
  cases hheads with
  | @picks sim₁ _ s₁ s₂ _ next hidle hupkeep hpick htakes =>
      have hcells := Kernel.sameCells_upkeep hupkeep
      have hthread : t ≤ sim'.memory.threadCount := by
        rw [htakes.count, hcells.count]
        exact h.thread
      have hattrs : (sim'.threads t).attrs = attrs := by
        rw [← h.attrs, ← hcells.attrs]
        exact htakes.attrs t
      by_cases hnext : next = t
      · subst hnext
        refine Or.inr ⟨(sim'.threads next).load, ?_, htidy, hthread, hattrs, _, _, rfl⟩
        simp only [label, hcontrol, h.action, Option.map_some]
      · refine Or.inl ⟨⟨htidy, hthread, ?_, hattrs⟩, ?_, ?_⟩
        · dsimp only
          rw [htakes.pending, if_neg (Ne.symm hnext), hcells.action, h.action]
        · rintro r budget ⟨⟩
          exact hnext rfl
        · intro label' hlabel
          simp only [label, hcontrol] at hlabel
          obtain ⟨_, _, rfl⟩ := Option.map_eq_some_iff.mp hlabel
          exact hnext
  | @waits _ s₁ _ again hidle hwait =>
      have hcells := (Kernel.crew_idle Kernel.allows_sameCrew _ _ _ _ _ hwait).toSameCells
      refine Or.inl ⟨⟨htidy, ?_, ?_, ?_⟩, ?_, ?_⟩
      · dsimp only
        rw [hcells.count]
        exact h.thread
      · exact (hcells.action t).trans h.action
      · exact (hcells.attrs t).trans h.attrs
      · intro r budget hrun
        cases again with
        | true => cases hrun
        | false => cases hrun
      · intro label' hlabel
        cases again with
        | true => simp [label, hcontrol] at hlabel
        | false => simp [label, hcontrol] at hlabel
  | stops hidle hbudget =>
      refine Or.inl ⟨⟨htidy, h.thread, h.action, h.attrs⟩, ?_, ?_⟩
      · rintro r budget ⟨⟩
      · intro label' hlabel
        simp [label, hcontrol] at hlabel

/-- A step of another thread, or the one that performs the action. -/
theorem Pends.next {e : LoopEvent} (h : m.Pends attrs t action)
    (hwaits : ∀ r budget, m.control ≠ .run t r budget)
    (hnext : m.next S program e = some m') :
    m'.Over ∨ (m'.Pends attrs t action ∧ (∀ r budget, m'.control ≠ .run t r budget) ∧
        ∀ label', label program m m' = some label' → label'.thread ≠ t) ∨
      ∃ load, label program m m' = some (.performs t action load) ∧ m'.Performed attrs t load := by
  cases goes_of_next hnext with
  | aborts _ hcontrol hdone => exact Or.inl ⟨hcontrol, hdone⟩
  | rests hcontrol heq =>
      subst heq
      refine Or.inr (Or.inl ⟨h, hwaits, fun label' hlabel => ?_⟩)
      simp [label, hcontrol] at hlabel
  | reopens hcontrol _ heq =>
      subst heq
      refine Or.inr (Or.inl ⟨⟨⟨h.tidy.counted, ?_⟩, h.thread, h.action, h.attrs⟩, ?_,
        fun label' hlabel => ?_⟩)
      · rintro u r budget ⟨⟩
      · rintro r budget ⟨⟩
      · simp [label, hcontrol] at hlabel
  | heads hcontrol _ hheads => exact Or.inr (h.heads hcontrol hheads)
  | @serves u resumption budget call hcontrol hrequest _ hserves =>
      have htidy := (serves_recorded h.tidy hcontrol hrequest hserves).1
      have hu : t ≠ u := by
        rintro rfl
        exact hwaits _ _ hcontrol
      have hlabel : ∀ label', label program m m' = some label' → label'.thread ≠ t := by
        intro label' hlabel
        rw [label_serves hcontrol hrequest] at hlabel
        obtain ⟨_, _, rfl⟩ := Option.map_eq_some_iff.mp hlabel
        exact Ne.symm hu
      have hsame : ∀ {sim₁ : Sim}, Kernel.CellsAfter u call m.sim sim₁ →
          t ≤ sim₁.memory.threadCount ∧ (sim₁.threads t).action = some action ∧
            (sim₁.threads t).attrs = attrs := by
        intro sim₁ hafter
        refine ⟨Nat.le_trans h.thread hafter.count_le, ?_, ?_⟩
        · rw [hafter.action h.tidy.counted, if_neg hu, h.action]
        · rw [hafter.attrs h.thread, if_neg hu, h.attrs]
      obtain ⟨control', space', sim', s'⟩ := m'
      dsimp only at hserves
      refine Or.inr (Or.inl ?_)
      cases hserves with
      | answers hcall =>
          obtain ⟨hthread, haction, hattrs⟩ := hsame (Kernel.cellsAfter hcall)
          refine ⟨⟨htidy, hthread, ?_, ?_⟩, ?_, hlabel⟩
          · dsimp only
            rw [Sim.threads_setThread, if_neg hu, haction]
          · dsimp only
            rw [Sim.threads_setThread, if_neg hu, hattrs]
          · rintro r budget ⟨⟩
            exact hu rfl
      | suspends hcall =>
          obtain ⟨hthread, haction, hattrs⟩ := hsame (Kernel.cellsAfter hcall)
          refine ⟨⟨htidy, hthread, haction, hattrs⟩, ?_, hlabel⟩
          rintro r budget ⟨⟩
  | visits hcontrol hrequest _ hcontrol' hsim _ =>
      have hrun : ∀ r budget, m'.control ≠ .run t r budget := by
        intro r budget hrun
        rw [hcontrol'] at hrun
        cases hrun
        exact hwaits _ _ hcontrol
      have htidy : m'.Tidy := by
        refine ⟨hsim ▸ h.tidy.counted, fun u r budget hrun => ?_⟩
        rw [hcontrol'] at hrun
        cases hrun
        rw [hsim]
        exact h.tidy.running _ _ _ hcontrol
      refine Or.inr (Or.inl ⟨⟨htidy, hsim ▸ h.thread, hsim ▸ h.action, hsim ▸ h.attrs⟩, hrun,
        fun label' hlabel => ?_⟩)
      simp [label, hcontrol, hrequest] at hlabel

/-- What happens until the action is performed is the doing of others. -/
theorem Pends.waits (h : m.Pends attrs t action)
    (hwaits : ∀ r budget, m.control ≠ .run t r budget) (hrun : Waits S program t m labels m') :
    m'.Over ∨ (m'.Pends attrs t action ∧ (∀ r budget, m'.control ≠ .run t r budget) ∧
        ∀ label ∈ labels, label.thread ≠ t) ∨
      ∃ others load, labels = others ++ [.performs t action load] ∧
        (∀ label ∈ others, label.thread ≠ t) ∧ m'.Performed attrs t load := by
  induction hrun with
  | start => exact Or.inr (Or.inl ⟨h, hwaits, nofun⟩)
  | @step labels m₁ m₂ e _ hwaits₁ hnext ih =>
      rcases ih with hover | ⟨hpends, hidle, hothers⟩ | ⟨_, _, _, _, hperformed⟩
      · exact Or.inl (over_next hover hnext ▸ hover)
      · rcases hpends.next hidle hnext with hover | ⟨hpends', hidle', hlabel⟩ |
          ⟨load, hlabel, hperformed⟩
        · exact Or.inl hover
        · refine Or.inr (Or.inl ⟨hpends', hidle', fun label' hmem => ?_⟩)
          rcases List.mem_append.mp hmem with hmem | hmem
          · exact hothers label' hmem
          · exact hlabel label' (Option.mem_toList.mp hmem)
        · rw [hlabel, Option.toList_some]
          exact Or.inr (Or.inr ⟨labels, load, rfl, hothers, hperformed⟩)
      · obtain ⟨_, _, hcontrol⟩ := hperformed.resumed
        exact absurd hcontrol (hwaits₁ _ _)

/-- A Sync call: others go on, and at last the action is performed. -/
theorem Served.sync {answer : Answer} (h : Served S program t m (.sync action) labels answer m')
    (htidy : m.Tidy) :
    ∃ others, labels = .calls t action :: (others ++ [.performs t action answer.load]) ∧
      (∀ label ∈ others, label.thread ≠ t) ∧
      m'.Performed (m.sim.threads t).attrs t answer.load := by
  obtain ⟨r, budget, user, hcontrol, -⟩ := h.request
  obtain ⟨budget', hresumed⟩ := h.resumed
  obtain ⟨hthread, -, -⟩ := htidy.running _ _ _ hcontrol
  rcases h.cases with ⟨stat, sim₁, hcall, -⟩ |
    ⟨stat, m₁, e, labels₁, budget₁, hnext, hcall, hhead, rfl, hwaits⟩
  · cases sync_suspends hcall
  · have hafter := Kernel.cellsAfter hcall
    have hpends : m₁.Pends (m.sim.threads t).attrs t action := by
      refine ⟨?_, Nat.le_trans hthread hafter.count_le, ?_, ?_⟩
      · refine ⟨hafter.counted htidy.counted hthread, fun u r budget hrun => ?_⟩
        rw [hhead] at hrun
        cases hrun
      · rw [hafter.action htidy.counted, if_pos rfl]
        rfl
      · rw [hafter.attrs hthread, if_pos rfl]
        rfl
    have hidle : ∀ r budget, m₁.control ≠ .run t r budget := by
      intro r budget hrun
      rw [hhead] at hrun
      cases hrun
    rcases hpends.waits hidle hwaits with hover | ⟨-, hidle', -⟩ |
      ⟨others, load, rfl, hothers, hperformed⟩
    · rw [hover.1] at hresumed
      cases hresumed
    · exact absurd hresumed (hidle' _ _)
    · obtain ⟨status, budget₂, hcontrol'⟩ := hperformed.resumed
      rw [hresumed] at hcontrol'
      cases hcontrol'
      exact ⟨others, rfl, hothers, hperformed⟩

/-- Nothing is done by others while a section lasts. -/
theorem Exclusive.waits {always : Bool} {calm : σ → Prop} {pinned : σ → ThreadId → Prop}
    (hS : S.Pins always calm pinned) (h : m.Exclusive always calm pinned t) (htidy : m.Tidy)
    (hrun : Waits S program t m labels m') :
    m'.Over ∨ m'.Tidy ∧ m'.Exclusive always calm pinned t ∧ ∀ label ∈ labels, label.thread = t := by
  induction hrun with
  | start => exact Or.inr ⟨htidy, h, nofun⟩
  | @step labels m₁ m₂ e _ hwaits hnext ih =>
      rcases ih with hover | ⟨htidy₁, hexclusive, hlabels⟩
      · exact Or.inl (over_next hover hnext ▸ hover)
      · have hstays : ¬ m₁.Leaving program always := by
          rintro ⟨u, r, budget, call, user, hrun, -, -⟩
          obtain ⟨rfl, -⟩ := hexclusive.runs _ _ _ hrun
          exact hwaits _ _ hrun
        rcases hexclusive.next hS htidy₁ hstays hnext with hover | hexclusive'
        · exact Or.inl hover
        rcases next_recorded htidy₁ hnext with hover | ⟨htidy₂, -⟩
        · exact Or.inl hover
        · refine Or.inr ⟨htidy₂, hexclusive', fun label' hmem => ?_⟩
          rcases List.mem_append.mp hmem with hmem | hmem
          · exact hlabels label' hmem
          · exact hexclusive.labelled (Or.inr hexclusive') (Option.mem_toList.mp hmem)

/-- A Sync call in a section: the action is performed before anything else happens. -/
theorem Served.sync_guarded {always : Bool} {calm : σ → Prop} {pinned : σ → ThreadId → Prop}
    (hS : S.Pins always calm pinned) {answer : Answer}
    (h : Served S program t m (.sync action) labels answer m') (htidy : m.Tidy)
    (hexclusive : m.Exclusive always calm pinned t) :
    labels = [.calls t action, .performs t action answer.load] ∧
      m'.Performed (m.sim.threads t).attrs t answer.load ∧
      m'.Exclusive always calm pinned t := by
  obtain ⟨others, hlabels, hothers, hperformed⟩ := h.sync htidy
  obtain ⟨r, budget, user, hcontrol, hrequest⟩ := h.request
  obtain ⟨budget', hresumed⟩ := h.resumed
  rcases h.cases with ⟨stat, sim₁, hcall, -⟩ |
    ⟨stat, m₁, e, labels₁, budget₁, hnext, -, hhead, hsplit, hwaits⟩
  · cases sync_suspends hcall
  · have hstays : ¬ m.Leaving program always := by
      rintro ⟨u, r', budget', call, user', hrun, hrequest', hleaves⟩
      rw [hcontrol] at hrun
      cases hrun
      rw [hrequest] at hrequest'
      cases hrequest'
      cases hleaves
    have hhead' : ¬ m₁.Over := by
      intro hover
      rw [hover.1] at hhead
      cases hhead
    have hexclusive₁ := (hexclusive.next hS htidy hstays hnext).resolve_left hhead'
    have htidy₁ := ((next_recorded htidy hnext).resolve_left hhead').1
    rcases hexclusive₁.waits hS htidy₁ hwaits with hover | ⟨-, hexclusive', hmine⟩
    · rw [hover.1] at hresumed
      cases hresumed
    · have hnone : others = [] := by
        cases others with
        | nil => rfl
        | cons label rest =>
            rw [hlabels] at hsplit
            obtain ⟨-, rfl⟩ := List.cons_eq_cons.mp hsplit
            exact absurd (hmine label List.mem_cons_self) (hothers label List.mem_cons_self)
      rw [hlabels, hnone]
      exact ⟨rfl, hperformed, hexclusive'⟩

end Machine

/-! ### Sections of user code -/

/-- The calls that neither leave a section nor change the attributes of a thread. -/
def SysCall.stays : SysCall → Bool
  | .setThreadAttrPreemptive _ | .setThreadAttrLockFree _ => false
  | call => !call.leaves true

theorem SysCall.leaves_of_stays {call : SysCall} {always : Bool} (h : call.stays = true) :
    call.leaves always = false := by
  cases call with
  | setThreadAttrPreemptive on => cases h
  | setThreadAttrLockFree on => cases h
  | _ => first | rfl | cases h

/-- What user code does when nobody else is there. -/
inductive UserM.Alone (t : ThreadId) {α : Type} : UserM α → List SyncLabel → α → Prop where
  | returns {x : α} : UserM.Alone t (.ret x) [] x
  | syncs {action : Action} {next : Answer → UserM α} {answer : Answer}
      {rest : List SyncLabel} {x : α} (h : UserM.Alone t (next answer) rest x) :
      UserM.Alone t (.ask (.sync action) next)
        (.calls t action :: .performs t action answer.load :: rest) x
  | calls {call : SysCall} {next : Answer → UserM α} {answer : Answer}
      {rest : List SyncLabel} {x : α} (hsync : call.syncAction = none)
      (h : UserM.Alone t (next answer) rest x) : UserM.Alone t (.ask call next) rest x

namespace UserM

variable {α β : Type} {t : ThreadId} {labels : List SyncLabel} {x : α} {action : Action}

theorem asks_bind {C : SysCall → Prop} {code : UserM α} {f : α → UserM β} (h : code.Asks C)
    (hf : ∀ x, (f x).Asks C) : (code >>= f).Asks C := by
  induction code with
  | ret x => exact hf x
  | ask call next ih => exact ⟨h.1, fun answer => ih answer (h.2 answer)⟩

theorem alone_pure {y : α} (h : Alone t (pure y) labels x) : labels = [] ∧ x = y := by
  have hret : Alone t (.ret y) labels x := h
  cases hret
  exact ⟨rfl, rfl⟩

theorem alone_sync {f : Nat → UserM α} (h : Alone t (sync action >>= f) labels x) :
    ∃ load rest, labels = .calls t action :: .performs t action load :: rest ∧
      Alone t (f load) rest x := by
  have hask : Alone t (.ask (.sync action) fun answer => f answer.load) labels x := h
  cases hask with
  | @syncs _ _ answer rest _ hrest => exact ⟨answer.load, rest, rfl, hrest⟩
  | calls hsync _ => cases hsync

theorem alone_spuriousTryFailure {f : Bool → UserM α}
    (h : Alone t (spuriousTryFailure >>= f) labels x) :
    ∃ fail, Alone t (f fail) labels x := by
  have hask : Alone t (.ask .spuriousTryFailure fun answer => f (answer.result != 0))
    labels x := h
  cases hask with
  | @calls _ _ answer _ _ _ hrest => exact ⟨answer.result != 0, hrest⟩

end UserM

namespace Machine

variable {U σ α : Type} {S : IScheduler σ} {program : Program U} {t : ThreadId}
  {always : Bool} {calm : σ → Prop} {pinned : σ → ThreadId → Prop}
  {m m' m₀ : Machine U σ} {labels before : List SyncLabel}

/-- After a call that is answered at once. -/
theorem Served.attrs {call : SysCall} {answer : Answer}
    (h : Served S program t m call labels answer m') (htidy : m.Tidy)
    (hsync : call.syncAction = none) (hstays : call.leaves true = false) :
    labels = [] ∧ (m'.sim.threads t).attrs = call.setAttrs (m.sim.threads t).attrs := by
  obtain ⟨r, budget, user, hcontrol, -⟩ := h.request
  obtain ⟨hthread, -, -⟩ := htidy.running _ _ _ hcontrol
  obtain ⟨rfl, stat, sim₁, hcall, hsim⟩ := h.answered hsync hstays
  have hattrs := (Kernel.cellsAfter hcall).attrs hthread
  rw [if_pos rfl] at hattrs
  rw [hsim, Sim.threads_setThread, if_pos rfl]
  exact ⟨rfl, hattrs⟩

theorem Served.stays {call : SysCall} {answer : Answer}
    (h : Served S program t m call labels answer m') (htidy : m.Tidy)
    (hsync : call.syncAction = none) (hstays : call.stays = true) :
    labels = [] ∧ (m'.sim.threads t).attrs = (m.sim.threads t).attrs := by
  obtain ⟨hlabels, hattrs⟩ := h.attrs htidy hsync (SysCall.leaves_of_stays hstays)
  refine ⟨hlabels, hattrs.trans ?_⟩
  cases call with
  | setThreadAttrPreemptive on => cases hstays
  | setThreadAttrLockFree on => cases hstays
  | _ => rfl

theorem Served.setThreadAttrPreemptive {on : Bool} {answer : Answer}
    (h : Served S program t m (.setThreadAttrPreemptive on) labels answer m')
    (htidy : m.Tidy) :
    labels = [] ∧ (answer.result != 0) = (m.sim.threads t).attrs.preemptive ∧
      (m'.sim.threads t).attrs = { (m.sim.threads t).attrs with preemptive := on } := by
  have hstays : (SysCall.setThreadAttrPreemptive on).leaves true = false := Bool.and_false on
  obtain ⟨rfl, hattrs⟩ := h.attrs htidy rfl hstays
  obtain ⟨-, stat, sim₁, hcall, -⟩ := h.answered rfl hstays
  refine ⟨rfl, ?_, hattrs⟩
  obtain ⟨_, _, _, ⟨⟩, hcall⟩ := interp_bind_ok hcall
  obtain ⟨_, _, _, ⟨⟩, hinline⟩ := interp_bind_ok hcall
  have hreply := congrArg (fun result => result.1.1) (Except.ok.inj hinline)
  obtain rfl := Option.some.inj (Except.ok.inj hreply)
  dsimp only [Answer.result, Kernel.ofBool]
  cases (m.sim.threads t).attrs.preemptive with
  | true => rfl
  | false => rfl

section Launched

variable {params : Params} {space : UserSpace U} {s₀ : σ}
  (hS : S.Pins always calm pinned) (hlaunch : launch S params space s₀ = some m₀)

include hlaunch in
theorem History.running {r : Resumption} {budget : Nat} (h : History S program m₀ before m)
    (hcontrol : m.control = .run t r budget) : m.Tidy := by
  refine (h.tidy hlaunch).resolve_left fun hover => ?_
  rw [hover.1] at hcontrol
  cases hcontrol

include hS hlaunch

/-- In a section user code runs as if it were alone. -/
theorem Exclusive.does {code : UserM α} {x : α} (hreached : History S program m₀ before m)
    (hexclusive : m.Exclusive always calm pinned t) (hcode : code.Asks (·.stays = true))
    (h : Does S program t code m labels x m') :
    UserM.Alone t code labels x ∧ (m'.sim.threads t).attrs = (m.sim.threads t).attrs := by
  induction h generalizing before with
  | returns => exact ⟨UserM.Alone.returns, rfl⟩
  | @calls call next m m₁ m' labels labels' answer x hserved hrest ih =>
      obtain ⟨hstays, hnext⟩ := hcode
      obtain ⟨r, budget, user, hcontrol, hrequest⟩ := hserved.request
      obtain ⟨budget', hresumed⟩ := hserved.resumed
      have htidy := hreached.running hlaunch hcontrol
      have hreached' := hreached.trans hserved.history
      have hrun : m₁.sim.threads t = m₁.sim.threads t := rfl
      cases hcall : call.syncAction with
      | some action =>
          obtain rfl : call = .sync action := by
            cases call with
            | sync a =>
                cases hcall
                rfl
            | _ => cases hcall
          obtain ⟨rfl, hperformed, hexclusive'⟩ := hserved.sync_guarded hS htidy hexclusive
          obtain ⟨halone, hattrs⟩ := ih hreached' hexclusive' (hnext answer)
          exact ⟨UserM.Alone.syncs halone, hattrs.trans hperformed.attrs⟩
      | none =>
          obtain ⟨rfl, hsame⟩ := hserved.stays htidy hcall hstays
          have hexclusive' : m₁.Exclusive always calm pinned t := by
            refine ⟨hsame ▸ hexclusive.guarded, fun u r budget hrun => ?_,
              fun hrun => absurd hresumed (hrun _ _ _)⟩
            rw [hresumed] at hrun
            cases hrun
            exact ⟨rfl, hreached'.calmed hS hlaunch _ _ _ hresumed⟩
          obtain ⟨halone, hattrs⟩ := ih hreached' hexclusive' (hnext answer)
          exact ⟨UserM.Alone.calls hcall halone, hattrs.trans hsame⟩

/-- What stands under a `PreemptionGuard` runs as if it were alone, and the thread is as
preemptive afterwards as it was before. -/
theorem does_preemptionGuard {body : UserM α} {x : α}
    (hreached : History S program m₀ before m)
    (h : Does S program t (UserM.preemptionGuard body) m labels x m')
    (hbody : body.Asks (·.stays = true)) :
    UserM.Alone t body labels x ∧ (m'.sim.threads t).attrs = (m.sim.threads t).attrs := by
  obtain ⟨labels₁, labels₂, status, m₁, rfl, hfirst, hrest⟩ := does_bind h
  obtain ⟨labels₃, labels₄, y, m₂, rfl, hmiddle, hrest⟩ := does_bind hrest
  obtain ⟨labels₅, labels₆, _, m₃, rfl, hlast, hpure⟩ := does_bind hrest
  obtain ⟨rfl, rfl, rfl⟩ := does_ret hpure
  obtain ⟨answer, rfl, hserved⟩ := does_call hfirst
  obtain ⟨r, budget, user, hcontrol, -⟩ := hserved.request
  obtain ⟨budget₁, hresumed⟩ := hserved.resumed
  have htidy := hreached.running hlaunch hcontrol
  have hreached₁ := hreached.trans hserved.history
  obtain ⟨rfl, hstatus, hattrs⟩ := hserved.setThreadAttrPreemptive htidy
  have hexclusive : m₁.Exclusive always calm pinned t := by
    refine ⟨Or.inr ?_, fun u r budget hrun => ?_, fun hrun => absurd hresumed (hrun _ _ _)⟩
    · rw [hattrs]
    · rw [hresumed] at hrun
      cases hrun
      exact ⟨rfl, hreached₁.calmed hS hlaunch _ _ _ hresumed⟩
  obtain ⟨halone, hattrs'⟩ := hexclusive.does hS hlaunch hreached₁ hbody hmiddle
  obtain ⟨_, _, hserved'⟩ := does_call hlast
  obtain ⟨r', budget', user', hcontrol', -⟩ := hserved'.request
  have htidy' := (hreached₁.trans hmiddle.history).running hlaunch hcontrol'
  obtain ⟨rfl, -, hattrs''⟩ := hserved'.setThreadAttrPreemptive htidy'
  simp only [List.nil_append, List.append_nil]
  refine ⟨halone, ?_⟩
  rw [hattrs'', hattrs', hattrs, hstatus]

end Launched

end Machine

/-! ### Programs of user code -/

/-- A program in which every thread runs through its code and exits; the user memory is what
the threads do with their next answers. -/
def Program.ofCode (stat : HeapStat) : Program (ThreadId → Answer → UserM Unit) where
  resume t resumption threads :=
    let answer := match resumption with
      | .answer answer => answer
      | .statics _ => .value 0
    match threads t answer with
    | .ask call next => (.sys call, Function.update threads t next)
    | .ret () => (.sys .threadExit, Function.update threads t fun _ => .ret ())
  heapStat _ := stat

namespace Machine

variable {U σ α : Type} {S : IScheduler σ} {program : Program U} {t : ThreadId}
  {m m' m₁ : Machine U σ} {labels : List SyncLabel}

theorem Waits.cons {e : LoopEvent} (hwaits : ∀ r budget, m.control ≠ .run t r budget)
    (hnext : m.next S program e = some m₁) (h : Waits S program t m₁ labels m') :
    Waits S program t m ((label program m m₁).toList ++ labels) m' := by
  induction h with
  | start =>
      rw [List.append_nil]
      exact Waits.start.step hwaits hnext
  | step _ hwaits' hnext' ih => exact List.append_assoc _ _ _ ▸ ih.step hwaits' hnext'

/-- Does thread `t` run? -/
def runs (t : ThreadId) (m : Machine U σ) : Bool :=
  match m.control with
  | .run u _ _ => u == t
  | _ => false

theorem runs_of_control {r : Resumption} {budget : Nat} (h : m.control = .run t r budget) :
    m.runs t = true := by
  rw [runs, h]
  exact beq_self_eq_true t

/-- Wait for thread `t`; the events that are left come back. -/
def await (S : IScheduler σ) (program : Program U) (t : ThreadId) :
    List LoopEvent → Machine U σ → Option (List SyncLabel × Machine U σ × List LoopEvent)
  | [], m => some ([], m, [])
  | e :: rest, m =>
      if m.runs t then some ([], m, e :: rest)
      else do
        let m' ← m.next S program e
        let (labels, m'', left) ← await S program t rest m'
        some ((label program m m').toList ++ labels, m'', left)

theorem waits_of_await {events left : List LoopEvent}
    (h : await S program t events m = some (labels, m', left)) :
    Waits S program t m labels m' := by
  induction events generalizing m labels with
  | nil =>
      cases h
      exact Waits.start
  | cons e rest ih =>
      unfold await at h
      split at h
      · cases h
        exact Waits.start
      · rename_i hruns
        obtain ⟨m₁, hnext, hrest⟩ := Option.bind_eq_some_iff.mp h
        obtain ⟨⟨labels₁, m₂, left₁⟩, hawait, heq⟩ := Option.bind_eq_some_iff.mp hrest
        cases heq
        refine Waits.cons (fun r budget hcontrol => ?_) hnext (ih hawait)
        exact hruns (runs_of_control hcontrol)

/-- A call of thread `t`. -/
def serve (S : IScheduler σ) (program : Program U) (t : ThreadId) (call : SysCall) :
    List LoopEvent → Machine U σ →
      Option (List SyncLabel × Answer × Machine U σ × List LoopEvent)
  | [], _ => none
  | e :: rest, m =>
      match m.control with
      | .run u r _ =>
          if u = t ∧ (program.resume u r m.space.user).1 = .sys call then do
            let m₁ ← m.next S program e
            let (labels, m', left) ← await S program t rest m₁
            match m'.control with
            | .run u (.answer answer) _ =>
                if u = t then some ((label program m m₁).toList ++ labels, answer, m', left)
                else none
            | _ => none
          else none
      | _ => none

theorem served_of_serve {call : SysCall} {events left : List LoopEvent} {answer : Answer}
    (h : serve S program t call events m = some (labels, answer, m', left)) :
    Served S program t m call labels answer m' := by
  cases events with
  | nil => cases h
  | cons e rest =>
      simp only [serve] at h
      split at h
      · rename_i u r budget hcontrol
        split at h
        · rename_i hrequest
          obtain ⟨rfl, hrequest⟩ := hrequest
          obtain ⟨m₁, hnext, hrest⟩ := Option.bind_eq_some_iff.mp h
          obtain ⟨⟨labels₁, m₂, left₁⟩, hawait, hreply⟩ := Option.bind_eq_some_iff.mp hrest
          dsimp only at hreply
          split at hreply
          · rename_i u' answer' budget' hcontrol'
            split at hreply
            · rename_i hu
              subst hu
              cases hreply
              exact Served.intro hcontrol (Prod.ext hrequest rfl) hnext (waits_of_await hawait)
                hcontrol'
            · cases hreply
          · cases hreply
        · cases h
      · cases h

/-- Thread `t` runs through a routine. -/
def perform (S : IScheduler σ) (program : Program U) (t : ThreadId) :
    UserM α → List LoopEvent → Machine U σ → Option (List SyncLabel × α × Machine U σ)
  | .ret x, _, m => some ([], x, m)
  | .ask call next, events, m => do
      let (labels, answer, m₁, left) ← serve S program t call events m
      let (labels', x, m') ← perform S program t (next answer) left m₁
      some (labels ++ labels', x, m')

theorem does_of_perform {code : UserM α} {events : List LoopEvent} {x : α}
    (h : perform S program t code events m = some (labels, x, m')) :
    Does S program t code m labels x m' := by
  induction code generalizing events m labels with
  | ret y =>
      cases h
      exact Does.returns
  | ask call next ih =>
      obtain ⟨⟨labels₁, answer, m₁, left⟩, hserve, hrest⟩ := Option.bind_eq_some_iff.mp h
      obtain ⟨⟨labels₂, y, m₂⟩, hperform, heq⟩ := Option.bind_eq_some_iff.mp hrest
      cases heq
      exact Does.calls (served_of_serve hserve) (ih answer hperform)

/-- A launch, a run, and a routine that can be computed. -/
theorem exists_does {params : Params} {space : UserSpace U} {s : σ}
    {events events' : List LoopEvent} {code : UserM α} {P : List SyncLabel → α → Prop}
    [∀ labels x, Decidable (P labels x)]
    (h : ((launch S params space s).bind fun m₀ => (follow S program events m₀).bind fun r =>
      perform S program t code events' r.2).any (fun r => decide (P r.1 r.2.1)) = true) :
    ∃ m₀ before m labels x m', launch S params space s = some m₀ ∧
      History S program m₀ before m ∧ Does S program t code m labels x m' ∧ P labels x := by
  obtain ⟨⟨labels, x, m'⟩, hrun, hP⟩ := Option.any_eq_true _ _ |>.mp h
  obtain ⟨m₀, hlaunch, hrest⟩ := Option.bind_eq_some_iff.mp hrun
  obtain ⟨⟨before, m⟩, hfollow, hperform⟩ := Option.bind_eq_some_iff.mp hrest
  exact ⟨m₀, before, m, labels, x, m', hlaunch, history_of_follow History.start hfollow,
    does_of_perform hperform, of_decide_eq_true hP⟩

end Machine

end TwistSim

/-
The contract of a scheduler as the simulator uses it: it keeps the threads that are
handed to it, and its wait queues are exact sets.
-/
import TwistSim.WaitQueues

namespace TwistSim

open Effect
open Interaction (Spec Implements)

/-- Does the scheduler keep its run queue and its wait queues on the same links?
`spared` says that it does, in a run where no removed thread is in a wait queue. -/
inductive Links where
  | apart | shared | spared
  deriving DecidableEq, Repr

def Links.sharesLinks : Links → Bool
  | .apart => false
  | .shared | .spared => true

namespace Holdings

/-- A thread is removed that is in a wait queue on the same links. -/
def Snatches (links : Links) (a : Holdings) (call : Call) : Prop :=
  links = .shared ∧ ¬ a.allowed true call

/-- A thread is removed from a wait queue that it has left. -/
def Misses (links : Links) (a : Holdings) : Call → Prop
  | (_, .queueRemove _ t) => links = .shared ∧ a.Lacks t
  | _ => False

/-- The removed thread is in no queue at all. -/
def Snatched (a' : Holdings) : Call → Prop
  | (_, .remove t) => a'.Sound ∧ a'.Lacks t
  | _ => True

/-- Nothing is found. -/
def Missed : (call : Call) → call.Reply → Prop
  | (_, .queueRemove _ _), r => r = false
  | _, _ => True

/-- A pruned run gains no thread. -/
def Pruned (a : Holdings) : (call : Call) → call.Reply → Holdings → Prop
  | (_, .pickNext), .error _, a' => a'.owned ≤ a.owned
  | _, _, _ => True

/-- What the scheduler grants where a call is due. -/
structure Grants (a : Holdings) (call : Call) (r : call.Reply) (a' : Holdings) :
    Prop where
  post : a.post call r a'
  exact : call.2.onQueue = true → a.Exact call r
  pruned : a.Pruned call r a'

end Holdings

/-- Where the scheduler answers, it keeps `Holdings`, and a wait queue gives nothing
only if it has nothing. -/
def keeperSpec (links : Links) : Spec Call Call.Reply Holdings where
  assume a call := links = .spared → a.allowed true call
  pre a call :=
    a.Sound ∧ (¬ a.Misses links call →
      a.pre call ∧ (call.2.onQueue = true → a.Proper call))
  mayCrash _ _ := True
  post a call r a' :=
    (¬ a.Snatches links call → ¬ a.Misses links call → a.Grants call r a') ∧
      (a.Snatches links call → a'.Snatched call) ∧
      (a.Misses links call → Holdings.Missed call r)

/-- A scheduler that keeps the contract. -/
abbrev Keeps {σ : Type} (S : IScheduler σ) (WF : σ → Prop) (holdings : σ → Holdings)
    (links : Links) : Prop :=
  Implements S.answer WF holdings (keeperSpec links)

theorem allowed_of_spares {links : Links} {a : Holdings} {call : Call}
    (hassume : links = .spared → a.allowed true call) (hspares : ¬ a.Snatches links call) :
    a.allowed links.sharesLinks call := by
  cases links with
  | apart =>
      obtain ⟨view, q⟩ := call
      cases q with
      | remove t => nofun
      | _ => trivial
  | shared => exact not_not.mp fun hnot => hspares ⟨rfl, hnot⟩
  | spared => exact hassume rfl

theorem keeps_of_implements {σ : Type} {S : IScheduler σ} {WF : σ → Prop}
    {holdings : σ → Holdings} {links : Links}
    (himp : Implements S.answer WF holdings (schedulerSpec links.sharesLinks))
    (hexact : ∀ call s r s', WF s → call.2.onQueue = true →
      S.exec call s = .ok (r, s') → (holdings s).Exact call r)
    (hpruned : ∀ view s why s', WF s → S.exec (view, .pickNext) s = .ok (.error why, s') →
      (holdings s').owned ≤ (holdings s).owned)
    (hshared : links = .shared → ∀ call s r s', WF s → (holdings s).Sound →
      S.exec call s = .ok (r, s') →
      ((holdings s).Snatches links call → WF s' ∧ (holdings s').Snatched call) ∧
      ((holdings s).Misses links call → WF s' ∧ Holdings.Missed call r)) :
    Keeps S WF holdings links := by
  intro call s hWF hassume ⟨hsound, hpre⟩
  cases hanswer : S.answer call s with
  | error p => trivial
  | ok result =>
      obtain ⟨r, s'⟩ := result
      have hexec := (IScheduler.answer_ok_iff.mp hanswer).1
      by_cases hsnatches : (holdings s).Snatches links call
      · have hmisses : ¬ (holdings s).Misses links call := by
          obtain ⟨view, q⟩ := call
          cases q with
          | remove t => exact id
          | _ => exact absurd trivial hsnatches.2
        have hstep := (hshared hsnatches.1 call s r s' hWF hsound hexec).1 hsnatches
        exact ⟨hstep.1, fun hnot => absurd hsnatches hnot, fun _ => hstep.2,
          fun hmiss => absurd hmiss hmisses⟩
      by_cases hmisses : (holdings s).Misses links call
      · have hlinks : links = .shared := by
          obtain ⟨view, q⟩ := call
          cases q with
          | queueRemove q t => exact hmisses.1
          | _ => exact absurd hmisses id
        have hstep := (hshared hlinks call s r s' hWF hsound hexec).2 hmisses
        exact ⟨hstep.1, fun _ hnot => absurd hmisses hnot,
          fun hsnatch => absurd hsnatch hsnatches, fun _ => hstep.2⟩
      have hstep := himp call s hWF (allowed_of_spares hassume hsnatches) (hpre hmisses).1
      rw [hanswer] at hstep
      refine ⟨hstep.1, fun _ _ => ⟨hstep.2, ?_, ?_⟩, fun hsnatch => absurd hsnatch hsnatches,
        fun hmiss => absurd hmiss hmisses⟩
      · exact fun hqueue => hexact call s r s' hWF hqueue hexec
      · obtain ⟨view, q⟩ := call
        cases q with
        | pickNext =>
            cases r with
            | ok t => trivial
            | error why => exact hpruned view s why s' hWF hexec
        | _ => trivial

/-! ### The schedulers -/

/-- A thread that is unlinked is in no queue. -/
theorem Coop.unlink_lacks {s : Coop.State} {t : ThreadId} (hWF : s.WF)
    (hsound : s.holdings.Sound) :
    let s' : Coop.State := { s with lists := s.lists.unlink t }
    s'.WF ∧ s'.holdings.Sound ∧ s'.holdings.Lacks t := by
  intro s'
  have hlists : ∀ k, s'.lists.lists k = (s.lists.lists k).erase t :=
    IntrusiveLists.unlink_lists hWF.consistent t
  have hsub : ∀ k, (s'.lists.lists k : Multiset ThreadId) ≤ s.lists.lists k := fun k => by
    rw [hlists, ← Multiset.coe_erase]
    exact Multiset.erase_le t _
  have hnot : ∀ k, t ∉ s'.lists.lists k := fun k => by
    rw [hlists]
    exact (hWF.consistent.nodup k).not_mem_erase
  have howned : ∀ s : Coop.State, s.holdings.owned = ↑(s.lists.lists none) :=
    fun s => add_zero _
  refine ⟨Coop.unlink_wf hWF rfl rfl, ⟨?_, ?_, ?_, ?_⟩, ?_, fun q => hnot (some q)⟩
  · rw [howned]
    exact Multiset.nodup_of_le (hsub none) (howned s ▸ hsound.owned)
  · intro u hu
    rw [howned] at hu
    exact hsound.valid u (howned s ▸ Multiset.mem_of_le (hsub none) hu)
  · exact fun q => Multiset.nodup_of_le (hsub (some q)) (hsound.waiters q)
  · exact fun q u hu => hsound.validWaiters q u (Multiset.mem_of_le (hsub (some q)) hu)
  · rw [howned]
    exact hnot none

theorem Coop.keeps {links : Links} (hlinks : links ≠ .apart) :
    Keeps Coop.scheduler Coop.State.WF Coop.State.holdings links := by
  have hshares : links.sharesLinks = true := by
    cases links with
    | apart => exact absurd rfl hlinks
    | shared => rfl
    | spared => rfl
  refine keeps_of_implements (hshares ▸ Coop.implements)
    (fun _ _ _ _ hWF _ hexec => Coop.exec_exact hWF hexec) ?_ ?_
  · intro view s why s' hWF hexec
    obtain ⟨t, ht, -⟩ := Coop.pickNext_picks hWF hexec
    cases ht
  · rintro hshared ⟨view, q⟩ s r s' hWF hsound hexec
    constructor
    · rintro ⟨-, hnot⟩
      cases q with
      | remove t =>
          cases hexec
          obtain ⟨hWF', hsound', hlacks⟩ := @Coop.unlink_lacks s t hWF hsound
          rw [← Coop.remove_lists] at hWF' hsound' hlacks
          exact ⟨hWF', hsound', hlacks⟩
      | _ => exact absurd trivial hnot
    · intro hmisses
      cases q with
      | queueRemove q t =>
          have hunlinked := Coop.isLinked_of_lacks hWF hmisses.2
          have hremove : s.lists.remove t = (false, s.lists) := by
            rw [IntrusiveLists.remove, hunlinked]
            rfl
          simp only [Coop.scheduler, hremove] at hexec
          cases hexec
          exact ⟨hWF, rfl⟩
      | _ => exact absurd hmisses id

theorem Random.keeps (params : Random.Params) :
    Keeps (Random.scheduler params) Random.State.WF Random.State.holdings .apart := by
  refine keeps_of_implements (Random.implements params)
    (fun _ _ _ _ _ _ hexec => Random.exec_exact hexec) ?_ nofun
  intro view s why s' _ hexec
  obtain ⟨t, ht, -⟩ := Random.pickNext_spec hexec
  cases ht

theorem Pct.keeps (params : Pct.Params) (fuel : Nat) :
    Keeps (Pct.scheduler params fuel) Pct.State.WF Pct.State.holdings .apart := by
  refine keeps_of_implements (Pct.implements params fuel)
    (fun _ _ _ _ hWF _ hexec => Pct.exec_exact hWF hexec) ?_ nofun
  intro view s why s' _ hexec
  obtain ⟨t, ht, -⟩ := Pct.pickNext_picks hexec
  cases ht

/-- A pruned run has lost its active thread. -/
theorem Dfs.pickNext_prunes {params : Dfs.Params} {view : KernelView} {s s' : Dfs.State}
    {why : String} (h : (Dfs.pickNext params view s).Returns (.ok (.error why, s'))) :
    s'.runQueue = s.runQueue ∧ s'.active = none := by
  unfold Dfs.pickNext at h
  dsimp only at h
  have hadd := @Dfs.addStep_same params s.active { s with active := none }
  generalize Dfs.addStep params s.active { s with active := none } = step at h hadd
  obtain ⟨limit, s₁⟩ := step
  obtain ⟨hqueue, hnone, -⟩ := hadd
  have hswitch : ∀ {preempted : Option ThreadId},
      ¬ (Dfs.switch preempted s₁).Returns (.ok (.error why, s')) := by
    intro preempted hreturns
    obtain ⟨t, ht, -⟩ := Dfs.switch_returns hnone hreturns
    cases ht
  cases limit with
  | error why =>
      cases h
      exact ⟨hqueue, hnone⟩
  | ok _ =>
      cases hactive : s.active with
      | none =>
          simp only [hactive] at h
          exact absurd h hswitch
      | some active =>
          simp only [hactive] at h
          obtain ⟨answer, -, hanswer⟩ := Interaction.returns_bind.mp h
          match answer with
          | .error why =>
              cases hanswer
              exact ⟨hqueue, hnone⟩
          | .ok false => cases hanswer
          | .ok true => exact absurd hanswer hswitch

/-- Every run of the model checker is guided by some answers. -/
theorem Dfs.keeps (params : Dfs.Params) (answers : Nat → Nat) :
    Keeps (Dfs.guided params answers) (Dfs.GuidedWF params) (Dfs.guidedHoldings params)
      .apart := by
  refine keeps_of_implements (Dfs.guided_implements params answers) ?_ ?_ nofun
  · intro call s r s' hWF hqueue hexec
    have hstart : call.2 ≠ .start := fun hcall => by rw [hcall] at hqueue; cases hqueue
    have halts : ∀ alts, call.2 = .randomChoice alts → 0 < alts :=
      fun alts hcall => by rw [hcall] at hqueue; cases hqueue
    obtain ⟨choices, hleaf⟩ := Dfs.guided_leaf hstart halts hexec
    exact Dfs.method_exact hWF hleaf
  · intro view s why s' hWF hexec
    have hcall : ((view, .pickNext) : Call).2 ≠ .start := nofun
    obtain ⟨hqueue, hnone⟩ := Dfs.pickNext_prunes (Dfs.guided_returns hcall hexec)
    rw [Dfs.guidedHoldings, Dfs.guidedHoldings, Dfs.owned_eq, Dfs.owned_eq, hqueue, hnone]
    exact Multiset.coe_le.mpr (List.sublist_append_right _ _).subperm

theorem Replay.Recorder.keeps {σ : Type} {S : IScheduler σ} {WF : σ → Prop}
    {holdings : σ → Holdings} {links : Links} (hS : Keeps S WF holdings links) :
    Keeps (scheduler S) (fun r => WF r.underlying) (fun r => holdings r.underlying)
      links := by
  intro call r hWF hassume hpre
  by_cases hcall : call.2 = .isModelChecker
  · obtain ⟨view, q⟩ := call
    cases hcall
    exact ⟨hWF, fun _ _ => ⟨rfl, nofun, trivial⟩, fun h => absurd trivial h.2,
      fun h => absurd h id⟩
  · have hstep := hS call r.underlying hWF hassume hpre
    rw [recorder_answer hcall]
    cases hanswer : S.answer call r.underlying with
    | error p => trivial
    | ok result => rwa [hanswer] at hstep

theorem keeper_refines (links : Links) : (keeperSpec links).Refines queueSpec := by
  refine fun a call _ => ⟨trivial, fun ⟨hsound, hproper, hqueue⟩ => ?_⟩
  have hspares : ¬ a.Snatches links call := fun h => h.2 hproper.allowed
  have hfinds : ¬ a.Misses links call := by
    obtain ⟨view, q⟩ := call
    cases q with
    | queueRemove q t => exact fun h => h.2.2 q hproper.1
    | _ => exact id
  refine ⟨⟨hsound, fun _ => ⟨hproper.pre hsound, fun _ => hproper⟩⟩, fun r a' hpost => ?_⟩
  have hgrants := hpost.1 hspares hfinds
  exact ⟨hgrants.post, hgrants.exact hqueue⟩

end TwistSim

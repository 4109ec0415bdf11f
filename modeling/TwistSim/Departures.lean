/-
Threads that are gone are gone: whoever has exited or was burnt is nowhere in the
simulator, and the scheduler never gives it back.
-/
import TwistSim.Aborts
import TwistSim.Ghosts
import TwistSim.Mirroring
import TwistSim.Places

namespace TwistSim

open Effect
open Interaction (Along wp_sound wp_along_pre)
open Kernel (Ensures Asks Within Breaks Deserted Exited Burns bornNext)

variable {U σ : Type}

/-! ### Schedulers that let go -/

/-- The scheduler gives no pointer that dangles. -/
def IScheduler.Usable (S : IScheduler σ) (s : σ) (call : Call) : Prop :=
  ∀ r s', S.exec call s = .ok (r, s') → call.usable r = true

/-- A scheduler that gives up the threads that are taken away from it. -/
structure Parting (S : IScheduler σ) (WF : σ → Prop) (holdings : σ → Holdings) : Prop where
  keeps : Keeps S WF holdings .apart
  /-- The thread that is kept aside can run. -/
  aside : ∀ s, WF s → (holdings s).held = 0 → (holdings s).slot = false
  pruned : ∀ view s why s', WF s → S.answer (view, .pickNext) s = .ok (.error why, s') →
    (holdings s').slot = false
  letsGo : ∀ s call, WF s → Replay.LetsGo S holdings s call
  picks : ∀ view s t s', WF s → S.exec (view, .pickNext) s = .ok (.ok t, s') →
    t ∈ (holdings s).owned

/-- Only threads that are alive are with the scheduler. -/
def Sim.Manned (sim : Sim) (a : Holdings) : Prop := ∀ t ∈ a.owned, t ∈ sim.alive

variable {S : IScheduler σ} {WF : σ → Prop} {holdings : σ → Holdings} {sim sim' : Sim}
  {s s' : σ} {α : Type}

namespace Parting

theorem assumes {t : Scheduled α} (s : σ) :
    t.Along S.answer (fun s call => (keeperSpec .apart).assume (holdings s) call) s :=
  Along.of_forall fun _ _ heq => nomatch heq

/-- What an operation ensures that returns. -/
theorem ensured (hS : Parting S WF holdings) {m : KernelM α} {x : α}
    {post : α → Sim → Holdings → Prop} (hWF : WF s)
    (h : Ensures .apart True m post sim (holdings s))
    (hrun : (m sim).interp S.answer s = .ok ((.ok x, sim'), s')) :
    WF s' ∧ post x sim' (holdings s') := by
  have hsound := wp_sound hS.keeps hWF (assumes s) h
  rw [hrun] at hsound
  exact hsound

/-- What an operation leaves that throws. -/
theorem thrown (hS : Parting S WF holdings) {m : KernelM α}
    {post : α → Sim → Holdings → Prop} (hWF : WF s)
    (h : Ensures .apart True m post sim (holdings s))
    (hrun : (m sim).interp S.answer s = .ok ((.error .sysAbortEx, sim'), s')) :
    WF s' ∧ sim'.Linked none (holdings s') := by
  have hsound := wp_sound hS.keeps hWF (assumes s) h
  rw [hrun] at hsound
  exact ⟨hsound.1, hsound.2.1⟩

/-- The answer to a question that is due. -/
theorem granted (hS : Parting S WF holdings) {call : Call} {r : call.Reply} (hWF : WF s)
    (hpre : (keeperSpec .apart).pre (holdings s) call)
    (hanswer : S.answer call s = .ok (r, s')) :
    WF s' ∧ (holdings s).Grants call r (holdings s') := by
  have hstep := hS.keeps call s hWF (fun heq => nomatch heq) hpre
  rw [hanswer] at hstep
  have hsnatches : ¬ (holdings s).Snatches .apart call := fun h => nomatch h.1
  have hmisses : ¬ (holdings s).Misses .apart call := by
    obtain ⟨view, q⟩ := call
    cases q with
    | queueRemove q t => exact fun h => nomatch h.1
    | _ => exact id
  exact ⟨hstep.1, hstep.2.1 hsnatches hmisses⟩

/-- A question about the scheduler's own threads. -/
theorem asked (hS : Parting S WF holdings) {q : Query} {r : q.Reply} {view : KernelView}
    (hWF : WF s) (hsound : (holdings s).Sound) (hpre : (holdings s).pre (view, q))
    (hqueue : q.onQueue = false) (hanswer : S.answer (view, q) s = .ok (r, s')) :
    WF s' ∧ (holdings s).Grants (view, q) r (holdings s') := by
  have hdue : (keeperSpec .apart).pre (holdings s) (view, q) := by
    refine ⟨hsound, fun _ => ⟨hpre, fun h => ?_⟩⟩
    rw [hqueue] at h
    cases h
  exact hS.granted hWF hdue hanswer

end Parting

/-! ### Turns that move threads -/

namespace Sim

variable {a a' : Holdings}

theorem Manned.shrink (h : sim.Manned a) (hle : a'.owned ≤ a.owned)
    (halive : sim'.alive = sim.alive) : sim'.Manned a' := fun t ht => by
  rw [halive]
  exact h t (Multiset.mem_of_le hle ht)

/-- Time passes, and timers ring for threads that are alive. -/
theorem Passes.manned (h : sim.Passes a sim' a') (hlinked : sim.Linked none a)
    (hmanned : sim.Manned a) : sim'.Manned a' := by
  intro t ht
  rw [h.alive]
  rcases h.fate t with hstays | hrings
  · exact hmanned t (hstays.owned.mp ht)
  · by_contra hgone
    exact (hlinked.gone t hgone).2 hrings.armed

end Sim

theorem Kernel.Resumes.manned {a a' : Holdings} {next : ThreadId}
    (h : Kernel.Resumes sim a next sim' a') (hlinked : sim.Linked none a)
    (hmanned : sim.Manned a) : sim'.Manned a' := by
  obtain ⟨sim₁, a₁, hlater, -, hmoves, -⟩ := h.before
  intro t ht
  have hne : t ≠ next := fun heq => (h.placed.runs next rfl).owned (heq ▸ ht)
  rw [hmoves.alive]
  exact hlater.passes.manned hlinked hmanned t ((hmoves.others t hne).owned.mp ht)

theorem Kernel.HeadTurn.manned {a a' : Holdings} {budget : Nat} {control : Control}
    (h : Kernel.HeadTurn sim a budget control sim' a') (hlinked : sim.Linked none a)
    (hmanned : sim.Manned a) : sim'.Manned a' := by
  cases control with
  | head b => exact h.2.1.passes.manned hlinked hmanned
  | run next r b => exact h.2.2.1.manned hlinked hmanned
  | finished => exact h.1.passes.manned hlinked hmanned

/-! ### Calls -/

/-- The same threads, and the same one is main. -/
structure Sim.SameHands (sim sim' : Sim) : Prop where
  crew : sim'.alive = sim.alive
  main : ∀ t, (sim'.threads t).main = (sim.threads t).main
  count : sim'.memory.threadCount = sim.memory.threadCount

theorem Sim.SameCrew.hands (h : sim.SameCrew sim') : sim.SameHands sim' :=
  ⟨h.crew, h.main, h.count⟩

theorem Sim.SameHands.trans {sim'' : Sim} (h : sim.SameHands sim') (h' : sim'.SameHands sim'') :
    sim.SameHands sim'' :=
  ⟨h'.crew.trans h.crew, fun t => (h'.main t).trans (h.main t), h'.count.trans h.count⟩

theorem Sim.sameHands_setThread {t : ThreadId} {thread : Thread}
    (h : thread.main = (sim.threads t).main) : sim.SameHands (sim.setThread t thread) :=
  ⟨rfl, Sim.sameField_setThread h, rfl⟩

namespace Kernel

/-- A call keeps everybody, or a thread is born. -/
theorem hands_handleSystemCall {me : ThreadId} {stat : HeapStat} {call : SysCall}
    {r : Option Answer} (hstays : call ≠ .threadExit)
    (h : (handleSystemCall me stat call sim).interp S.answer s = .ok ((.ok r, sim'), s')) :
    sim.SameHands sim' ∨ (bornNext sim).SameHands sim' := by
  have hR := @allows_sameCrew σ S Query.Plain
  have hplain : special call = false → sim.SameHands sim' ∨ (bornNext sim).SameHands sim' :=
    fun hcall => Or.inl (crew_handleSystemCall hR hcall hstays _ _ _ _ _ h).hands
  cases call with
  | sync action =>
      obtain ⟨_, sim₁, s₁, hsync, ⟨⟩⟩ := interp_bind_ok h
      obtain ⟨rfl, -⟩ := cells_sysSync hsync
      exact Or.inl (Sim.sameHands_setThread rfl)
  | spawn =>
      obtain ⟨id, sim₁, s₁, hspawn, hresume⟩ := interp_bind_ok h
      obtain ⟨child, sim₂, s₂, hcreate, hrest⟩ := interp_bind_ok hspawn
      obtain ⟨rfl, rfl, memory, hmemory, rfl⟩ := createThread_ok hcreate
      have hborn := (crew_spawned hR _ _ _ _ _ _ _ hrest).trans
        (quiet_resume hR.quiet me _ _ _ _ _ _ hresume)
      refine Or.inr (Sim.SameHands.trans ?_ hborn.hands)
      exact ⟨rfl, fun _ => rfl, (createThread_frame hmemory).2⟩
  | switchTo target =>
      obtain ⟨_, _, _, hswitch, ⟨⟩⟩ := interp_bind_ok h
      obtain ⟨_, _, _, ⟨⟩, hswitch⟩ := interp_bind_ok hswitch
      obtain ⟨_, sim₁, s₁, hverify, hquery⟩ := interp_bind_ok hswitch
      obtain ⟨-, rfl⟩ := query_ok hquery
      exact Or.inl (within_verify hR _ _ _ _ _ _ _ hverify).hands
  | setThreadAttrPreemptive on =>
      obtain ⟨_, _, _, ⟨⟩, hthen⟩ := interp_bind_ok h
      obtain ⟨_, _, _, ⟨⟩, ⟨⟩⟩ := interp_bind_ok hthen
      exact Or.inl (Sim.sameHands_setThread rfl)
  | setThreadAttrLockFree on =>
      obtain ⟨_, _, _, ⟨⟩, hthen⟩ := interp_bind_ok h
      obtain ⟨_, _, _, ⟨⟩, hthen⟩ := interp_bind_ok hthen
      obtain ⟨_, _, _, hquery, hresume⟩ := interp_bind_ok hthen
      obtain ⟨-, rfl⟩ := query_ok hquery
      have hresumed := Sim.SameCrew.hands (quiet_resume hR.quiet me _ _ _ _ _ _ hresume)
      refine Or.inl (Sim.SameHands.trans ?_ hresumed)
      exact Sim.sameHands_setThread rfl
  | _ => exact hplain rfl

end Kernel

/-- A thread that is handed to the scheduler in a call is alive.  One that is neither alive
nor with the scheduler could be its ghost, so it does not come in. -/
theorem Parting.manned_call (hS : Parting S WF holdings) {me : ThreadId} {stat : HeapStat}
    {call : SysCall} {r : Option Answer} (hstays : call ≠ .threadExit) (hWF : WF s)
    (hplaced : sim.Placed (some me) none (holdings s)) (hmanned : sim.Manned (holdings s))
    (h : (Kernel.handleSystemCall me stat call sim).interp S.answer s =
      .ok ((.ok r, sim'), s')) : sim'.Manned (holdings s') := by
  have hafter : sim'.Placed (r.map fun _ => me) none (holdings s') :=
    (hS.ensured hWF (Kernel.ensures_handleSystemCall hplaced fun _ => trivial)
      h).2.placed
  intro u hu
  by_contra hgone
  have hpos : 0 < u := (hafter.filed.sound.valid u hu).1
  have hborn : u ≤ sim'.memory.threadCount := hafter.born u hu
  have hold : u ∉ sim.alive ∧ u ≤ sim.memory.threadCount := by
    rcases Kernel.hands_handleSystemCall hstays h with hsame | hsame
    · rw [hsame.crew] at hgone
      rw [hsame.count] at hborn
      exact ⟨hgone, hborn⟩
    · have halive : sim'.alive = sim.alive ++ [sim.memory.threadCount + 1] := hsame.crew
      have hcount : sim'.memory.threadCount = sim.memory.threadCount + 1 := hsame.count
      rw [halive, List.mem_append, List.mem_singleton, not_or] at hgone
      rw [hcount] at hborn
      exact ⟨hgone.1, Nat.le_of_lt_succ (lt_of_le_of_ne hborn hgone.2)⟩
  have hghost := hplaced.haunted hold.1 (fun hmem => hold.1 (hmanned u hmem)) hpos hold.2
  have hasks := Kernel.asks_handleSystemCall me stat hstays
  have hcalled := Kernel.Ensures.haunted hS.keeps nofun hWF hasks
    (Kernel.ensures_handleSystemCall hghost fun _ => trivial) h
  exact hcalled.placed.not_owned_of_haunted hu

/-! ### Burning -/

/-- The threads are gone, and nobody has come. -/
structure Holdings.Leaves (a a' : Holdings) (gone : List ThreadId) : Prop where
  least : a'.owned ≤ a.owned
  gone : ∀ t ∈ gone, t ∉ a'.owned
  slot : a'.slot = false

namespace Parting

/-- While threads are burnt nobody comes. -/
theorem shrinks (hS : Parting S WF holdings) {t : Scheduled α} {x : α}
    (halong : t.Along S.answer (fun s call =>
      (WF s ∧ (keeperSpec .apart).pre (holdings s) call) ∧ call.2.Burning) s)
    (hslot : (holdings s).slot = false) (hrun : t.interp S.answer s = .ok (x, s')) :
    (holdings s).Leaves (holdings s') [] := by
  have hkeep := halong.interp_keeps
    (I := fun u => (holdings u).owned ≤ (holdings s).owned ∧ (holdings u).slot = false)
    (fun call u r u' hC hI hanswer => ?_) ⟨le_refl _, hslot⟩ hrun
  · exact ⟨hkeep.1, fun t ht => absurd ht List.not_mem_nil, hkeep.2⟩
  · obtain ⟨⟨hWF, hpre⟩, hburning⟩ := hC
    obtain ⟨-, hgrants⟩ := hS.granted hWF hpre hanswer
    obtain ⟨view, q⟩ := call
    cases q with
    | remove t =>
        have hforgets : (holdings u).Forgets (holdings u') t := hgrants.post
        have hlets := hS.letsGo u (view, .remove t) hWF hI.2 hpre.1.owned u' hanswer
        exact ⟨(Kernel.Forgets.owned_le hforgets).trans hI.1, hlets.2⟩
    | queueRemove q t =>
        have hupdate := hgrants.post.2
        have howned : (holdings u').owned = (holdings u).owned := by
          rw [Holdings.owned, hupdate.held, hupdate.suspended, Holdings.owned]
        rw [howned, hupdate.slot]
        exact hI
    | _ => exact absurd hburning id

theorem burnThread (hS : Parting S WF holdings) {t : ThreadId} (hWF : WF s)
    (hlinked : sim.Linked none (holdings s)) (ht : t ∈ sim.alive)
    (hslot : (holdings s).slot = false) {u : Unit}
    (hrun : (Kernel.burnThread t sim).interp S.answer s = .ok ((.ok u, sim'), s')) :
    WF s' ∧ Burns sim (holdings s) [t] sim' (holdings s') ∧
      (holdings s).Leaves (holdings s') [t] := by
  have hens : Ensures .apart True (Kernel.burnThread t)
      (fun _ sim' a' => Burns sim (holdings s) [t] sim' a') sim (holdings s) :=
    Kernel.ensures_burnThread hlinked ht
  obtain ⟨hWF', hburns⟩ := hS.ensured hWF hens hrun
  refine ⟨hWF', hburns, ?_⟩
  have hasked : (Kernel.burnThread t sim).Along S.answer (fun _ call => call.2.Burning) s :=
    (Kernel.asks_burnThread t sim).along
  have halong := (wp_along_pre hS.keeps hWF (assumes s) hens).and hasked
  obtain ⟨_, sim₁, s₁, hremove, hrest⟩ := interp_bind_ok hrun
  obtain ⟨hanswer, rfl⟩ := Kernel.query_ok hremove
  obtain ⟨-, hgrants⟩ := hS.asked (q := .remove t) hWF hlinked.filed.sound trivial rfl hanswer
  have hforgets : (holdings s).Forgets (holdings s₁) t := hgrants.post
  obtain ⟨hnot, hslot₁⟩ := hS.letsGo s (_, .remove t) hWF hslot hlinked.filed.sound.owned s₁ hanswer
  -- What is left to do asks for no more threads.
  have hleaves := hS.shrinks (halong.after hremove) hslot₁ hrest
  refine ⟨hleaves.least.trans (Kernel.Forgets.owned_le hforgets), fun v hv => ?_, hleaves.slot⟩
  rw [List.mem_singleton.mp hv]
  exact fun hmem => hnot (Multiset.mem_of_le hleaves.least hmem)

/-- By induction on the threads to burn. -/
theorem burnThreads (hS : Parting S WF holdings) {burnt : List ThreadId} {u : Unit}
    (hWF : WF s) (hlinked : sim.Linked none (holdings s)) (hnodup : burnt.Nodup)
    (halive : ∀ t ∈ burnt, t ∈ sim.alive) (hslot : (holdings s).slot = false)
    (hrun : (Kernel.burnThreads burnt sim).interp S.answer s = .ok ((.ok u, sim'), s')) :
    WF s' ∧ Burns sim (holdings s) burnt sim' (holdings s') ∧
      (holdings s).Leaves (holdings s') burnt := by
  induction burnt generalizing sim s with
  | nil =>
      cases hrun
      exact ⟨hWF, Kernel.Burns.refl hlinked, le_refl _, fun t ht => absurd ht List.not_mem_nil,
        hslot⟩
  | cons t rest ih =>
      obtain ⟨hnot, hrest⟩ := List.nodup_cons.mp hnodup
      obtain ⟨_, sim₁, s₁, hfirst, hthen⟩ := interp_bind_ok hrun
      obtain ⟨hWF₁, hburns, hleaves⟩ :=
        hS.burnThread hWF hlinked (halive t List.mem_cons_self) hslot hfirst
      have hothers : ∀ v ∈ rest, v ∈ sim₁.alive := fun v hv => by
        refine (hburns.alive v).mpr ⟨halive v (List.mem_cons_of_mem t hv), fun hmem => ?_⟩
        exact hnot (List.mem_singleton.mp hmem ▸ hv)
      obtain ⟨hWF', hburns', hleaves'⟩ := ih hWF₁ hburns.linked hrest hothers hleaves.slot hthen
      refine ⟨hWF', hburns.trans hburns', hleaves'.least.trans hleaves.least, fun v hv => ?_,
        hleaves'.slot⟩
      rcases List.mem_cons.mp hv with rfl | hv
      · exact fun hmem =>
          hleaves.gone v (List.mem_singleton_self v) (Multiset.mem_of_le hleaves'.least hmem)
      · exact hleaves'.gone v hv

end Parting

/-- Whoever is burnt is gone on both sides. -/
theorem Kernel.Burns.manned {a a' : Holdings} {burnt : List ThreadId}
    (h : Burns sim a burnt sim' a') (hleaves : a.Leaves a' burnt) (hmanned : sim.Manned a) :
    sim'.Manned a' := fun t ht =>
  (h.alive t).mpr ⟨hmanned t (Multiset.mem_of_le hleaves.least ht), fun hmem =>
    hleaves.gone t hmem ht⟩

/-- All that is left can be burnt. -/
structure Sim.Burnable (sim : Sim) (a : Holdings) : Prop where
  linked : sim.Linked none a
  manned : sim.Manned a
  slot : a.slot = false

/-! ### Exits -/

section Exits

variable {a a' : Holdings} {t : ThreadId}

theorem Sim.Placed.linked_left (h : sim.Placed (some t) none a) (hkeeps : a.Keeps a') :
    (Kernel.left sim t).Linked none a' := by
  have hsame : sim.Unmoved a sim a' t := { Sim.Unmoved.refl sim a t with keeps := hkeeps }
  obtain ⟨hstopped, hdetached⟩ := (h.samePlaces hsame.toSamePlaces).stop
  exact Kernel.linked_destroyThread hstopped.toLinked (Or.inr rfl) hdetached.waiting
    hdetached.armed

theorem Sim.Placed.burnable_left (h : sim.Placed (some t) none a) (hmanned : sim.Manned a)
    (hkeeps : a.Keeps a') : (Kernel.left sim t).Burnable a' where
  linked := h.linked_left hkeeps
  manned u hu := by
    rw [hkeeps.owned] at hu
    have hne : u ≠ t := fun heq => (h.runs t rfl).owned (heq ▸ hu)
    exact (List.mem_erase_of_ne hne).mpr (hmanned u hu)
  slot := hkeeps.slot.trans (h.runs t rfl).slot

end Exits

namespace Parting

theorem exits (hS : Parting S WF holdings) {t : ThreadId} {view : KernelView}
    {x : Except String Unit} (hWF : WF s) (hsound : (holdings s).Sound)
    (hanswer : S.answer (view, .exit t) s = .ok (x, s')) :
    WF s' ∧ (holdings s).Keeps (holdings s') := by
  obtain ⟨hWF', hgrants⟩ := hS.asked (q := .exit t) hWF hsound trivial rfl hanswer
  exact ⟨hWF', hgrants.post⟩

/-- The detached threads go with the main thread. -/
theorem deserted (hS : Parting S WF holdings) (hWF : WF s) (h : sim.Burnable (holdings s))
    (hends : Deserted S sim s sim' s') : WF s' ∧ sim'.Burnable (holdings s') := by
  obtain ⟨⟨rfl, rfl⟩ | hburn, -⟩ := hends
  · exact ⟨hWF, h⟩
  · obtain ⟨hWF', hburns, hleaves⟩ := hS.burnThreads hWF h.linked (h.linked.nodup.filter _)
      (fun u hu => List.mem_of_mem_filter hu) h.slot hburn
    exact ⟨hWF', hburns.linked, hburns.manned hleaves h.manned, hleaves.slot⟩

theorem exited (hS : Parting S WF holdings) {t : ThreadId} (hWF : WF s)
    (hplaced : sim.Placed (some t) none (holdings s)) (hmanned : sim.Manned (holdings s))
    (h : Exited S sim s t sim' s') : sim'.Manned (holdings s') := by
  cases h with
  | child hexit hmain =>
      obtain ⟨-, hkeeps⟩ := hS.exits hWF hplaced.filed.sound hexit
      exact (hplaced.burnable_left hmanned hkeeps).manned
  | main hexit hdeserted =>
      obtain ⟨hWF₁, hkeeps⟩ := hS.exits hWF hplaced.filed.sound hexit
      obtain ⟨-, hburnable⟩ :=
        hS.deserted hWF₁ (hplaced.burnable_left hmanned hkeeps) hdeserted
      exact hburnable.manned

/-! ### What breaks off can be burnt -/

/-- The scheduler was asked who is runnable, and nothing else. -/
theorem looked (hS : Parting S WF holdings) {m : KernelM α} {post : α → Sim → Holdings → Prop}
    {y : Except Thrown α} (hWF : WF s) (hens : Ensures .apart True m post sim (holdings s))
    (hasks : Asks (fun q => Replay.looksIdle q = true) m)
    (hrun : (m sim).interp S.answer s = .ok ((y, sim'), s')) : holdings s' = holdings s := by
  have hasked : (m sim).Along S.answer (fun _ call => Replay.looksIdle call.2 = true) s :=
    (hasks sim).along
  have halong := (wp_along_pre hS.keeps hWF (assumes s) hens).and hasked
  refine halong.interp_keeps (I := fun u => holdings u = holdings s)
    (fun call u r u' hC hI hanswer => ?_) rfl hrun
  obtain ⟨⟨hWF, hpre⟩, hlooks⟩ := hC
  obtain ⟨-, hgrants⟩ := hS.granted hWF hpre hanswer
  have hpost := hgrants.post
  obtain ⟨view, q⟩ := call
  cases q with
  | isIdle => exact hpost.2.trans hI
  | isSuspended t => exact hpost.2.trans hI
  | _ => cases hlooks

theorem ensures_upkeep {links : Links} {stuck : Prop} {a : Holdings} (h : sim.Placed none none a) :
    Ensures links stuck (Kernel.upkeep (Kernel.nextIter sim))
      (fun _ sim' a' => Kernel.Later sim a sim' a') (Kernel.nextIter sim) a := by
  have hsame : sim.SamePlaces a (Kernel.nextIter sim) a :=
    Sim.samePlaces_of_fields rfl rfl rfl rfl rfl (Holdings.Keeps.refl a)
  have hplaced := h.samePlaces hsame
  unfold Kernel.upkeep
  split
  · exact (Kernel.ensures_maintenance hplaced hsame rfl rfl).mono fun _ _ _ hlater => hlater.1
  · exact ⟨hplaced, Sim.passes_of_clock hsame rfl rfl⟩

theorem broken (hS : Parting S WF holdings) (hWF : WF s)
    (hplaced : sim.Placed none none (holdings s)) (hmanned : sim.Manned (holdings s))
    (h : Breaks S sim s sim' s') :
    sim'.Manned (holdings s') ∧ (holdings s').slot = false ∧ sim'.status ≠ none := by
  have hsound := hplaced.filed.sound
  cases h with
  | deadlock hidle hcheck =>
      obtain ⟨hWF₁, hgrants⟩ := hS.asked (q := .isIdle) hWF hsound trivial rfl hidle
      obtain ⟨hheld, hsame⟩ := hgrants.post
      rw [← hsame] at hplaced hmanned
      have hlooked := hS.looked hWF₁ (Kernel.ensures_checkDeadlock hplaced fun _ => trivial)
        (Kernel.asks_checkDeadlock rfl fun _ => rfl) hcheck
      obtain ⟨-, hhalts⟩ := Kernel.checkDeadlock_throws hcheck
      rw [hlooked]
      refine ⟨hmanned.shrink (le_refl _) hhalts.crew, ?_, hhalts.status⟩
      rw [hsame]
      exact hS.aside _ hWF (hheld.mp rfl)
  | @picks sim₁ _ s₁ s₂ _ picked hidle hupkeep hpick hhalts =>
      obtain ⟨hWF₁, hgrants⟩ := hS.asked (q := .isIdle) hWF hsound trivial rfl hidle
      have hsame := hgrants.post.2
      rw [← hsame] at hplaced hmanned
      obtain ⟨hWF₂, hlater⟩ := hS.ensured hWF₁ (ensures_upkeep hplaced) hupkeep
      have hmanned₂ := hlater.passes.manned hplaced.toLinked hmanned
      have hcount : (holdings s₂).pre (sim₁.view, .pickNext) := fun t _ =>
        Multiset.nodup_iff_count_le_one.mp hlater.placed.filed.sound.owned t
      obtain ⟨-, hgrants₂⟩ :=
        hS.asked (q := .pickNext) hWF₂ hlater.placed.filed.sound hcount rfl hpick
      cases picked with
      | error why =>
          have hle : (holdings s').owned ≤ (holdings s₂).owned := hgrants₂.pruned
          exact ⟨hmanned₂.shrink hle hhalts.crew, hS.pruned _ _ _ _ hWF₂ hpick, hhalts.status⟩
      | ok next =>
          obtain ⟨hheld, hsuspended, -, hslot, -⟩ := hgrants₂.post
          have hle : (holdings s').owned ≤ (holdings s₂).owned := by
            rw [Holdings.owned, Holdings.owned, hheld, hsuspended, Multiset.cons_add]
            exact Multiset.le_cons_self _ next
          exact ⟨hmanned₂.shrink hle hhalts.crew, hslot, hhalts.status⟩

end Parting

namespace Parting

theorem call_broken (hS : Parting S WF holdings) {me : ThreadId} {stat : HeapStat}
    {call : SysCall} (hWF : WF s) (hplaced : sim.Placed (some me) none (holdings s))
    (hmanned : sim.Manned (holdings s))
    (h : (Kernel.handleSystemCall me stat call sim).interp S.answer s =
      .ok ((.error .sysAbortEx, sim'), s')) :
    sim'.Manned (holdings s') ∧ (holdings s').slot = false ∧ sim'.status ≠ none := by
  have hslot := (hplaced.runs me rfl).slot
  have hsound := hplaced.filed.sound
  by_cases hexit : call = .threadExit
  · subst hexit
    have hthrows := Kernel.throws_first (fun _ => Kernel.unbroken_pure none) h
    rcases Kernel.sysThreadExit_throws hthrows with
      ⟨why, hanswer, hhalts⟩ | ⟨s₁, sim₁, hanswer, hdeserted, hhalts⟩
    · obtain ⟨-, hkeeps⟩ := hS.exits hWF hsound hanswer
      exact ⟨hmanned.shrink hkeeps.owned.le hhalts.crew, hkeeps.slot.trans hslot, hhalts.status⟩
    · obtain ⟨hWF₁, hkeeps⟩ := hS.exits hWF hsound hanswer
      obtain ⟨-, hburnable⟩ :=
        hS.deserted hWF₁ (hplaced.burnable_left hmanned hkeeps) hdeserted
      exact ⟨hburnable.manned.shrink (le_refl _) hhalts.crew, hburnable.slot, hhalts.status⟩
  · obtain ⟨hhalts, hsame⟩ := Kernel.handleSystemCall_throws hexit h
    have heq : holdings s' = holdings s := by
      rcases hsame with rfl | ⟨r, hanswer⟩
      · rfl
      · exact (hS.asked (q := .spuriousWakeup) hWF hsound trivial rfl hanswer).2.post
    rw [heq]
    exact ⟨hmanned.shrink (le_refl _) hhalts.crew, hslot, hhalts.status⟩

section Step

variable {program : Program U} {control : Control} {space : UserSpace U}

/-- What a turn leaves that breaks off. -/
theorem step_broken (hS : Parting S WF holdings) (hWF : WF s)
    (hplaced : sim.Placed control.running none (holdings s)) (hmanned : sim.Manned (holdings s))
    (h : (Kernel.step program control space sim).interp S.answer s =
      .ok ((.error .sysAbortEx, sim'), s')) :
    WF s' ∧ sim'.Burnable (holdings s') ∧ sim'.status ≠ none := by
  obtain ⟨hWF', hlinked⟩ := hS.thrown hWF
    (Kernel.ensures_step hplaced fun _ => trivial) h
  suffices hrest : sim'.Manned (holdings s') ∧ (holdings s').slot = false ∧
      sim'.status ≠ none from ⟨hWF', ⟨hlinked, hrest.1, hrest.2.1⟩, hrest.2.2⟩
  cases control with
  | head budget =>
      have hhead := Kernel.throws_first (fun _ => Kernel.unbroken_pure _) h
      exact hS.broken hWF hplaced hmanned (Kernel.breaks_of_stepHead hhead)
  | run t resumption budget =>
      cases hresume : program.resume t resumption space.user with
      | mk request user =>
          simp only [Kernel.step, hresume] at h
          cases request with
          | sys call =>
              have hsys := Kernel.throws_first (fun _ => Kernel.unbroken_pure _) h
              exact hS.call_broken hWF hplaced hmanned (Kernel.stepSys_throws hsys)
          | statics op =>
              rcases interp_bind_error h with hchecked | ⟨_, _, _, -, hthen⟩
              · exact ((Kernel.unbroken_checked _).elim hchecked).elim
              · cases hthen
  | finished => cases h

theorem step_manned (hS : Parting S WF holdings) (hWF : WF s)
    (hplaced : sim.Placed control.running none (holdings s)) (hmanned : sim.Manned (holdings s))
    {result : Control × UserSpace U}
    (h : (Kernel.step program control space sim).interp S.answer s =
      .ok ((.ok result, sim'), s')) : sim'.Manned (holdings s') := by
  cases control with
  | head budget =>
      have hturned := (hS.ensured hWF
        (Kernel.ensures_step hplaced fun _ => trivial) h).2
      exact Kernel.HeadTurn.manned hturned.1 hplaced.toLinked hmanned
  | run t resumption budget =>
      cases hresume : program.resume t resumption space.user with
      | mk request user =>
          simp only [Kernel.step, hresume] at h
          cases request with
          | sys call =>
              obtain ⟨control₁, sim₁, s₁, hsys, ⟨⟩⟩ := interp_bind_ok h
              by_cases hexit : call = .threadExit
              · subst hexit
                obtain ⟨answer, sim₂, s₂, hcall, hthen⟩ := interp_bind_ok hsys
                obtain ⟨_, sim₃, s₃, hgone, ⟨⟩⟩ := interp_bind_ok hcall
                cases hthen
                exact hS.exited hWF hplaced hmanned (Kernel.sysThreadExit_ok hgone)
              · cases Kernel.serves_of_stepSys hsys with
                | answers hcall =>
                    have hcalled := hS.manned_call hexit hWF hplaced hmanned hcall
                    exact fun u hu => hcalled u hu
                | suspends hcall => exact hS.manned_call hexit hWF hplaced hmanned hcall
          | statics op =>
              obtain ⟨reply, sim₁, s₁, hop, ⟨⟩⟩ := interp_bind_ok h
              cases hexec : Statics.exec space.statics op with
              | error p =>
                  rw [hexec] at hop
                  cases hop
              | ok value =>
                  rw [hexec] at hop
                  cases hop
                  exact hmanned
  | finished =>
      cases h
      exact hmanned

end Step

/-- Nobody is left in the scheduler either. -/
theorem burnt (hS : Parting S WF holdings) {statics statics' : Statics.Manager} (hWF : WF s)
    (h : sim.Burnable (holdings s))
    (hrun : (Kernel.burn statics sim).interp S.answer s = .ok ((.ok statics', sim'), s')) :
    (holdings s').owned = 0 := by
  obtain ⟨_, _, _, ⟨⟩, hthen⟩ := interp_bind_ok hrun
  split at hthen
  · obtain ⟨_, sim₁, s₁, hburn, hthen⟩ := interp_bind_ok hthen
    obtain ⟨_, _, _, ⟨⟩, hthen⟩ := interp_bind_ok hthen
    obtain ⟨queue, sim₂, s₂, hreset, hthen⟩ := interp_bind_ok hthen
    obtain ⟨_, _, _, ⟨⟩, ⟨⟩⟩ := interp_bind_ok hthen
    obtain ⟨-, -, hleaves⟩ :=
      hS.burnThreads hWF h.linked h.linked.nodup (fun _ hu => hu) h.slot hburn
    have hsame : s' = s₁ := by
      cases hvalue : sim₁.timerQueue.reset with
      | error p =>
          rw [hvalue] at hreset
          cases hreset
      | ok value =>
          rw [hvalue] at hreset
          cases hreset
          rfl
    rw [hsame]
    refine Multiset.eq_zero_of_forall_notMem fun u hu => ?_
    exact hleaves.gone u (h.manned u (Multiset.mem_of_le hleaves.least hu)) hu
  · cases hthen

end Parting

/-! ### Runs -/

namespace Machine

variable {program : Program U} {m m' : Machine U σ}

/-- Everything is in its place, and nobody is left of those who are gone. -/
structure Kempt (WF : σ → Prop) (holdings : σ → Holdings) (m : Machine U σ) : Prop
    extends m.Orderly WF holdings where
  manned : m.sim.Manned (holdings m.scheduler)

/-- The main thread is the only one at first, and the scheduler has it. -/
theorem launch_ok {params : Params} {space : UserSpace U} (h : launch S params space s = some m) :
    ∃ s₀, S.answer ((Sim.init params true).view, .start) s = .ok ((), s₀) ∧
      S.answer (m.sim.view, .spawn 1) s₀ = .ok ((), m.scheduler) ∧
      m.sim.alive = [1] ∧ (m.sim.threads 1).main = true := by
  unfold launch at h
  split at h
  · rename_i sim scheduler hrun
    cases h
    rw [Kernel.startLoop_eq, Interaction.interp_ask] at hrun
    cases hanswer : S.answer ((Sim.init params true).view, .start) s with
    | error p =>
        rw [hanswer] at hrun
        cases hrun
    | ok reply =>
        obtain ⟨_, s₀⟩ := reply
        rw [hanswer] at hrun
        obtain ⟨main, sim₁, s₁, hcreate, hthen⟩ := interp_bind_ok hrun
        obtain ⟨rfl, rfl, memory, hmemory, rfl⟩ := Kernel.createThread_ok hcreate
        obtain ⟨_, _, _, ⟨⟩, hquery⟩ := interp_bind_ok hthen
        obtain ⟨hspawn, rfl⟩ := Kernel.query_ok hquery
        exact ⟨s₁, rfl, hspawn, rfl, rfl⟩
  · cases h

theorem launch_kempt (hS : Parting S WF holdings) {params : Params} {space : UserSpace U}
    (hfresh : Fresh WF holdings s) (h : launch S params space s = some m) :
    m.Kempt WF holdings := by
  refine ⟨launch_orderly hS.keeps hfresh h, ?_⟩
  obtain ⟨s₀, hstart, hspawn, halive, -⟩ := launch_ok h
  obtain ⟨hWF₀, hgrants⟩ :=
    hS.asked (q := .start) hfresh.wf hfresh.sound hfresh.vacant rfl hstart
  have hempty : holdings s₀ = Holdings.empty := hgrants.post
  have hlacks : (holdings s₀).Lacks 1 := by
    rw [hempty]
    exact ⟨Multiset.notMem_zero 1, fun q => Multiset.notMem_zero 1⟩
  have hsound : (holdings s₀).Sound := hempty ▸ Agrees.start.sound
  obtain ⟨-, hgrants₁⟩ := hS.asked (q := .spawn 1) hWF₀ hsound hlacks rfl hspawn
  intro t ht
  have htakes := hgrants₁.post.1.owned
  rw [htakes, hempty] at ht
  rw [halive, List.mem_singleton]
  exact (Multiset.mem_cons.mp ht).resolve_right (Multiset.notMem_zero t)

theorem next_kempt (hS : Parting S WF holdings) {e : LoopEvent} (h : m.Kempt WF holdings)
    (hnext : m.next S program e = some m') : m'.Kempt WF holdings := by
  refine ⟨next_orderly hS.keeps h.toOrderly nofun hnext, ?_⟩
  cases e with
  | turn =>
      rcases steps_or_burns hnext with hstep | ⟨sim₁, s₁, statics, hraise, hburn, -⟩
      · exact hS.step_manned h.wf h.placed h.manned hstep
      · obtain ⟨hWF₁, hburnable, -⟩ := hS.step_broken h.wf h.placed h.manned hraise
        have hnone := hS.burnt hWF₁ hburnable hburn
        intro t ht
        rw [hnone] at ht
        exact absurd ht (Multiset.notMem_zero t)
  | runFor budget =>
      rw [next] at hnext
      split at hnext
      · cases hnext
        exact h.manned
      · cases hnext

/-- By induction on the run. -/
theorem reached_kempt (hS : Parting S WF holdings) {C : Machine U σ → LoopEvent → Prop}
    (h : Reached S program (Fresh WF holdings) C m) : m.Kempt WF holdings := by
  obtain ⟨params, space, s, m₀, hfresh, hlaunch, hreach⟩ := h
  exact hreach.invariant (launch_kempt hS hfresh hlaunch) fun m e m' hkempt _ hnext =>
    next_kempt hS hkempt hnext

end Machine

end TwistSim

/-
How threads come and go: a new thread is in hand until the scheduler takes it, and a
burnt one is taken out of its futex and its timer before it is destroyed.
-/
import TwistSim.Handlers

namespace TwistSim

open Effect
open Sim (Linked Placed Untouched Place Runs Detached Moves)

/-! ### A new thread -/

/-- The new thread is in hand. -/
structure Sim.Born (running : Option ThreadId) (sim : Sim) (a : Holdings) (id : ThreadId)
    (sim' : Sim) : Prop where
  placed : sim'.Placed running (some id) a
  detached : sim'.Detached a id
  free : (sim'.threads id).Free
  unborn : id ∉ sim.alive
  alive : sim'.alive = sim.alive ++ [id]
  others : ∀ u, u ≠ id → sim.Untouched a sim' a u
  ticks : sim'.ticks = sim.ticks
  params : sim'.params = sim.params

namespace Kernel

variable {links : Links} {stuck : Prop} {sim : Sim} {a : Holdings} {t me : ThreadId}
  {running : Option ThreadId}

theorem memory_createThread {m m' : Memory} {id : ThreadId}
    (h : m.createThread = .ok (id, m')) :
    id = m.threadCount + 1 ∧ m'.threadCount = m.threadCount + 1 ∧
      m.threadCount < maxThreads := by
  unfold Memory.createThread at h
  split at h
  · cases h
    exact ⟨rfl, rfl, ‹_›⟩
  · cases h

theorem born_of_createThread {memory : Memory} {id : ThreadId}
    (h : sim.Placed running none a) (hcreate : sim.memory.createThread = .ok (id, memory)) :
    sim.Born running a id
      { sim.setThread id Thread.reset with memory, alive := sim.alive ++ [id] } := by
  obtain ⟨hid, hcount, hroom⟩ := memory_createThread hcreate
  have hbeyond : ∀ u, u ≤ sim.memory.threadCount → u ≠ id := fun u hu heq =>
    Nat.not_succ_le_self _ (hid ▸ heq ▸ hu)
  have hunborn : id ∉ sim.alive := fun hmem => hbeyond id (h.known id hmem).2 rfl
  have hmem : ∀ u, u ∈ sim.alive ++ [id] ↔ u ∈ sim.alive ∨ u = id := fun u => by
    rw [List.mem_append, List.mem_singleton]
  have hold : ∀ u, u ∈ sim.alive ++ [id] → u ≠ id → u ∈ sim.alive := fun u hu hne =>
    ((hmem u).mp hu).resolve_right hne
  have hothers : ∀ u, u ≠ id → Function.update sim.threads id Thread.reset u =
      sim.threads u := fun u hu => Function.update_of_ne hu _ _
  have huntouched : ∀ u, u ≠ id → sim.Untouched a
      { sim.setThread id Thread.reset with memory, alive := sim.alive ++ [id] } a u :=
    fun u hu => ⟨(hmem u).trans (or_iff_left hu), hothers u hu, Iff.rfl, fun _ => Iff.rfl,
      Iff.rfl, rfl⟩
  obtain ⟨hwaiting, harmed⟩ := h.gone id hunborn
  refine ⟨⟨⟨h.filed, h.indexed, ?_, ?_, ?_, ?_, ?_, ?_, ?_⟩, ?_, ?_⟩, ⟨?_, ?_, hwaiting,
    harmed⟩, ?_, hunborn, rfl, huntouched, rfl, rfl⟩
  · exact h.nodup.append (List.nodup_singleton id)
      (List.disjoint_singleton.mpr hunborn)
  · intro u hu
    change 0 < u ∧ u ≤ memory.threadCount
    rw [hcount]
    rcases (hmem u).mp hu with hu | rfl
    · exact ⟨(h.known u hu).1, Nat.le_succ_of_le (h.known u hu).2⟩
    · exact ⟨hid ▸ Nat.succ_pos _, Nat.le_of_eq hid⟩
  · change memory.threadCount ≤ maxThreads
    rw [hcount]
    exact hroom
  · intro u hu
    change u ≤ memory.threadCount
    rw [hcount]
    exact Nat.le_succ_of_le (h.born u hu)
  · intro u hu hne key
    have hut : u ≠ id := fun heq => hne (heq ▸ rfl)
    change _ ↔ (Function.update sim.threads id Thread.reset u).futex = some key
    rw [hothers u hut]
    exact h.futex u (hold u hu hut) nofun key
  · intro u hu hne
    have hut : u ≠ id := fun heq => hne (heq ▸ rfl)
    change _ ↔ (Function.update sim.threads id Thread.reset u).timer = true
    rw [hothers u hut]
    exact h.timer u (hold u hu hut) nofun
  · intro u hu
    exact h.gone u fun hmem' => hu ((hmem u).mpr (Or.inl hmem'))
  · intro u hu hne hnot
    have hut : u ≠ id := fun heq => hnot (heq ▸ rfl)
    exact (huntouched u hut).place (h.place u (hold u hu hut) hne nofun)
  · intro u hu
    have hruns := h.runs u hu
    have hsame := huntouched u fun heq => hunborn (heq ▸ hruns.alive)
    refine ⟨hsame.alive.mpr hruns.alive, hruns.owned, ?_, ?_, ?_, hruns.slot⟩
    · rw [hsame.thread, hruns.state]
    · rw [hsame.thread, hruns.futex]
    · rw [hsame.thread, hruns.timer]
  · exact (hmem id).mpr (Or.inr rfl)
  · exact fun hmem' => hbeyond id (h.born id hmem') rfl
  · change (Function.update sim.threads id Thread.reset id).Free
    rw [Function.update_self]
    exact ⟨Or.inl rfl, rfl, rfl⟩

theorem ensures_createThread (h : sim.Placed running none a) :
    Ensures links stuck createThread
      (fun id sim' a' => a' = a ∧ sim.Born running a id sim') sim a := by
  unfold createThread
  refine ensures_get ?_
  refine (ensures_checked (fun r hr => ⟨rfl, rfl, hr⟩) fun p hp => ?_ :
    Ensures links stuck _ (fun r sim' a' => sim' = sim ∧ a' = a ∧
      sim.memory.createThread = .ok r) sim a).bind ?_
  · unfold Memory.createThread at hp
    split at hp
    · cases hp
    · cases hp
      decide
  · rintro ⟨id, memory⟩ sim a ⟨rfl, rfl, hcreate⟩
    exact ⟨rfl, born_of_createThread h hcreate⟩

theorem memory_spawn {memory : Memory} {parent child : ThreadId}
    (h : child ≤ memory.threadCount) : ∃ m, memory.spawn parent child = .ok m ∧
      m.threadCount = memory.threadCount := by
  unfold Memory.spawn
  rw [Memory.tick_eq (by exact h)]
  exact ⟨_, rfl, rfl⟩

/-- The record of the new thread is filled in, and the scheduler takes it. -/
theorem ensures_release_child {id : ThreadId} {sim₁ : Sim}
    (hborn : sim.Born running a id sim₁) (hrun : running ≠ some id) :
    Ensures links stuck (query (.spawn id))
      (fun _ sim' a' => sim'.Placed running none a' ∧ sim₁.Moves a sim' a' id ∧
        id ∈ a'.owned) sim₁ a :=
  ensures_hand hborn.placed hborn.detached hrun hborn.free rfl (fun hlacks => hlacks) trivial
    (fun _ _ hpost => ⟨hpost.1, fun _ => hpost.2⟩)
    fun _ _ hplaced hmoves howned => ⟨hplaced, hmoves, howned⟩

/-- What does not move anybody does not matter to a new thread. -/
theorem Born.unmoved {id : ThreadId} {sim₁ sim₂ : Sim} (h : sim.Born running a id sim₁)
    (hsame : sim₁.Unmoved a sim₂ a id) : sim.Born running a id sim₂ where
  placed := h.placed.samePlaces hsame.toSamePlaces
  detached := by
    refine ⟨hsame.alive.symm ▸ h.detached.alive, h.detached.owned, ?_, ?_⟩
    · rw [hsame.waiters]
      exact h.detached.waiting
    · rw [Sim.Armed, hsame.timerQueue]
      exact h.detached.armed
  free := by
    have hrole := hsame.role id
    refine ⟨?_, hrole.futex.trans h.free.futex, hrole.timer.trans h.free.timer⟩
    rw [hrole.state]
    exact h.free.state
  unborn := h.unborn
  alive := hsame.alive.trans h.alive
  others u hu := (h.others u hu).trans (hsame.untouched hu)
  ticks := hsame.ticks.trans h.ticks
  params := hsame.params.trans h.params

theorem ensures_sysSpawn (h : sim.Placed (some me) none a) :
    Ensures links stuck (sysSpawn me)
      (fun _ sim' a' => sim'.Placed (some me) none a' ∧ sim.Wakes a sim' a' me 0) sim a := by
  unfold sysSpawn
  refine (ensures_createThread h).bind ?_
  rintro id sim₁ a ⟨rfl, hborn⟩
  have hme : id ≠ me := fun heq => hborn.unborn (heq ▸ (h.runs me rfl).alive)
  refine Ensures.bind (P := fun _ sim' a' => a' = a ∧ sim.Born (some me) a id sim')
    ⟨rfl, Born.unmoved hborn (Sim.unmoved_setThread ⟨rfl, rfl, rfl⟩)⟩ ?_
  rintro _ sim₂ a ⟨rfl, hborn⟩
  refine Ensures.bind (P := fun _ sim' a' => a' = a ∧ sim.Born (some me) a id sim') ?_ ?_
  · unfold onMemory' onMemory
    refine ensures_get ?_
    obtain ⟨m, hspawn, hcount⟩ := @memory_spawn sim₂.memory me id
      (hborn.placed.known id hborn.detached.alive).2
    dsimp only
    rw [hspawn]
    exact ⟨rfl, Born.unmoved hborn (unmoved_memory hcount)⟩
  · rintro _ sim₃ a ⟨rfl, hborn⟩
    refine (ensures_release_child hborn fun heq => hme (Option.some.inj heq).symm).bind ?_
    rintro _ sim' a' ⟨hplaced, hmoves, howned⟩
    have halive : sim'.alive = sim.alive ++ [id] := hmoves.alive.trans hborn.alive
    refine ⟨hplaced, fun u hu hnot => ?_, fun u _ halive _ _ => ?_, fun u hu => absurd hu (Multiset.notMem_zero u),
      hmoves.ticks.trans hborn.ticks, hmoves.params.trans hborn.params⟩
    · rw [halive, List.mem_append, List.mem_singleton, or_iff_right hnot] at hu
      subst hu
      exact hplaced.ready (halive ▸ List.mem_append_right _ (List.mem_singleton_self u))
        (fun heq => hme (Option.some.inj heq).symm) howned
    have hne : u ≠ id := fun heq => hborn.unborn (heq ▸ halive)
    exact ((hborn.others u hne).trans (hmoves.others u hne)).stays

/-! ### Destroying a thread -/

theorem linked_destroyThread {inHand : Option ThreadId} (h : sim.Linked inHand a)
    (hhand : inHand = none ∨ inHand = some t) (hwaiting : ∀ key, t ∉ sim.waiters a key)
    (harmed : ¬ sim.Armed t) :
    Sim.Linked none { sim with alive := sim.alive.erase t } a := by
  have hother : ∀ u ∈ sim.alive.erase t, u ∈ sim.alive ∧ inHand ≠ some u := by
    intro u hu
    obtain ⟨hne, halive⟩ := (h.nodup.mem_erase_iff).mp hu
    refine ⟨halive, ?_⟩
    rcases hhand with rfl | rfl
    · nofun
    · exact fun heq => hne (Option.some.inj heq).symm
  refine ⟨h.filed, h.indexed, h.nodup.erase t, fun u hu => h.known u (hother u hu).1,
    h.count, h.born, fun u hu _ => h.futex u (hother u hu).1 (hother u hu).2,
    fun u hu _ => h.timer u (hother u hu).1 (hother u hu).2, fun u hu => ?_⟩
  by_cases hut : u = t
  · subst hut
    exact ⟨hwaiting, harmed⟩
  · exact h.gone u fun hmem => hu ((List.mem_erase_of_ne hut).mpr hmem)

/-- What remains when some threads are burnt. -/
structure Burns (sim : Sim) (a : Holdings) (burnt : List ThreadId) (sim' : Sim)
    (a' : Holdings) : Prop where
  linked : sim'.Linked none a'
  alive : ∀ u, u ∈ sim'.alive ↔ u ∈ sim.alive ∧ u ∉ burnt
  others : ∀ u, u ∉ burnt → sim.Untouched a sim' a' u
  ticks : sim'.ticks = sim.ticks
  params : sim'.params = sim.params
  count : sim'.memory.threadCount = sim.memory.threadCount
  status : sim'.status = sim.status

theorem Burns.placed {burnt : List ThreadId} {sim' : Sim} {a' : Holdings}
    (h : Burns sim a burnt sim' a') (hplaced : sim.Placed none none a) :
    sim'.Placed none none a' where
  toLinked := h.linked
  place u hu _ _ := by
    obtain ⟨halive, hnot⟩ := (h.alive u).mp hu
    exact (h.others u hnot).place (hplaced.place u halive nofun nofun)
  runs := nofun

/-- `Remove` makes the scheduler forget the thread; with shared links it takes it out of
its wait queue. -/
theorem ensures_remove (hsound : a.Sound) :
    Ensures links stuck (query (.remove t))
      (fun _ sim' a' => sim' = sim ∧ (a.Forgets a' t ∨ links = .shared ∧
        (∃ q, t ∈ a.waiters q) ∧ a'.Sound ∧ a'.Lacks t)) sim a := by
  simp only [Ensures, query, wp_bind, wp_get, wp_ask]
  refine fun _ => ⟨⟨hsound, fun _ => ⟨trivial, nofun⟩⟩, fun _ => trivial, ?_⟩
  intro r a' ⟨hgrants, hsnatched, _⟩
  refine ⟨trivial, ?_⟩
  by_cases hsnatches : a.Snatches links (sim.view, .remove t)
  · obtain ⟨hshared, hnot⟩ := hsnatches
    refine Or.inr ⟨hshared, ?_, hsnatched ⟨hshared, hnot⟩⟩
    by_contra hnone
    exact hnot fun _ q hmem => hnone ⟨q, hmem⟩
  · exact Or.inl (hgrants hsnatches id).post

theorem Forgets.owned_le {a' : Holdings} (h : a.Forgets a' t) : a'.owned ≤ a.owned :=
  add_le_add h.least.1 h.least.2

theorem Forgets.mem_owned {a' : Holdings} {u : ThreadId} (h : a.Forgets a' t) (hu : u ≠ t) :
    u ∈ a'.owned ↔ u ∈ a.owned := by
  rw [← Multiset.count_pos, ← Multiset.count_pos, Holdings.owned, Holdings.owned,
    Multiset.count_add, Multiset.count_add, h.held u hu, h.suspended u hu]

/-- The scheduler has forgotten the thread. -/
theorem linked_forgets {a' : Holdings} (h : sim.Linked none a) (hforgets : a.Forgets a' t) :
    sim.Linked none a' ∧ ∀ u, u ≠ t → sim.Untouched a sim a' u := by
  have hwaiters : sim.waiters a' = sim.waiters a :=
    waiters_eq (h.filed.shrink hforgets.same (Forgets.owned_le hforgets))
  refine ⟨⟨?_, h.indexed, h.nodup, h.known, h.count, fun u hu => ?_, ?_, h.timer, ?_⟩, ?_⟩
  · rw [hwaiters]
    exact h.filed.shrink hforgets.same (Forgets.owned_le hforgets)
  · exact h.born u (Multiset.mem_of_le (Forgets.owned_le hforgets) hu)
  · rw [hwaiters]
    exact h.futex
  · rw [hwaiters]
    exact h.gone
  · intro u hu
    refine ⟨Iff.rfl, rfl, Forgets.mem_owned hforgets hu, fun key => ?_, Iff.rfl, rfl⟩
    rw [hwaiters]

/-- The links of the thread are being cut. -/
structure Cut (sim : Sim) (a : Holdings) (t : ThreadId) (sim' : Sim) (a' : Holdings) :
    Prop where
  linked : sim'.Linked (some t) a'
  moves : sim.Moves a sim' a' t
  armed : ¬ sim'.Armed t
  status : sim'.status = sim.status

theorem ensures_cutTimer {a₀ : Holdings} {m : KernelM Unit}
    {post : Unit → Sim → Holdings → Prop} (ht : t ∈ sim.alive) (h : sim.Linked none a)
    (hsame : ∀ u, u ≠ t → sim.Untouched a₀ sim a u)
    (hf : ∀ sim', Cut sim a₀ t sim' a → sim'.waiters a = sim.waiters a →
      Ensures links stuck m post sim' a) :
    Ensures links stuck
      (if (sim.threads t).timer = true then removeTimer t >>= fun _ => m else m)
      post sim a := by
  have hmoves₀ : sim.Moves a₀ sim a t := ⟨hsame, rfl, rfl, rfl, rfl⟩
  split
  · rename_i htimer
    refine (ensures_removeTimer h.indexed ((h.timer t ht nofun).mpr htimer)).bind ?_
    rintro _ sim₁ a ⟨-, rfl, hchange⟩
    have hmoves : sim.Moves a sim₁ a t := Sim.moves_of_timerChange hchange
    refine hf sim₁ ⟨?_, hmoves₀.trans hmoves, hchange.self.mp, hchange.eq Sim.status⟩
      hchange.waiters
    refine h.change ht (Or.inl rfl) ?_ hchange.indexed hmoves.alive hmoves.count
      (fun _ hu => Or.inr hu) hmoves.others (Or.inl rfl)
    rw [hchange.waiters, hchange.eq Sim.futex]
    exact h.filed
  · rename_i htimer
    refine hf sim ⟨?_, hmoves₀, fun harmed => htimer ((h.timer t ht nofun).mp harmed), rfl⟩ rfl
    exact h.change ht (Or.inl rfl) h.filed h.indexed rfl rfl (fun _ hu => Or.inr hu)
      (fun u _ => Untouched.refl sim a u) (Or.inl rfl)

theorem ensures_cutFutex {sim₀ : Sim} {a₀ : Holdings} {futex : Option FutexKey}
    {m : KernelM Unit} {post : Unit → Sim → Holdings → Prop} (ht : t ∈ sim.alive)
    (h : Cut sim₀ a₀ t sim a) (hfutex : ∀ key, t ∈ sim.waiters a key ↔ futex = some key)
    (hf : ∀ sim' a', Cut sim₀ a₀ t sim' a' → (∀ key, t ∉ sim'.waiters a' key) →
      Ensures links stuck m post sim' a') :
    Ensures links stuck
      (match futex with
        | some key => waitQueueRemove key t >>= fun _ => m
        | none => m) post sim a := by
  cases futex with
  | none => exact hf sim a h fun key hmem => nomatch (hfutex key).mp hmem
  | some key =>
      have hwaits : t ∈ sim.waiters a key := (hfutex key).mpr rfl
      refine (ensures_waitQueueRemove h.linked.filed hwaits).bind ?_
      intro _ sim₁ a₁ hchange
      have hmoves : sim.Moves a sim₁ a₁ t := Sim.moves_of_queueChange hchange fun u hu =>
        Multiset.mem_erase_of_ne hu
      refine hf sim₁ a₁ ⟨?_, h.moves.trans hmoves, ?_,
        (hchange.rest.eq Sim.status).trans h.status⟩ fun k => ?_
      · exact h.linked.change ht (Or.inr rfl) hchange.filed
          (hchange.timerQueue ▸ h.linked.indexed) hmoves.alive hmoves.count
          (fun u hu => Or.inr (hchange.runs.owned ▸ hu)) hmoves.others (Or.inl rfl)
      · rw [Sim.Armed, hchange.timerQueue]
        exact h.armed
      · rw [hchange.waiters]
        exact (h.linked.filed.apart.loose hwaits).waiting k

/-- A waiter of a queue of the scheduler waits on a futex. -/
theorem waits_of_mem {q : QueueId} (h : Filed sim.futex a (sim.waiters a))
    (hq : t ∈ a.waiters q) :
    ∃ key, (sim.futex key).waiters = some q ∧ t ∈ sim.waiters a key := by
  by_cases hkey : ∃ key, (sim.futex key).waiters = some q
  · obtain ⟨key, hkey⟩ := hkey
    exact ⟨key, hkey, h.waiters hkey ▸ hq⟩
  · rw [h.orphan q fun key heq => hkey ⟨key, heq⟩] at hq
    exact absurd hq (Multiset.notMem_zero t)

/-- With shared links the thread is no longer where its futex expects it. -/
theorem ensures_missed {key : FutexKey} {q : QueueId} {m : KernelM Unit}
    {post : Unit → Sim → Holdings → Prop} (hshared : links = .shared) (hsound : a.Sound)
    (hlacks : a.Lacks t) (hq : (sim.futex key).waiters = some q) :
    Ensures links stuck (waitQueueRemove key t >>= fun _ => m) post sim a := by
  have hmisses : a.Misses links (sim.view, .queueRemove q t) := ⟨hshared, hlacks⟩
  have hquery : Ensures links stuck (query (.queueRemove q t))
      (fun r _ _ => r = false) sim a := by
    simp only [Ensures, query, wp_bind, wp_get, wp_ask]
    refine fun _ => ⟨⟨hsound, fun hnot => absurd hmisses hnot⟩, fun _ => trivial, ?_⟩
    exact fun r a' hpost => hpost.2.2 hmisses
  refine Ensures.bind (P := fun _ _ _ => False) ?_ fun _ _ _ hfalse => absurd hfalse id
  unfold waitQueueRemove
  refine ensures_get ?_
  simp only [hq]
  refine hquery.bind ?_
  rintro _ sim' a' rfl
  exact fun _ => hshared

theorem ensures_burnThread (h : sim.Linked none a) (ht : t ∈ sim.alive) :
    Ensures links stuck (burnThread t) (fun _ sim' a' => Burns sim a [t] sim' a') sim a := by
  unfold burnThread
  refine (ensures_remove h.filed.sound).bind ?_
  rintro _ sim a₁ ⟨rfl, hforgets | ⟨hshared, ⟨q, hq⟩, hsound, hlacks⟩⟩
  · refine ensures_get ?_
    obtain ⟨hlinked, hsame⟩ := linked_forgets h hforgets
    dsimp only
    refine ensures_cutTimer ht hlinked hsame fun sim₁ hcut hwaiters => ?_
    have halive : t ∈ sim₁.alive := hcut.moves.alive ▸ ht
    refine ensures_cutFutex halive hcut (fun key => ?_) fun sim₂ a₂ hcut hnot => ?_
    · rw [hwaiters]
      exact hlinked.futex t ht nofun key
    · have hsim₂ : sim₂.Unmoved a₂ { sim₂ with burntThreads := sim₂.burntThreads + 1 } a₂ t :=
        Sim.unmoved_of_fields rfl rfl rfl rfl rfl rfl rfl
      have hfinal := linked_destroyThread (hcut.linked.samePlaces hsim₂.toSamePlaces) (Or.inr rfl) hnot
        hcut.armed
      have hmem : ∀ u, u ∈ sim₂.alive.erase t ↔ u ∈ sim.alive ∧ u ∉ [t] := fun u => by
        rw [hcut.linked.nodup.mem_erase_iff, hcut.moves.alive, List.mem_singleton]
        exact and_comm
      refine ⟨hfinal, hmem, fun u hu => ?_, hcut.moves.ticks, hcut.moves.params,
        hcut.moves.count, hcut.status⟩
      have hsame := hcut.moves.others u fun heq => hu (List.mem_singleton.mpr heq)
      exact ⟨(hmem u).trans (and_iff_left hu), hsame.thread, hsame.owned, hsame.waiting,
        hsame.armed, hsame.timer⟩
  · refine ensures_get ?_
    dsimp only
    obtain ⟨key, hkey, hwaits⟩ := waits_of_mem h.filed hq
    have hfutex := (h.futex t ht nofun key).mp hwaits
    rw [hfutex]
    dsimp only
    split
    · rename_i htimer
      refine (ensures_removeTimer h.indexed ((h.timer t ht nofun).mpr htimer)).bind ?_
      rintro _ sim₁ a ⟨-, rfl, hchange⟩
      refine ensures_missed hshared hsound hlacks (q := q) ?_
      rw [hchange.eq Sim.futex]
      exact hkey
    · exact ensures_missed hshared hsound hlacks hkey

theorem Burns.refl (h : sim.Linked none a) : Burns sim a [] sim a :=
  ⟨h, fun _ => (and_iff_left List.not_mem_nil).symm, fun u _ => Untouched.refl sim a u, rfl, rfl,
    rfl, rfl⟩

theorem Burns.trans {sim' sim'' : Sim} {a' a'' : Holdings} {burnt burnt' : List ThreadId}
    (h : Burns sim a burnt sim' a') (h' : Burns sim' a' burnt' sim'' a'') :
    Burns sim a (burnt ++ burnt') sim'' a'' where
  linked := h'.linked
  alive u := by rw [h'.alive, h.alive, List.mem_append, not_or, and_assoc]
  others u hu := by
    rw [List.mem_append, not_or] at hu
    exact (h.others u hu.1).trans (h'.others u hu.2)
  ticks := h'.ticks.trans h.ticks
  params := h'.params.trans h.params
  count := h'.count.trans h.count
  status := h'.status.trans h.status

/-- By induction on the threads to burn. -/
theorem ensures_burnThreads {burnt : List ThreadId} (h : sim.Linked none a)
    (hnodup : burnt.Nodup) (halive : ∀ t ∈ burnt, t ∈ sim.alive) :
    Ensures links stuck (burnThreads burnt)
      (fun _ sim' a' => Burns sim a burnt sim' a') sim a := by
  induction burnt generalizing sim a with
  | nil => exact Burns.refl h
  | cons t rest ih =>
      obtain ⟨hnot, hrest⟩ := List.nodup_cons.mp hnodup
      refine (ensures_burnThread h (halive t List.mem_cons_self)).bind ?_
      intro _ sim₁ a₁ hburns
      refine (ih hburns.linked hrest fun u hu => ?_).mono fun _ _ _ hburns' =>
        hburns.trans hburns'
      refine (hburns.alive u).mpr ⟨halive u (List.mem_cons_of_mem t hu), fun hmem => ?_⟩
      exact hnot (List.mem_singleton.mp hmem ▸ hu)

/-! ### Exit -/

theorem unmoved_writeStderr {text : String} :
    Ensures links stuck (writeStderr text) (fun _ sim' a' => sim.Unmoved a sim' a' t)
      sim a := unmoved_stderr

theorem ensures_checkMemory {stat : HeapStat} (h : sim.Linked none a) :
    Ensures links stuck (checkMemory stat)
      (fun _ sim' a' => sim' = sim ∧ a' = a) sim a := by
  unfold checkMemory
  refine ensures_get ?_
  split
  · refine (unmoved_writeStderr (t := 0)).bind fun _ sim₁ a₁ hsame => ?_
    refine (unmoved_writeStderr (t := 0)).bind fun _ sim₂ a₂ hsame' => ?_
    exact ensures_sysAbort (h.samePlaces (hsame.trans hsame').toSamePlaces) nofun
  · exact ⟨rfl, rfl⟩

/-- After main nobody is left. -/
theorem ensures_mainCompleted {stat : HeapStat} (h : sim.Placed none none a) :
    Ensures links stuck (mainCompleted stat)
      (fun _ sim' a' => sim'.Placed none none a' ∧ sim'.alive = [] ∧
        sim'.ticks = sim.ticks ∧ sim'.params = sim.params) sim a := by
  have hrest : ∀ {sim₁ : Sim} {a₁ : Holdings}, sim₁.Placed none none a₁ →
      sim₁.ticks = sim.ticks → sim₁.params = sim.params →
      Ensures links stuck
        (do
          let sim ← get
          verify sim.alive.isEmpty "There are alive threads after main completion"
          checkMemory stat
          modify fun sim => { sim with status := some .ok })
        (fun _ sim' a' => sim'.Placed none none a' ∧ sim'.alive = [] ∧
          sim'.ticks = sim.ticks ∧ sim'.params = sim.params) sim₁ a₁ := by
    intro sim₁ a₁ hplaced hticks hparams
    refine ensures_get ?_
    refine (ensures_verify (fun hempty => ⟨rfl, rfl, List.isEmpty_iff.mp hempty⟩) (by decide) :
      Ensures links stuck _ (fun _ sim' a' => sim' = sim₁ ∧ a' = a₁ ∧ sim₁.alive = [])
        sim₁ a₁).bind ?_
    rintro _ sim₁ a₁ ⟨rfl, rfl, hempty⟩
    refine (ensures_checkMemory hplaced.toLinked).bind ?_
    rintro _ sim₁ a₁ ⟨rfl, rfl⟩
    have hsame : sim₁.Unmoved a₁ { sim₁ with status := some .ok } a₁ 0 :=
      Sim.unmoved_of_fields rfl rfl rfl rfl rfl rfl rfl
    exact ⟨hplaced.samePlaces hsame.toSamePlaces, hempty, hticks, hparams⟩
  unfold mainCompleted
  refine ensures_get ?_
  dsimp only
  split
  · unfold burnDetachedThreads
    refine Ensures.bind (P := fun _ sim' a' => ∃ burnt, Burns sim a burnt sim' a')
      (ensures_get ?_) ?_
    · refine (ensures_burnThreads h.toLinked (h.nodup.filter _) fun u hu => ?_).mono
        fun _ _ _ hburns => ⟨_, hburns⟩
      exact List.mem_of_mem_filter hu
    · rintro _ sim₁ a₁ ⟨burnt, hburns⟩
      exact hrest (hburns.placed h) hburns.ticks hburns.params
  · exact hrest h rfl rfl

/-- The caller is gone, and after main so are all others. -/
structure Exits (sim : Sim) (a : Holdings) (me : ThreadId) (r : Option Answer)
    (sim' : Sim) (a' : Holdings) : Prop where
  placed : sim'.Placed (r.map fun _ => me) none a'
  leaves : r = none
  gone : me ∉ sim'.alive
  wakes : sim.Wakes a sim' a' me 0

theorem ensures_sysThreadExit {stat : HeapStat} (h : sim.Placed (some me) none a) :
    Ensures links stuck (sysThreadExit me stat >>= fun _ => suspend) (Exits sim a me)
      sim a := by
  refine Ensures.bind (P := fun _ sim' a' => sim'.Placed none none a' ∧ me ∉ sim'.alive ∧
    sim.Wakes a sim' a' me 0) ?_ fun _ _ _ ⟨hplaced, hgone, hwakes⟩ =>
      ⟨hplaced, rfl, hgone, hwakes⟩
  unfold sysThreadExit
  refine (ensures_query h.filed.sound trivial rfl trivial
    (fun r a' hgrants => ⟨rfl, hgrants.post⟩) :
    Ensures links stuck (query (.exit me)) (fun _ sim' a' => sim' = sim ∧ a.Keeps a')
      sim a).bind ?_
  rintro limit sim a₁ ⟨rfl, hkeeps⟩
  have hsame : sim.Unmoved a sim a₁ me := { Sim.Unmoved.refl sim a me with keeps := hkeeps }
  have hplaced := h.samePlaces hsame.toSamePlaces
  cases limit with
  | error why => exact ensures_abortIter hplaced.toLinked nofun
  | ok _ =>
      refine ensures_get ?_
      obtain ⟨hstopped, hdetached⟩ := hplaced.stop
      have hlinked := linked_destroyThread hstopped.toLinked (Or.inr rfl) hdetached.waiting
        hdetached.armed
      have hothers : ∀ u, u ≠ me → sim.Untouched a₁
          { sim with alive := sim.alive.erase me } a₁ u := fun u hu =>
        ⟨List.mem_erase_of_ne hu, rfl, Iff.rfl, fun _ => Iff.rfl, Iff.rfl, rfl⟩
      have hplaced₁ : Sim.Placed none none { sim with alive := sim.alive.erase me } a₁ := by
        refine ⟨hlinked, fun u hu _ _ => ?_, nofun⟩
        obtain ⟨hne, halive⟩ := (hplaced.nodup.mem_erase_iff).mp hu
        exact (hothers u hne).place (hstopped.place u halive nofun fun heq =>
          hne (Option.some.inj heq).symm)
      have hgone : me ∉ sim.alive.erase me := hplaced.nodup.not_mem_erase
      refine Ensures.bind (P := fun _ sim' a' =>
        sim' = { sim with alive := sim.alive.erase me } ∧ a' = a₁) ⟨rfl, rfl⟩ ?_
      rintro _ _ _ ⟨rfl, rfl⟩
      split
      · refine (ensures_mainCompleted hplaced₁).mono ?_
        rintro _ sim' a' ⟨hplaced', hempty, hticks, hparams⟩
        have hnone : ∀ u, u ∉ sim'.alive := fun u => hempty ▸ List.not_mem_nil
        exact ⟨hplaced', hnone me, fun u hu => absurd hu (hnone u),
          fun u hu => absurd hu (hnone u), fun u hu => absurd hu (Multiset.notMem_zero u),
          hticks, hparams⟩
      · refine ⟨hplaced₁, hgone, fun u hu hnot => absurd (List.mem_of_mem_erase hu) hnot,
          fun u _ _ hne _ => ?_, fun u hu => absurd hu (Multiset.notMem_zero u), rfl, rfl⟩
        exact ((hsame.untouched hne).trans (hothers u hne)).stays

end Kernel

end TwistSim

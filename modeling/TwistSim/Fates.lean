/-
What one turn of the loop is for a thread that does not run: it stays where it is, it
is woken by a call or by its timer, it is resumed, or it is gone.
-/
import TwistSim.Places

namespace TwistSim

open Sim (Placed)

/-- The futex, the expected value and the deadline of a call that waits. -/
def SysCall.waitsOn : SysCall → Option (FutexLoc × Nat × Option Int)
  | .futexWait loc old _ => some (loc, old, none)
  | .futexWaitTimed loc old deadline _ => some (loc, old, some deadline)
  | _ => none

/-- The running thread makes this call next. -/
def Control.Calls {U : Type} (program : Program U) (space : UserSpace U) (control : Control)
    (me : ThreadId) (call : SysCall) : Prop :=
  ∃ resumption budget, control = .run me resumption budget ∧
    (program.resume me resumption space.user).1 = .sys call

namespace Kernel

variable {U : Type} {program : Program U} {control : Control} {space : UserSpace U}
  {sim sim' : Sim} {a a' : Holdings} {me t : ThreadId} {r : Option Answer} {call : SysCall}

/-! ### One call -/

/-- Only `FutexWake` wakes anybody. -/
theorem Called.wakes (h : Called sim a me r sim' a' call) :
    ∃ woken, sim.Wakes a sim' a' me woken ∧
      ∀ u ∈ woken, ∃ loc count, call = .futexWake loc count ∧
        u ∈ sim.waiters a loc.futexKey := by
  have hnobody : sim.Wakes a sim' a' me 0 → ∃ woken, sim.Wakes a sim' a' me woken ∧
      ∀ u ∈ woken, ∃ loc count, call = .futexWake loc count ∧
        u ∈ sim.waiters a loc.futexKey :=
    fun hwakes => ⟨0, hwakes, fun u hu => absurd hu (Multiset.notMem_zero u)⟩
  cases call with
  | futexWake loc count =>
      obtain ⟨-, -, -, woken, hwakes, hle, -⟩ := h
      exact ⟨woken, hwakes, fun u hu => ⟨loc, count, rfl, Multiset.mem_of_le hle hu⟩⟩
  | sleepFor delay =>
      obtain ⟨_, _, hsleeps⟩ := h
      exact hnobody hsleeps.wakes
  | yield => exact hnobody (Handed.wakes h)
  | switchTo target => exact hnobody (Handed.wakes h)
  | sync action => exact hnobody (Handed.wakes h)
  | sleepUntil deadline => exact hnobody (Sleeps.wakes h)
  | futexWait loc old ctx => exact hnobody (Waits.wakes h)
  | futexWaitTimed loc old deadline ctx => exact hnobody (Waits.wakes h)
  | threadExit => exact hnobody (Exits.wakes h)
  | _ => exact hnobody (Answered.wakes h)

/-- A caller that is parked afterwards has waited. -/
theorem Called.parks (h : Called sim a me r sim' a' call) (hme : me ∈ sim'.alive)
    (hparked : (sim'.threads me).state = .parked) :
    ∃ loc old deadline, call.waitsOn = some (loc, old, deadline) ∧
      Parks sim loc old deadline me sim' := by
  have hready : ∀ {state : ThreadState}, state = .parked → ¬ state.Ready := by
    rintro _ rfl (heq | heq | heq) <;> cases heq
  have hanswered : r ≠ none → sim'.Placed (r.map fun _ => me) none a' → False := by
    intro hr hplaced
    obtain ⟨x, rfl⟩ := Option.ne_none_iff_exists'.mp hr
    exact hready hparked (Or.inr (Or.inr (hplaced.runs me rfl).state))
  have howned : r = none → sim'.Placed (r.map fun _ => me) none a' → me ∈ a'.owned →
      False := by
    rintro rfl hplaced howned
    exact hready hparked (hplaced.ready hme nofun howned)
  have hwaits : ∀ {loc old deadline}, Waits sim a me loc old deadline r sim' a' →
      Parks sim loc old deadline me sim' := fun h =>
    h.outcome.resolve_right fun hdeclines => howned h.leaves h.placed hdeclines.owned
  cases call with
  | futexWait loc old ctx => exact ⟨loc, old, none, rfl, hwaits h⟩
  | futexWaitTimed loc old deadline ctx => exact ⟨loc, old, some deadline, rfl, hwaits h⟩
  | futexWake loc count =>
      exact (hanswered (Notifies.returns h) (Notifies.placed h)).elim
  | sleepFor delay =>
      obtain ⟨_, _, hsleeps⟩ := h
      exact nomatch hparked.symm.trans hsleeps.state
  | sleepUntil deadline => exact nomatch hparked.symm.trans (Sleeps.state h)
  | yield => exact (howned (Handed.leaves h) (Handed.placed h) (Handed.owned h)).elim
  | switchTo target =>
      exact (howned (Handed.leaves h) (Handed.placed h) (Handed.owned h)).elim
  | sync action => exact (howned (Handed.leaves h) (Handed.placed h) (Handed.owned h)).elim
  | threadExit => exact absurd hme (Exits.gone h)
  | _ => exact (hanswered (Answered.returns h) (Answered.placed h)).elim

/-! ### One turn -/

/-- What a turn is for a thread that does not run. -/
inductive Goes (program : Program U) (control : Control) (space : UserSpace U) (sim : Sim)
    (a : Holdings) (t : ThreadId) (control' : Control) (sim' : Sim) (a' : Holdings) : Prop
    where
  | gone (halive : t ∉ sim'.alive)
  | stays (hrun : control'.running ≠ some t) (halive : t ∈ sim'.alive)
      (hstays : sim.Stays a sim' a' t)
  | woken {me : ThreadId} {loc : FutexLoc} {count : Nat} (hrun : control'.running ≠ some t)
      (halive : t ∈ sim'.alive) (hcall : control.Calls program space me (.futexWake loc count))
      (hwaits : t ∈ sim.waiters a loc.futexKey) (hroused : sim'.Roused a' t .ok)
  | rings (hrun : control'.running ≠ some t) (halive : t ∈ sim'.alive)
      (hrings : sim.Rings sim' a' t)
  | resumed {load budget : Nat} (hcontrol : control' =
        .run t (.answer (.resumed (sim'.threads t).status load)) budget)
      (hready : t ∈ a.owned ∧ (sim'.threads t).status = (sim.threads t).status ∨
        sim.Armed t ∧ (sim.timerQueue.heap.timers t).when ≤ sim'.now ∧
          (sim'.threads t).status = Sim.alarmStatus (sim.threads t))

theorem Passes.goes (h : sim.Passes a sim' a') {control' : Control}
    (hrun : control'.running ≠ some t) (ht : t ∈ sim.alive) :
    Goes program control space sim a t control' sim' a' := by
  rcases h.fate t with hstays | hrings
  · exact Goes.stays hrun (h.alive ▸ ht) hstays
  · exact Goes.rings hrun (h.alive ▸ ht) hrings

/-- Rings, and then somebody else moves. -/
theorem Rings.moves {sim₁ : Sim} {a₁ : Holdings} (h : sim.Rings sim₁ a₁ t)
    {next : ThreadId} (hmoves : sim₁.Moves a₁ sim' a' next) (hne : t ≠ next) :
    sim.Rings sim' a' t where
  armed := h.armed
  due := by
    rw [hmoves.now]
    exact h.due
  roused := h.roused.stays (hmoves.others t hne).stays

theorem Resumes.goes {next : ThreadId} {b : Nat} (h : Resumes sim a next sim' a')
    (ht : t ∈ sim.alive) :
    Goes program control space sim a t
      (.run next (.answer (.resumed (sim'.threads next).status (sim'.threads next).load)) b)
      sim' a' := by
  obtain ⟨sim₁, a₁, hlater, howned, hmoves, hstatus⟩ := h.before
  have halive : t ∈ sim'.alive := by
    rw [hmoves.alive, hlater.passes.alive]
    exact ht
  by_cases hne : t = next
  · subst hne
    refine Goes.resumed rfl ?_
    rcases hlater.passes.fate t with hstays | hrings
    · exact Or.inl ⟨hstays.owned.mp howned, hstatus.trans hstays.status⟩
    · refine Or.inr ⟨hrings.armed, ?_, hstatus.trans hrings.roused.status⟩
      rw [hmoves.now]
      exact hrings.due
  · have hrun : (Control.run next (.answer (.resumed (sim'.threads next).status
        (sim'.threads next).load)) b).running ≠ some t := fun heq =>
      hne (Option.some.inj heq).symm
    rcases hlater.passes.fate t with hstays | hrings
    · exact Goes.stays hrun halive (hstays.trans (hmoves.others t hne).stays)
    · exact Goes.rings hrun halive (Rings.moves hrings hmoves hne)

theorem Turned.goes {result : Control × UserSpace U}
    (h : Turned program control space sim a result sim' a') (ht : t ∈ sim.alive)
    (hrun : control.running ≠ some t) :
    Goes program control space sim a t result.1 sim' a' := by
  cases control with
  | head budget =>
      have hturn : HeadTurn sim a budget result.1 sim' a' := h.1
      generalize result.1 = control' at hturn
      cases control' with
      | head b => exact Passes.goes hturn.2.1.passes (by simp [Control.running]) ht
      | run next r b =>
          obtain ⟨-, -, hresumes, rfl, -⟩ := hturn
          exact Resumes.goes hresumes ht
      | finished => exact Passes.goes hturn.1.passes (by simp [Control.running]) ht
  | run me resumption budget =>
      have hme : t ≠ me := fun heq => hrun (heq ▸ rfl)
      obtain ⟨⟨request, user⟩, hrequest⟩ : ∃ r, program.resume me resumption space.user = r :=
        ⟨_, rfl⟩
      rw [Turned, hrequest] at h
      cases request with
      | sys call =>
          obtain ⟨⟨r, hcalled, hcontrol⟩, -⟩ := h
          have hafter : result.1.running ≠ some t := by
            rw [hcontrol]
            cases r with
            | none => simp [Control.running]
            | some x => exact fun heq => hme (Option.some.inj heq).symm
          obtain ⟨woken, hwakes, hcause⟩ := hcalled.wakes
          by_cases halive : t ∈ sim'.alive
          · by_cases hwoken : t ∈ woken
            · obtain ⟨loc, count, rfl, hwaits⟩ := hcause t hwoken
              exact Goes.woken hafter halive ⟨resumption, budget, rfl, by rw [hrequest]⟩
                hwaits (hwakes.woken t hwoken)
            · exact Goes.stays hafter halive (hwakes.others t halive ht hme hwoken)
          · exact Goes.gone halive
      | statics op =>
          obtain ⟨reply, statics, -, rfl, rfl, rfl⟩ := h
          exact Goes.stays hrun ht (Sim.Untouched.refl _ _ t).stays
  | finished =>
      obtain ⟨rfl, rfl, rfl⟩ := h
      exact Goes.stays hrun ht (Sim.Untouched.refl _ _ t).stays

/-- A new thread waits for nothing. -/
theorem Turned.born {result : Control × UserSpace U}
    (h : Turned program control space sim a result sim' a') (ht : t ∈ sim'.alive)
    (hnot : t ∉ sim.alive) : (sim'.threads t).state.Ready := by
  cases control with
  | head budget =>
      have hturn : HeadTurn sim a budget result.1 sim' a' := h.1
      have halive : sim'.alive = sim.alive := by
        generalize result.1 = control' at hturn
        cases control' with
        | head b => exact hturn.2.1.passes.alive
        | run next r b =>
            obtain ⟨sim₁, a₁, hlater, -, hmoves, -⟩ := hturn.2.2.1.before
            exact hmoves.alive.trans hlater.passes.alive
        | finished => exact hturn.1.passes.alive
      exact absurd (halive ▸ ht) hnot
  | run me resumption budget =>
      obtain ⟨⟨request, user⟩, hrequest⟩ : ∃ r, program.resume me resumption space.user = r :=
        ⟨_, rfl⟩
      rw [Turned, hrequest] at h
      cases request with
      | sys call =>
          obtain ⟨⟨r, hcalled, -⟩, -⟩ := h
          obtain ⟨woken, hwakes, -⟩ := hcalled.wakes
          exact hwakes.born t ht hnot
      | statics op =>
          obtain ⟨reply, statics, -, -, rfl, -⟩ := h
          exact absurd ht hnot
  | finished =>
      obtain ⟨-, rfl, -⟩ := h
      exact absurd ht hnot

/-- A running thread that is parked afterwards has waited. -/
theorem Turned.parks {result : Control × UserSpace U}
    (h : Turned program control space sim a result sim' a')
    (hplaced : sim.Placed control.running none a) (hrun : control.running = some t)
    (ht : t ∈ sim'.alive) (hparked : (sim'.threads t).state = .parked) :
    ∃ call loc old deadline, control.Calls program space t call ∧
      call.waitsOn = some (loc, old, deadline) ∧ Parks sim loc old deadline t sim' := by
  cases control with
  | head budget => cases hrun
  | run me resumption budget =>
      cases hrun
      obtain ⟨⟨request, user⟩, hrequest⟩ : ∃ r, program.resume t resumption space.user = r :=
        ⟨_, rfl⟩
      rw [Turned, hrequest] at h
      cases request with
      | sys call =>
          obtain ⟨⟨r, hcalled, -⟩, -⟩ := h
          obtain ⟨loc, old, deadline, hwaits, hparks⟩ := hcalled.parks ht hparked
          exact ⟨call, loc, old, deadline, ⟨resumption, budget, rfl, by rw [hrequest]⟩, hwaits,
            hparks⟩
      | statics op =>
          obtain ⟨reply, statics, -, -, rfl, -⟩ := h
          cases (hplaced.runs t rfl).state.symm.trans hparked
  | finished => cases hrun

/-- A call of the running thread that was not aborted. -/
theorem Turned.called {result : Control × UserSpace U}
    (h : Turned program control space sim a result sim' a')
    (hcall : control.Calls program space me call) :
    ∃ r budget, Called sim a me r sim' a' call ∧
      ∀ x, r = some x → result.1 = .run me (.answer x) budget := by
  obtain ⟨resumption, budget, rfl, hrequest⟩ := hcall
  obtain ⟨⟨request, user⟩, hresume⟩ : ∃ r, program.resume me resumption space.user = r :=
    ⟨_, rfl⟩
  rw [hresume] at hrequest
  cases hrequest
  rw [Turned, hresume] at h
  obtain ⟨⟨r, hcalled, hcontrol⟩, -⟩ := h
  refine ⟨r, budget, hcalled, ?_⟩
  rintro x rfl
  exact hcontrol

end Kernel

end TwistSim

/-
The operations of `std::atomic` and `std::atomic_flag`.  A read-modify-write operation is
two actions, of which only the second is guarded against preemption; still nothing comes in
between.
-/
import TwistSim.UserCode

namespace TwistSim

open SequentialMemory (Event lastWrite)

/-- An atomic variable of `size` bytes. -/
structure AtomicBase (size : Nat) where
  loc : Addr
  deriving DecidableEq, Repr

inductive CasType where
  | weak | strong
  deriving DecidableEq, Repr

/-- A value of `T`, as its bits. -/
abbrev AtomicValue (size : Nat) := BitVec (8 * size)

namespace AtomicBase

variable {size : Nat} (a : AtomicBase size) (mo success failure : MemoryOrder)
  (callSite : SourceLocation)

def toRepr (v : AtomicValue size) : Nat := v.toNat

def toValue (r : Nat) : AtomicValue size := BitVec.ofNat _ r

def action (type : ActionType) (value : Nat) (operation : String) : Action :=
  ⟨a.loc, size, type, value, mo, operation, callSite⟩

def load : UserM (AtomicValue size) := do
  let r ← UserM.sync (a.action mo callSite .atomicLoad 0 "atomic::load")
  pure (toValue r)

def debugLoad : UserM (AtomicValue size) :=
  UserM.preemptionGuard do
    let r ← UserM.sync (a.action mo callSite .atomicDebugLoad 0 "atomic::DebugLoad")
    pure (toValue r)

def store (newValue : AtomicValue size) : UserM Unit := do
  let _ ← UserM.sync (a.action mo callSite .atomicStore (toRepr newValue) "atomic::store")
  pure ()

def init (value : AtomicValue size) (sourceLoc : SourceLocation) : UserM Unit :=
  UserM.preemptionGuard do
    let _ ← UserM.sync
      (a.action .relaxed sourceLoc .atomicInit (toRepr value) "atomic::atomic")
    pure ()

def destroy : UserM Unit :=
  UserM.preemptionGuard do
    let _ ← UserM.sync (a.action .relaxed callSite .atomicDestroy 0 "atomic::~atomic")
    pure ()

/-! ### Read-modify-write -/

/-- Load a value, and store what becomes of it. -/
def rmw (modify : AtomicValue size → AtomicValue size) (op : String) :
    UserM (AtomicValue size) := do
  let r ← UserM.sync (a.action mo callSite .atomicRmwLoad 0 op)
  let oldValue := toValue r
  let newValue := modify oldValue
  UserM.preemptionGuard do
    let _ ← UserM.sync (a.action mo callSite .atomicRmwCommit (toRepr newValue) op)
    pure ()
  pure oldValue

def exchange (newValue : AtomicValue size) : UserM (AtomicValue size) :=
  a.rmw mo callSite (fun _ => newValue) "atomic::exchange"

def fetchAdd (delta : AtomicValue size) : UserM (AtomicValue size) :=
  a.rmw mo callSite (· + delta) "atomic::fetch_add"

def fetchSub (delta : AtomicValue size) : UserM (AtomicValue size) :=
  a.rmw mo callSite (· - delta) "atomic::fetch_sub"

def fetchAnd (andValue : AtomicValue size) : UserM (AtomicValue size) :=
  a.rmw mo callSite (· &&& andValue) "atomic::fetch_and"

def fetchOr (orValue : AtomicValue size) : UserM (AtomicValue size) :=
  a.rmw mo callSite (· ||| orValue) "atomic::fetch_or"

def fetchXor (xorValue : AtomicValue size) : UserM (AtomicValue size) :=
  a.rmw mo callSite (· ^^^ xorValue) "atomic::fetch_xor"

/-- `FetchArithm` of a pointer to values of `elemSize` bytes. -/
def fetchArithm (a : AtomicBase 8) (elemSize delta : Int) (op : String) :
    UserM (AtomicValue 8) :=
  a.rmw mo callSite (· + BitVec.ofInt _ (delta * elemSize)) op

/-! ### Compare-exchange -/

def compareExchangeOperationName : CasType → String
  | .weak => "atomic::compare_exchange_weak"
  | .strong => "atomic::compare_exchange_strong"

def compareExchangeSpuriousFailure : CasType → UserM Bool
  | .weak => UserM.spuriousTryFailure
  | .strong => pure false

/-- `BitwiseEqual(expected, old_value) && !CompareExchangeSpuriousFailure(type)` -/
def compareExchangeSucceeds (expected oldValue : AtomicValue size) (type : CasType) :
    UserM Bool :=
  if expected = oldValue then do
    let fails ← compareExchangeSpuriousFailure type
    pure (!fails)
  else pure false

def isAtLeastAcquireMemoryOrder : MemoryOrder → Bool
  | .acquire | .acqRel | .seqCst => true
  | _ => false

def compareExchangeAcquireFence (operation : String) : UserM Unit := do
  let _ ← UserM.sync (a.action .acquire callSite .atomicThreadFence 0 operation)
  pure ()

/-- The fence that a memory order asks for. -/
def acquireFenceFor (mo : MemoryOrder) (operation : String) : UserM Unit :=
  if isAtLeastAcquireMemoryOrder mo then a.compareExchangeAcquireFence callSite operation
  else pure ()

/-- `CompareExchangeSimple`; the answer comes with `expected` as it is afterwards. -/
def compareExchangeSimple (expected desired : AtomicValue size) (type : CasType) :
    UserM (Bool × AtomicValue size) := do
  let r ← UserM.sync
    (a.action mo callSite .atomicRmwLoad 0 (compareExchangeOperationName type))
  let oldValue := toValue r
  UserM.preemptionGuard do
    let succeeds ← compareExchangeSucceeds expected oldValue type
    if succeeds then do
      let _ ← UserM.sync
        (a.action mo callSite .atomicRmwCommit (toRepr desired) (compareExchangeOperationName type))
      pure (true, expected)
    else pure (false, oldValue)

def compareExchangeWithFailureMemoryOrder (expected desired : AtomicValue size)
    (type : CasType) : UserM (Bool × AtomicValue size) := do
  let r ← UserM.sync
    (a.action .relaxed callSite .atomicRmwLoad 0 (compareExchangeOperationName type))
  let oldValue := toValue r
  UserM.preemptionGuard do
    let succeeds ← compareExchangeSucceeds expected oldValue type
    if succeeds then do
      a.acquireFenceFor callSite success (compareExchangeOperationName type)
      let _ ← UserM.sync (a.action success callSite .atomicRmwCommit (toRepr desired)
        (compareExchangeOperationName type))
      pure (true, expected)
    else do
      a.acquireFenceFor callSite failure (compareExchangeOperationName type)
      pure (false, oldValue)

/-- `compare_exchange_weak` and `compare_exchange_strong` -/
def compareExchange (expected desired : AtomicValue size) (type : CasType) :
    UserM (Bool × AtomicValue size) :=
  if success = failure then a.compareExchangeSimple success callSite expected desired type
  else a.compareExchangeWithFailureMemoryOrder success failure callSite expected desired type

end AtomicBase

/-! ### `std::atomic_flag` -/

namespace AtomicFlag

variable (flag : Addr) (mo : MemoryOrder) (callSite : SourceLocation)

def action (type : ActionType) (value : Nat) (operation : String) : Action :=
  ⟨flag, 4, type, value, mo, operation, callSite⟩

def testAndSet : UserM Bool := do
  let r ← UserM.sync (action flag mo callSite .atomicRmwLoad 0 "atomic_flag::test_and_set")
  UserM.preemptionGuard do
    let _ ← UserM.sync
      (action flag mo callSite .atomicRmwCommit 1 "atomic_flag::test_and_set")
    pure ()
  pure (r == 1)

end AtomicFlag

/-! ### One point in the history -/

/-- An operation on `loc` that takes effect at one point: it finds the value of the last
write and leaves another one, or none, and nothing comes in between. -/
def TakesEffect (t : ThreadId) (loc : Addr) (before labels : List SyncLabel) (found : Nat)
    (stored : Option Nat) : Prop :=
  ∃ others, (∀ label ∈ others, label.thread ≠ t) ∧
    SyncLabel.events labels =
      SyncLabel.events others ++ .read loc found :: (stored.map (Event.write loc)).toList ∧
    lastWrite loc (SyncLabel.events (before ++ others)) = some found

namespace Machine

variable {U σ : Type} {S : IScheduler σ} {program : Program U} {t : ThreadId}
  {always : Bool} {calm : σ → Prop} {pinned : σ → ThreadId → Prop}
  {m m' m₀ : Machine U σ} {labels before : List SyncLabel} {size : Nat}
  {a : AtomicBase size} {mo success failure : MemoryOrder} {callSite : SourceLocation}
  {params : Params} {space : UserSpace U} {s₀ : σ}

section Launched

variable (hS : S.Pins always calm pinned) (hlaunch : launch S params space s₀ = some m₀)
  (hreached : History S program m₀ before m)

include hlaunch hreached in
/-- An operation that begins with a load takes effect there, if it leaves nothing or one
value afterwards. -/
theorem does_rmwLoad {α : Type} {action : Action} (htype : action.type = .atomicRmwLoad)
    {f : Nat → UserM α} {x : α} (h : Does S program t (UserM.sync action >>= f) m labels x m') :
    ∃ found rest m₁ before₁, Does S program t (f found) m₁ rest x m' ∧
      History S program m₀ before₁ m₁ ∧
      (m₁.sim.threads t).attrs = (m.sim.threads t).attrs ∧
      ∀ stored, SyncLabel.events rest = (stored.map (Event.write action.loc)).toList →
        TakesEffect t action.loc before labels found stored := by
  obtain ⟨labels₁, rest, found, m₁, rfl, hload, hrest⟩ := does_bind h
  obtain ⟨answer, rfl, hserved⟩ := does_call hload
  obtain ⟨r, budget, user, hcontrol, -⟩ := hserved.request
  obtain ⟨others, rfl, hothers, hperformed⟩ :=
    hserved.sync (hreached.running hlaunch hcontrol)
  have hreached₁ := hreached.trans hserved.history
  have hread : action.event answer.load = some (.read action.loc answer.load) := by
    rw [Action.event, htype]
  have hsilent : ∀ rest, SyncLabel.events (.calls t action :: rest) = SyncLabel.events rest :=
    fun _ => rfl
  refine ⟨answer.load, rest, m₁, _, hrest, hreached₁, hperformed.attrs, fun stored hstored =>
    ⟨others, hothers, ?_, ?_⟩⟩
  · rw [SyncLabel.events_append, hsilent, SyncLabel.events_append, SyncLabel.events_performs,
      hread, hstored, List.append_assoc]
    rfl
  · refine (hreached₁.recorded hlaunch).1 _ (.read action.loc answer.load) [] ?_
    rw [SyncLabel.events_append, hsilent, SyncLabel.events_append, SyncLabel.events_performs,
      hread, SyncLabel.events_append, List.append_assoc]
    rfl

include hS hlaunch hreached

/-- A load, and a commit of what becomes of it. -/
theorem does_loadThenCommit {α : Type} (action : Action) (commit : Nat → Action) (g : Nat → α)
    {x : α} (htype : action.type = .atomicRmwLoad)
    (hcommit : ∀ r, (commit r).type = .atomicRmwCommit ∧ (commit r).loc = action.loc)
    (h : Does S program t
      (UserM.sync action >>= fun r =>
        UserM.preemptionGuard (UserM.sync (commit r) >>= fun _ => pure ()) >>= fun _ =>
          pure (g r)) m labels x m') :
    ∃ found, TakesEffect t action.loc before labels found (some (commit found).value) ∧
      x = g found ∧ (m'.sim.threads t).attrs = (m.sim.threads t).attrs := by
  obtain ⟨found, rest, m₁, before₁, hrest, hreached₁, hattrs, heffect⟩ :=
    does_rmwLoad hlaunch hreached htype h
  obtain ⟨labels₁, labels₂, _, m₂, rfl, hguard, hpure⟩ := does_bind hrest
  obtain ⟨rfl, rfl, rfl⟩ := does_ret hpure
  obtain ⟨halone, hattrs'⟩ :=
    does_preemptionGuard hS hlaunch hreached₁ hguard ⟨rfl, fun _ => trivial⟩
  obtain ⟨load, labels₃, rfl, hnothing⟩ := UserM.alone_sync halone
  obtain ⟨rfl, -⟩ := UserM.alone_pure hnothing
  refine ⟨found, heffect _ ?_, rfl, hattrs'.trans hattrs⟩
  have hwrite : (commit found).event load =
      some (.write action.loc (commit found).value) := by
    rw [Action.event, (hcommit found).1, (hcommit found).2]
  rw [List.append_nil]
  exact (SyncLabel.events_append [_] [_]).trans (by
    rw [SyncLabel.events_calls, SyncLabel.events_performs, hwrite]
    rfl)

theorem does_rmw {modify : AtomicValue size → AtomicValue size} {op : String}
    {x : AtomicValue size}
    (h : Does S program t (a.rmw mo callSite modify op) m labels x m') :
    ∃ found, TakesEffect t a.loc before labels found
        (some (AtomicBase.toRepr (modify (AtomicBase.toValue found)))) ∧
      x = AtomicBase.toValue found ∧
      (m'.sim.threads t).attrs = (m.sim.threads t).attrs :=
  does_loadThenCommit hS hlaunch hreached (a.action mo callSite .atomicRmwLoad 0 op)
    (fun r => a.action mo callSite .atomicRmwCommit
      (AtomicBase.toRepr (modify (AtomicBase.toValue r))) op)
    AtomicBase.toValue rfl (fun _ => ⟨rfl, rfl⟩) h

theorem does_testAndSet {flag : Addr} {x : Bool}
    (h : Does S program t (AtomicFlag.testAndSet flag mo callSite) m labels x m') :
    ∃ found, TakesEffect t flag before labels found (some 1) ∧ x = (found == 1) ∧
      (m'.sim.threads t).attrs = (m.sim.threads t).attrs :=
  does_loadThenCommit hS hlaunch hreached
    (AtomicFlag.action flag mo callSite .atomicRmwLoad 0 "atomic_flag::test_and_set")
    (fun _ => AtomicFlag.action flag mo callSite .atomicRmwCommit 1 "atomic_flag::test_and_set")
    (· == 1) rfl (fun _ => ⟨rfl, rfl⟩) h

end Launched

/-! ### Compare-exchange -/

theorem alone_succeeds {α : Type} {expected oldValue : AtomicValue size} {type : CasType}
    {f : Bool → UserM α} {x : α}
    (h : UserM.Alone t (AtomicBase.compareExchangeSucceeds expected oldValue type >>= f)
      labels x) :
    ∃ succeeds, UserM.Alone t (f succeeds) labels x ∧
      (succeeds = true → expected = oldValue) ∧
      (succeeds = false → type = .strong → expected ≠ oldValue) := by
  unfold AtomicBase.compareExchangeSucceeds at h
  split at h
  · rename_i hequal
    cases type with
    | strong => exact ⟨true, h, fun _ => hequal, nofun⟩
    | weak =>
        have hspurious : UserM.Alone t (UserM.spuriousTryFailure >>= fun fails => f (!fails))
          labels x := h
        obtain ⟨fails, hrest⟩ := UserM.alone_spuriousTryFailure hspurious
        exact ⟨!fails, hrest, fun _ => hequal, nofun⟩
  · rename_i hequal
    exact ⟨false, h, nofun, fun _ _ => hequal⟩

/-- A fence is no access. -/
theorem alone_acquireFenceFor {α : Type} {operation : String} {f : Unit → UserM α} {x : α}
    (h : UserM.Alone t (a.acquireFenceFor callSite mo operation >>= f) labels x) :
    ∃ rest, SyncLabel.events labels = SyncLabel.events rest ∧ UserM.Alone t (f ()) rest x := by
  unfold AtomicBase.acquireFenceFor at h
  split at h
  · have hfence : UserM.Alone t
        (UserM.sync (a.action .acquire callSite .atomicThreadFence 0 operation) >>= fun _ => f ())
        labels x := h
    obtain ⟨load, rest, rfl, hrest⟩ := UserM.alone_sync hfence
    exact ⟨rest, rfl, hrest⟩
  · exact ⟨labels, rfl, h⟩

theorem asks_succeeds (expected oldValue : AtomicValue size) (type : CasType) :
    (AtomicBase.compareExchangeSucceeds expected oldValue type).Asks (·.stays = true) := by
  unfold AtomicBase.compareExchangeSucceeds
  split
  · cases type with
    | strong => exact trivial
    | weak => exact ⟨rfl, fun _ => trivial⟩
  · exact trivial

theorem asks_acquireFenceFor (operation : String) :
    (a.acquireFenceFor callSite mo operation).Asks (·.stays = true) := by
  unfold AtomicBase.acquireFenceFor
  split
  · exact ⟨rfl, fun _ => trivial⟩
  · exact trivial

/-- The variable after a compare-exchange, and `expected` with it. -/
def CasAnswers (expected desired : AtomicValue size) (type : CasType) (found : Nat)
    (x : Bool × AtomicValue size) (stored : Option Nat) : Prop :=
  match x.1 with
  | true => expected = AtomicBase.toValue found ∧ x.2 = expected ∧
      stored = some (AtomicBase.toRepr desired)
  | false => x.2 = AtomicBase.toValue found ∧ stored = none ∧
      (type = .strong → expected ≠ AtomicBase.toValue found)

section Launched

variable (hS : S.Pins always calm pinned) (hlaunch : launch S params space s₀ = some m₀)
  (hreached : History S program m₀ before m)
include hS hlaunch hreached

/-- A load, and a section that compares and commits. -/
theorem does_loadThenCompare {expected desired : AtomicValue size} {type : CasType}
    {x : Bool × AtomicValue size} (action : Action)
    (body : Nat → UserM (Bool × AtomicValue size)) (htype : action.type = .atomicRmwLoad)
    (hbody : ∀ r, (body r).Asks (·.stays = true))
    (hanswers : ∀ found rest, UserM.Alone t (body found) rest x →
      ∃ stored, CasAnswers expected desired type found x stored ∧
        SyncLabel.events rest = (stored.map (Event.write action.loc)).toList)
    (h : Does S program t (UserM.sync action >>= fun r => UserM.preemptionGuard (body r)) m
      labels x m') :
    ∃ found stored, TakesEffect t action.loc before labels found stored ∧
      CasAnswers expected desired type found x stored ∧
      (m'.sim.threads t).attrs = (m.sim.threads t).attrs := by
  obtain ⟨found, rest, m₁, before₁, hrest, hreached₁, hattrs, heffect⟩ :=
    does_rmwLoad hlaunch hreached htype h
  obtain ⟨halone, hattrs'⟩ := does_preemptionGuard hS hlaunch hreached₁ hrest (hbody _)
  obtain ⟨stored, hcas, hevents⟩ := hanswers found rest halone
  exact ⟨found, stored, heffect stored hevents, hcas, hattrs'.trans hattrs⟩

theorem does_compareExchange {expected desired : AtomicValue size} {type : CasType}
    {x : Bool × AtomicValue size}
    (h : Does S program t
      (a.compareExchange success failure callSite expected desired type) m labels x m') :
    ∃ found stored, TakesEffect t a.loc before labels found stored ∧
      CasAnswers expected desired type found x stored ∧
      (m'.sim.threads t).attrs = (m.sim.threads t).attrs := by
  unfold AtomicBase.compareExchange at h
  split at h
  · refine does_loadThenCompare hS hlaunch hreached _ _ rfl (fun r => ?_) ?_ h
    · refine UserM.asks_bind (asks_succeeds _ _ _) fun succeeds => ?_
      cases succeeds with
      | true => exact ⟨rfl, fun _ => trivial⟩
      | false => exact trivial
    · intro found rest halone
      obtain ⟨succeeds, hrest, hequal, hdiffer⟩ := alone_succeeds halone
      cases succeeds with
      | true =>
          obtain ⟨load, labels₁, rfl, hpure⟩ := UserM.alone_sync hrest
          obtain ⟨rfl, rfl⟩ := UserM.alone_pure hpure
          exact ⟨_, ⟨hequal rfl, rfl, rfl⟩, rfl⟩
      | false =>
          obtain ⟨rfl, rfl⟩ := UserM.alone_pure hrest
          exact ⟨_, ⟨rfl, rfl, hdiffer rfl⟩, rfl⟩
  · refine does_loadThenCompare hS hlaunch hreached _ _ rfl (fun r => ?_) ?_ h
    · refine UserM.asks_bind (asks_succeeds _ _ _) fun succeeds => ?_
      cases succeeds with
      | true =>
          exact UserM.asks_bind (asks_acquireFenceFor _) fun _ => ⟨rfl, fun _ => trivial⟩
      | false => exact UserM.asks_bind (asks_acquireFenceFor _) fun _ => trivial
    · intro found rest halone
      obtain ⟨succeeds, hrest, hequal, hdiffer⟩ := alone_succeeds halone
      cases succeeds with
      | true =>
          obtain ⟨rest₁, hevents, hcommit⟩ := alone_acquireFenceFor hrest
          obtain ⟨load, labels₁, rfl, hpure⟩ := UserM.alone_sync hcommit
          obtain ⟨rfl, rfl⟩ := UserM.alone_pure hpure
          exact ⟨_, ⟨hequal rfl, rfl, rfl⟩, hevents⟩
      | false =>
          obtain ⟨rest₁, hevents, hpure⟩ := alone_acquireFenceFor hrest
          obtain ⟨rfl, rfl⟩ := UserM.alone_pure hpure
          exact ⟨_, ⟨rfl, rfl, hdiffer rfl⟩, hevents⟩

end Launched

/-- The read-modify-write operations without a comparison are atomic in every run, under all
the schedulers that there are, whatever the other threads do. -/
theorem rmw_atomic (hS : S.Shipped) (hlaunch : launch S params space s₀ = some m₀)
    (hreached : History S program m₀ before m) :
    (∀ {size : Nat} (a : AtomicBase size) mo callSite modify op labels x m',
      Does S program t (a.rmw mo callSite modify op) m labels x m' →
      ∃ found, TakesEffect t a.loc before labels found
          (some (AtomicBase.toRepr (modify (AtomicBase.toValue found)))) ∧
        x = AtomicBase.toValue found ∧
        (m'.sim.threads t).attrs = (m.sim.threads t).attrs) ∧
    ∀ flag mo callSite labels x m',
      Does S program t (AtomicFlag.testAndSet flag mo callSite) m labels x m' →
      ∃ found, TakesEffect t flag before labels found (some 1) ∧ x = (found == 1) ∧
        (m'.sim.threads t).attrs = (m.sim.threads t).attrs := by
  obtain ⟨always, calm, pinned, hpins⟩ := hS.pins
  exact ⟨fun a mo callSite modify op labels x m' h => does_rmw hpins hlaunch hreached h,
    fun flag mo callSite labels x m' h => does_testAndSet hpins hlaunch hreached h⟩

/-- Compare-exchange is atomic too, weak or strong, with one memory order or two: it commits
only what it has compared, and the strong one fails only where the values differ. -/
theorem compareExchange_atomic (hS : S.Shipped) (hlaunch : launch S params space s₀ = some m₀)
    (hreached : History S program m₀ before m) {expected desired : AtomicValue size}
    {type : CasType} {x : Bool × AtomicValue size}
    (h : Does S program t
      (a.compareExchange success failure callSite expected desired type) m labels x m') :
    ∃ found stored, TakesEffect t a.loc before labels found stored ∧
      CasAnswers expected desired type found x stored ∧
      (m'.sim.threads t).attrs = (m.sim.threads t).attrs := by
  obtain ⟨always, calm, pinned, hpins⟩ := hS.pins
  exact does_compareExchange hpins hlaunch hreached h

end Machine

/-! ### Two threads that count -/

def counter : AtomicBase 4 := ⟨64⟩

def countSite : SourceLocation := ⟨"main.cpp", "main", 1⟩

/-- The main thread makes the counter and a child, and both count. -/
def counting : ThreadId → UserM Unit
  | 1 => do
      counter.init 0 countSite
      let _ ← Interaction.ask .spawn fun answer => .ret answer.result
      let _ ← counter.fetchAdd .relaxed countSite 1
      let _ ← counter.compareExchange .seqCst .acquire countSite 2 7 .weak
      pure ()
  | _ => do
      let _ ← counter.fetchAdd .relaxed countSite 1
      pure ()

def countingSpace : UserSpace (ThreadId → Answer → UserM Unit) :=
  ⟨fun t _ => counting t, ⟨fun _ => ⟨0, 0, 0⟩, [], true, [], fun _ => false⟩⟩

namespace Machine

/-- The child counts between the call of the main thread and its load. -/
theorem rmw_atomic_counting :
    ∃ before labels found, (SyncLabel.performed 2 labels).length = 2 ∧
      (1 : AtomicValue 4) = AtomicBase.toValue found ∧
      TakesEffect 1 64 before labels found
        (some (AtomicBase.toRepr (AtomicBase.toValue found + 1 : AtomicValue 4))) := by
  obtain ⟨m₀, before, m, labels, x, m', hlaunch, hreached, hdoes, hothers, rfl⟩ :=
    @exists_does _ _ _ (Random.scheduler { seed := 6, timeSlice := 2 })
      (Program.ofCode ⟨0, 0, 0, 0⟩) 1 {} countingSpace (Random.State.new { seed := 6 })
      (.runFor 200 :: List.replicate 6 .turn) (List.replicate 20 .turn)
      (counter.fetchAdd .relaxed countSite 1)
      (fun labels x => (SyncLabel.performed 2 labels).length = 2 ∧ x = 1) _ (by decide +kernel)
  obtain ⟨found, heffect, hvalue, -⟩ :=
    (rmw_atomic (IScheduler.Shipped.random _) hlaunch hreached).1 _ _ _ _ _ _ _ _ hdoes
  exact ⟨before, labels, found, hothers, hvalue, heffect⟩

/-- The child counts before the compare-exchange of the main thread loads, which then finds
what it expects. -/
theorem compareExchange_atomic_counting :
    ∃ before labels found stored, (SyncLabel.performed 2 labels).length = 2 ∧
      TakesEffect 1 64 before labels found stored ∧
      CasAnswers (2 : AtomicValue 4) 7 .weak found (true, 2) stored := by
  obtain ⟨m₀, before, m, labels, x, m', hlaunch, hreached, hdoes, hothers, rfl⟩ :=
    @exists_does _ _ _ (Random.scheduler { seed := 1, timeSlice := 2 })
      (Program.ofCode ⟨0, 0, 0, 0⟩) 1 {} countingSpace (Random.State.new { seed := 1 })
      (.runFor 200 :: List.replicate 12 .turn) (List.replicate 20 .turn)
      (counter.compareExchange .seqCst .acquire countSite 2 7 .weak)
      (fun labels x => (SyncLabel.performed 2 labels).length = 2 ∧ x = (true, 2)) _
      (by decide +kernel)
  obtain ⟨found, stored, heffect, hanswers, -⟩ :=
    compareExchange_atomic (IScheduler.Shipped.random _) hlaunch hreached hdoes
  exact ⟨before, labels, found, stored, hothers, heffect, hanswers⟩

end Machine

end TwistSim

import Mathlib

/-! The collator's container chain spawner (`container_chain_spawner.rs`). Each
`UpdateAssignment { current, next }` message is turned by
`handle_update_assignment_state_change` into a collation switch, the chains to stop and
the chains to start, which `handle_update_assignment` then carries out. A `HashSet` is
the list of its elements without repeats, in the order they were added; the map of
spawned chains is the list of its keys, since each entry holds that chain's own
`collate_on` and stop handle. A collation callback is given by the chain it makes the node
collate on. From a node that collates on the orchestrator chain, the spawned chains are
always those of the assignment, the `expect` never fails, and the node collates on the
chain it is assigned to. -/
namespace Tanssi.ContainerChainSpawner

variable {π : Type} [DecidableEq π]

/-- `HashSet::insert`, and `HashMap::insert` on the keys. -/
def setInsert (s : List π) (x : π) : List π := if x ∈ s then s else s ++ [x]

/-- `HashSet::extend` with an `Option`. -/
def setExtend (s : List π) : Option π → List π
  | some x => setInsert s x
  | none => s

/-- `HashSet::difference`, collected into a `Vec`. -/
def setDifference (s t : List π) : List π := s.filter fun x => x ∉ t

structure ContainerChainSpawnerState (π : Type) where
  spawnedContainerChains : List π
  assignedParaId : Option π
  nextAssignedParaId : Option π
  deriving DecidableEq, Repr

instance : Inhabited (ContainerChainSpawnerState π) := ⟨⟨[], none, none⟩⟩

structure HandleUpdateAssignmentResult (π : Type) where
  callCollateOn : Option π
  chainsToStop : List π
  chainsToStart : List π
  deriving DecidableEq, Repr

def runningChains (orchestratorParaId : π) (current next : Option π) : List π :=
  (setExtend (setExtend [] current) next).erase orchestratorParaId

/-- `handle_update_assignment_state_change`, with `none` where its `expect` panics. -/
def handleUpdateAssignmentStateChange (state : ContainerChainSpawnerState π) (orchestratorParaId : π)
    (current next : Option π) : Option (ContainerChainSpawnerState π × HandleUpdateAssignmentResult π) := do
  if (state.assignedParaId, state.nextAssignedParaId) = (current, next) then
    return (state, ⟨none, [], []⟩)
  let runningChainsBefore := runningChains orchestratorParaId state.assignedParaId state.nextAssignedParaId
  let runningChainsAfter := runningChains orchestratorParaId current next
  let callCollateOn ← (if state.assignedParaId ≠ current then
      match current with
      | some paraId =>
        if paraId = orchestratorParaId then some (some orchestratorParaId)
        else if paraId ∈ runningChainsBefore then
          -- `spawned_container_chains.get(&para_id).expect(..)`
          if paraId ∈ state.spawnedContainerChains then some (some paraId) else none
        else some none
      | none => some none
    else some none)
  let state := { state with assignedParaId := current, nextAssignedParaId := next }
  pure (state, ⟨callCollateOn, setDifference runningChainsBefore runningChainsAfter,
    setDifference runningChainsAfter runningChainsBefore⟩)

structure Spawner (π : Type) where
  state : ContainerChainSpawnerState π
  collatingOn : π
  deriving DecidableEq, Repr

namespace Spawner

def stop (spawner : Spawner π) (paraId : π) : Spawner π :=
  { spawner with state := { spawner.state with
      spawnedContainerChains := spawner.state.spawnedContainerChains.erase paraId } }

/-- `spawn`, once the chain has started: its entry is inserted, and its `collate_on` called
if asked. -/
def spawn (spawner : Spawner π) (paraId : π) (startCollation : Bool) : Spawner π :=
  { state := { spawner.state with
      spawnedContainerChains := setInsert spawner.state.spawnedContainerChains paraId },
    collatingOn := if startCollation then paraId else spawner.collatingOn }

def handleUpdateAssignment (spawner : Spawner π) (orchestratorParaId : π) (current next : Option π) :
    Option (Spawner π) := do
  let (state, result) ← handleUpdateAssignmentStateChange spawner.state orchestratorParaId current next
  let spawner := { spawner with state }
  let spawner := match result.callCollateOn with
    | some paraId => { spawner with collatingOn := paraId }
    | none => spawner
  let spawner := result.chainsToStop.foldl stop spawner
  pure (result.chainsToStart.foldl (fun spawner paraId => spawner.spawn paraId (some paraId = current)) spawner)

end Spawner

inductive Reachable (orchestratorParaId : π) : Spawner π → Prop where
  | start : Reachable orchestratorParaId ⟨default, orchestratorParaId⟩
  | update {spawner spawner' : Spawner π} (current next : Option π) : Reachable orchestratorParaId spawner →
      spawner.handleUpdateAssignment orchestratorParaId current next = some spawner' →
      Reachable orchestratorParaId spawner'

/- The sets. -/

theorem memSetInsert {s : List π} {x y : π} : y ∈ setInsert s x ↔ y ∈ s ∨ y = x := by
  unfold setInsert
  split
  · rename_i present
    constructor
    · exact .inl
    · rintro (mem | rfl)
      · exact mem
      · exact present
  · simp

theorem setInsertNodup {s : List π} (x : π) (nodup : s.Nodup) : (setInsert s x).Nodup := by
  unfold setInsert
  split
  · exact nodup
  · rename_i absent
    exact nodup.append (List.nodup_singleton x) (by simpa using absent)

theorem memSetExtend {s : List π} {o : Option π} {y : π} : y ∈ setExtend s o ↔ y ∈ s ∨ o = some y := by
  cases o with
  | none => simp [setExtend]
  | some x => simp [setExtend, memSetInsert, eq_comm]

theorem setExtendNodup {s : List π} (o : Option π) (nodup : s.Nodup) : (setExtend s o).Nodup := by
  cases o with
  | none => exact nodup
  | some x => exact setInsertNodup x nodup

@[simp] theorem memSetDifference {s t : List π} {x : π} : x ∈ setDifference s t ↔ x ∈ s ∧ x ∉ t := by
  simp [setDifference]

@[simp] theorem setDifferenceSelf (s : List π) : setDifference s s = [] := by
  simp [setDifference]

theorem memRunningChains {orchestratorParaId p : π} {current next : Option π} :
    p ∈ runningChains orchestratorParaId current next ↔ (current = some p ∨ next = some p) ∧ p ≠ orchestratorParaId := by
  rw [runningChains, (setExtendNodup next (setExtendNodup current List.nodup_nil)).mem_erase_iff, memSetExtend,
    memSetExtend]
  simp only [List.not_mem_nil, false_or]
  exact and_comm

/- What a message does to the state, and what it asks for. -/

structure Spawner.Consistent (orchestratorParaId : π) (spawner : Spawner π) : Prop where
  spawned : ∀ p, p ∈ spawner.state.spawnedContainerChains ↔
    p ∈ runningChains orchestratorParaId spawner.state.assignedParaId spawner.state.nextAssignedParaId
  nodup : spawner.state.spawnedContainerChains.Nodup
  collating : ∀ p, spawner.state.assignedParaId = some p → spawner.collatingOn = p

variable {orchestratorParaId : π} {spawner : Spawner π}

theorem handleUpdateAssignmentStateChangeOk (inv : spawner.Consistent orchestratorParaId) (current next : Option π) :
    ∃ callCollateOn, handleUpdateAssignmentStateChange spawner.state orchestratorParaId current next =
      some ({ spawner.state with assignedParaId := current, nextAssignedParaId := next },
        ⟨callCollateOn,
          setDifference (runningChains orchestratorParaId spawner.state.assignedParaId spawner.state.nextAssignedParaId)
            (runningChains orchestratorParaId current next),
          setDifference (runningChains orchestratorParaId current next)
            (runningChains orchestratorParaId spawner.state.assignedParaId spawner.state.nextAssignedParaId)⟩) ∧
      ∀ p, current = some p →
        p ∉ setDifference (runningChains orchestratorParaId current next)
          (runningChains orchestratorParaId spawner.state.assignedParaId spawner.state.nextAssignedParaId) →
        callCollateOn = some p ∨ callCollateOn = none ∧ spawner.state.assignedParaId = current := by
  by_cases same : (spawner.state.assignedParaId, spawner.state.nextAssignedParaId) = (current, next)
  · -- nothing changed: the early return, with both differences empty
    obtain ⟨assigned, nextSame⟩ := Prod.mk.inj same
    refine ⟨none, ?_, fun _ _ _ => .inr ⟨rfl, assigned⟩⟩
    subst assigned nextSame
    simp [handleUpdateAssignmentStateChange]
  by_cases moved : spawner.state.assignedParaId = current
  · have nextMoved : spawner.state.nextAssignedParaId ≠ next := fun nextSame => same (by rw [moved, nextSame])
    exact ⟨none, by simp [handleUpdateAssignmentStateChange, moved, nextMoved], fun _ _ _ => .inr ⟨rfl, moved⟩⟩
  cases current with
  | none => exact ⟨none, by simp [handleUpdateAssignmentStateChange, same, moved], by simp⟩
  | some p =>
    by_cases orchestrator : p = orchestratorParaId
    · -- `collate_on_tanssi`
      subst orchestrator
      exact ⟨some p, by simp [handleUpdateAssignmentStateChange, same, moved], fun _ current _ => .inl current⟩
    by_cases running : p ∈ runningChains orchestratorParaId spawner.state.assignedParaId spawner.state.nextAssignedParaId
    · -- the chain already runs: its `collate_on`, found by the `expect`
      have spawned := (inv.spawned p).mpr running
      exact ⟨some p, by simp [handleUpdateAssignmentStateChange, same, moved, orchestrator, running, spawned],
        fun _ current _ => .inl current⟩
    · refine ⟨none, by simp [handleUpdateAssignmentStateChange, same, moved, orchestrator, running], ?_⟩
      rintro q ⟨⟩ notStarted
      exact absurd (memSetDifference.mpr ⟨memRunningChains.mpr ⟨.inl rfl, orchestrator⟩, running⟩) notStarted

/- Carrying out the message: the stops and spawns, then the whole message. -/

namespace Spawner

theorem foldlStop (stops : List π) (spawner : Spawner π) :
    stops.foldl stop spawner = { spawner with state := { spawner.state with
      spawnedContainerChains := spawner.state.spawnedContainerChains.diff stops } } := by
  induction stops generalizing spawner with
  | nil => simp
  | cons p stops ih =>
    rw [List.foldl_cons, ih, List.diff_cons]
    rfl

theorem memFoldlSetInsert {x : π} : ∀ (starts s : List π), x ∈ starts.foldl setInsert s ↔ x ∈ s ∨ x ∈ starts
  | [], _ => by simp
  | p :: starts, s => by
    rw [List.foldl_cons, memFoldlSetInsert, memSetInsert, List.mem_cons]
    tauto

theorem foldlSetInsertNodup : ∀ (starts s : List π), s.Nodup → (starts.foldl setInsert s).Nodup
  | [], _, nodup => nodup
  | p :: starts, _, nodup => foldlSetInsertNodup starts _ (setInsertNodup p nodup)

variable (current : Option π)

theorem foldlSpawnState (starts : List π) (spawner : Spawner π) :
    (starts.foldl (fun spawner paraId => spawner.spawn paraId (some paraId = current)) spawner).state =
      { spawner.state with spawnedContainerChains := starts.foldl setInsert spawner.state.spawnedContainerChains } := by
  induction starts generalizing spawner with
  | nil => rfl
  | cons p starts ih =>
    rw [List.foldl_cons, ih]
    rfl

theorem foldlSpawnKeeps (starts : List π) (spawner : Spawner π) (others : ∀ q ∈ starts, some q ≠ current) :
    (starts.foldl (fun spawner paraId => spawner.spawn paraId (some paraId = current)) spawner).collatingOn =
      spawner.collatingOn := by
  induction starts generalizing spawner with
  | nil => rfl
  | cons q starts ih =>
    rw [List.foldl_cons, ih _ fun q' mem => others q' (List.mem_cons_of_mem _ mem)]
    simp [spawn, others q List.mem_cons_self]

theorem foldlSpawnCollates {p : π} (assigned : current = some p) (starts : List π) (spawner : Spawner π)
    (mem : p ∈ starts) :
    (starts.foldl (fun spawner paraId => spawner.spawn paraId (some paraId = current)) spawner).collatingOn = p := by
  induction starts generalizing spawner with
  | nil => cases mem
  | cons q starts ih =>
    rw [List.foldl_cons]
    by_cases later : p ∈ starts
    · exact ih _ later
    · obtain rfl : q = p := by simpa [later, eq_comm] using mem
      rw [foldlSpawnKeeps current starts _ fun q' mem' => by rw [assigned]; simpa using ne_of_mem_of_not_mem mem' later]
      simp [spawn, assigned]

end Spawner

theorem Spawner.handleUpdateAssignmentEq {current next : Option π} {state : ContainerChainSpawnerState π}
    {result : HandleUpdateAssignmentResult π}
    (changed : handleUpdateAssignmentStateChange spawner.state orchestratorParaId current next = some (state, result)) :
    spawner.handleUpdateAssignment orchestratorParaId current next =
      some (result.chainsToStart.foldl (fun spawner paraId => spawner.spawn paraId (some paraId = current))
        (result.chainsToStop.foldl stop ⟨state, result.callCollateOn.getD spawner.collatingOn⟩)) := by
  simp only [handleUpdateAssignment, changed, Option.bind_eq_bind, Option.bind_some]
  cases result.callCollateOn <;> rfl

/- Started on 2000 with 2001 next, then moved to 2001: its `collate_on` is called and 2000
is stopped. -/
example : ((⟨default, 1000⟩ : Spawner Nat).handleUpdateAssignment 1000 (some 2000) (some 2001)).bind
    (·.handleUpdateAssignment 1000 (some 2001) none) = some ⟨⟨[2001], some 2001, none⟩, 2001⟩ := by
  decide

structure SafeChanges (orchestratorParaId : π) (running : List π) (result : HandleUpdateAssignmentResult π) : Prop where
  disjoint : ∀ p ∈ result.chainsToStart, p ∉ result.chainsToStop
  startsNoOrchestrator : orchestratorParaId ∉ result.chainsToStart
  stopsNoOrchestrator : orchestratorParaId ∉ result.chainsToStop
  startsNotRunning : ∀ p ∈ result.chainsToStart, p ∉ running
  stopsRunning : ∀ p ∈ result.chainsToStop, p ∈ running

structure FollowsAssignment (orchestratorParaId : π) (current next : Option π) (spawner : Spawner π) : Prop where
  spawned : ∀ p, p ∈ spawner.state.spawnedContainerChains ↔ (current = some p ∨ next = some p) ∧ p ≠ orchestratorParaId
  collating : ∀ p, current = some p → spawner.collatingOn = p

namespace Spawner.Consistent

theorem start (orchestratorParaId : π) : (⟨default, orchestratorParaId⟩ : Spawner π).Consistent orchestratorParaId :=
  ⟨fun p => by simp [default, memRunningChains], List.nodup_nil, fun _ none => by cases none⟩

theorem followsAssignment (inv : spawner.Consistent orchestratorParaId) :
    FollowsAssignment orchestratorParaId spawner.state.assignedParaId spawner.state.nextAssignedParaId spawner :=
  ⟨fun p => (inv.spawned p).trans memRunningChains, inv.collating⟩

theorem update (inv : spawner.Consistent orchestratorParaId) (current next : Option π) :
    ∃ state result spawner',
      handleUpdateAssignmentStateChange spawner.state orchestratorParaId current next = some (state, result) ∧
      SafeChanges orchestratorParaId spawner.state.spawnedContainerChains result ∧
      spawner.handleUpdateAssignment orchestratorParaId current next = some spawner' ∧
      spawner'.Consistent orchestratorParaId ∧ spawner'.state.assignedParaId = current ∧
      spawner'.state.nextAssignedParaId = next := by
  obtain ⟨callCollateOn, changed, switched⟩ := handleUpdateAssignmentStateChangeOk inv current next
  refine ⟨_, _, _, changed, ?_, handleUpdateAssignmentEq changed, ?_⟩
  · refine ⟨fun p start stop => ?_, fun start => ?_, fun stop => ?_, fun p start running => ?_,
      fun p stop => (inv.spawned p).mpr (memSetDifference.mp stop).1⟩
    · exact (memSetDifference.mp stop).2 (memSetDifference.mp start).1
    · exact (memRunningChains.mp (memSetDifference.mp start).1).2 rfl
    · exact (memRunningChains.mp (memSetDifference.mp stop).1).2 rfl
    · exact (memSetDifference.mp start).2 ((inv.spawned p).mp running)
  have recorded := foldlSpawnState current
  refine ⟨⟨fun p => ?_, ?_, fun p assigned => ?_⟩, by simp [recorded, foldlStop], by simp [recorded, foldlStop]⟩
  · simp only [recorded, foldlStop, memFoldlSetInsert, inv.nodup.mem_sdiff_iff, inv.spawned, memSetDifference]
    tauto
  · simp only [recorded, foldlStop]
    exact foldlSetInsertNodup _ _ inv.nodup.diff
  · simp only [recorded, foldlStop] at assigned
    by_cases started : p ∈ setDifference (runningChains orchestratorParaId current next)
        (runningChains orchestratorParaId spawner.state.assignedParaId spawner.state.nextAssignedParaId)
    · exact foldlSpawnCollates current assigned _ _ started
    · rw [foldlSpawnKeeps current _ _ fun q mem same => started (by rw [assigned] at same; cases same; exact mem),
        foldlStop]
      rcases switched p assigned started with call | ⟨call, unchanged⟩
      · simp [call]
      · simp only [call, Option.getD_none]
        exact inv.collating p (unchanged.trans assigned)

theorem reachable (reach : Reachable orchestratorParaId spawner) : spawner.Consistent orchestratorParaId := by
  induction reach with
  | start => exact start orchestratorParaId
  | update current next _ handled inv =>
    obtain ⟨_, _, _, -, -, handled', consistent, -⟩ := inv.update current next
    rw [handled] at handled'
    cases handled'
    exact consistent

end Spawner.Consistent

theorem spawnerFollowsAssignment (reach : Reachable orchestratorParaId spawner) (current next : Option π) :
    ∃ state result spawner',
      handleUpdateAssignmentStateChange spawner.state orchestratorParaId current next = some (state, result) ∧
      SafeChanges orchestratorParaId spawner.state.spawnedContainerChains result ∧
      spawner.handleUpdateAssignment orchestratorParaId current next = some spawner' ∧
      FollowsAssignment orchestratorParaId current next spawner' := by
  obtain ⟨state, result, spawner', changed, safe, handled, consistent, assigned, nextAssigned⟩ :=
    (Spawner.Consistent.reachable reach).update current next
  have follows := consistent.followsAssignment
  rw [assigned, nextAssigned] at follows
  exact ⟨state, result, spawner', changed, safe, handled, follows⟩

/- A collator of para 2000, with orchestrator 1000, right after it starts. -/

theorem spawnerFollowsAssignmentAtStart :
    Reachable 1000 (⟨default, 1000⟩ : Spawner Nat) ∧
    ∃ state result spawner',
      handleUpdateAssignmentStateChange (⟨default, 1000⟩ : Spawner Nat).state 1000 (some 2000) none =
        some (state, result) ∧
      SafeChanges 1000 (⟨default, 1000⟩ : Spawner Nat).state.spawnedContainerChains result ∧
      (⟨default, 1000⟩ : Spawner Nat).handleUpdateAssignment 1000 (some 2000) none = some spawner' ∧
      FollowsAssignment 1000 (some 2000) none spawner' :=
  ⟨.start, spawnerFollowsAssignment .start (some 2000) none⟩

end Tanssi.ContainerChainSpawner

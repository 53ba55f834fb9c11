import Tanssi.Runtime.ApplySession
import Tanssi.Initializer

/-! The orchestrator chain block by block, as far as sessions go. The session pallet, outside
this repository, ends a session from its `on_initialize`: it raises `CurrentIndex` and tells
the initializer, which buffers the change. The block's extrinsics run next, the
configuration's and the registrar's calls reading the raised index, and the initializer's
`on_finalize` applies the change through `OwnApplySession`. So the calls of a block that
changes the session come before the change, at the index of the session after it, where the
atomic model `Reachable` has them after the change. They commute with it: every block ends
in a state of the atomic model. That needs the registrar's `SessionDelay` to be at least 2,
as it is in dancebox: a list scheduled one session ahead would be read by the change it
precedes, and missed by the one it would follow. -/

namespace Tanssi.Runtime
open Frame DelayedChanges

variable {α κ γ σ : Type} [LinearOrder α] [LinearOrder κ]

/-- `OwnApplySession::apply_new_session`, which ignores `changed`. -/
def ownApplySession (_changed : Bool) (sessionIndex : Nat) (allValidators queued : List (α × κ))
    (st : State α κ σ) : Option (State α κ σ) :=
  applyNewSession sessionIndex allValidators queued st

inductive RuntimeCall (γ : Type) where
  | configuration (call : Configuration.Call)
  | registrar (call : Registrar.Call γ)

def dispatch (cfg : Config α γ σ) (currentIndex : Nat) (origin : RawOrigin α) :
    RuntimeCall γ → State α κ σ → Option (State α κ σ)
  | .configuration call, st =>
    match Configuration.dispatch configurationSessionDelay currentIndex origin call st.configuration with
    | .ok configuration => some { st with configuration }
    | .error _ => none
  | .registrar call, st =>
    match Registrar.dispatch cfg.registrar currentIndex origin call st.registrar with
    | .ok registrar => some { st with registrar }
    | .error _ => none

def applyExtrinsics (cfg : Config α γ σ) (currentIndex : Nat) :
    List (RawOrigin α × RuntimeCall γ) → State α κ σ → State α κ σ
  | [], st => st
  | (origin, call) :: rest, st => applyExtrinsics cfg currentIndex rest ((dispatch cfg currentIndex origin call st).getD st)

/-- The runtime's storage, the initializer's buffer and the session pallet's `CurrentIndex`. -/
structure Chain (α κ σ : Type) [LinearOrder κ] where
  runtime : State α κ σ
  buffered : Option (Initializer.BufferedSessionChange α κ)
  currentIndex : Nat

/-- A block: whether the session pallet ends the session in it, with `changed` and the new
session's validators and queued keys, and the block's extrinsics. -/
structure Block (α κ γ : Type) where
  rotation : Option (Bool × List (α × κ) × List (α × κ))
  extrinsics : List (RawOrigin α × RuntimeCall γ)

def onInitialize (rotation : Option (Bool × List (α × κ) × List (α × κ))) (chain : Chain α κ σ) :
    Option (Chain α κ σ) :=
  match rotation with
  | none => some chain
  | some (changed, validators, queued) =>
    (Initializer.onNewSession ownApplySession changed (chain.currentIndex + 1) validators (some queued) chain.buffered
      chain.runtime).map fun r => ⟨r.2, r.1, chain.currentIndex + 1⟩

def onFinalize (chain : Chain α κ σ) : Option (Chain α κ σ) :=
  (Initializer.onFinalize ownApplySession chain.buffered chain.runtime).map fun r => ⟨r.2, r.1, chain.currentIndex⟩

def executeBlock (cfg : Config α γ σ) (block : Block α κ γ) (chain : Chain α κ σ) : Option (Chain α κ σ) :=
  (onInitialize block.rotation chain).bind fun chain =>
    onFinalize { chain with runtime := applyExtrinsics cfg chain.currentIndex block.extrinsics chain.runtime }

def executeBlocks (cfg : Config α γ σ) : List (Block α κ γ) → Chain α κ σ → Option (Chain α κ σ)
  | [], chain => some chain
  | block :: rest, chain => (executeBlock cfg block chain).bind (executeBlocks cfg rest)

/-- The genesis: the pallets' builds, then `on_genesis_session` with the first validators. -/
def genesisChain (cfg : Config α γ σ) (config : Configuration.HostConfiguration) (paraIds : List (ParaId × γ))
    (currency : σ) (validators : List (α × κ)) : Option (Chain α κ σ) :=
  (Configuration.build config).bind fun configuration =>
    (Registrar.build cfg.registrar paraIds currency).bind fun registrar =>
      (Initializer.onGenesisSession ownApplySession validators none (genesis configuration registrar)).map
        fun r => ⟨r.2, r.1, 0⟩

/-! ### A session change said once -/

section Change
variable {t : Nat} {validators next : List (α × κ)}

theorem applyNewSessionEq (st : State α κ σ) :
    applyNewSession t validators next st =
      (AuthorityAssignment.initializerOnNewSession t (SortedMap.ofList next) (assignmentsAt t next st).1.nextAssignment
        st.authorityAssignment).map fun authorityAssignment =>
        ⟨(Configuration.initializerOnNewSession t st.configuration).2, (Registrar.initializerOnNewSession t st.registrar).2,
          AuthorityMapping.initializerOnNewSession sessionRemovalBoundary t validators st.authorityMapping,
          (assignmentsAt t next st).2, authorityAssignment⟩ := by
  simp only [applyNewSession, assignmentsAt]
  cases AuthorityAssignment.initializerOnNewSession t (SortedMap.ofList next)
    (CollatorAssignment.initializerOnNewSession (traits (Configuration.initializerOnNewSession t st.configuration).2
      (Registrar.initializerOnNewSession t st.registrar).2) t (next.map (·.1)) st.collatorAssignment).1.nextAssignment
    st.authorityAssignment <;> rfl

theorem assignmentsAtCongr {st₁ st₂ : State α κ σ} (collators : st₁.collatorAssignment = st₂.collatorAssignment)
    (config : Configuration.configAt (t + 1) (Configuration.initializerOnNewSession t st₁.configuration).2 =
      Configuration.configAt (t + 1) (Configuration.initializerOnNewSession t st₂.configuration).2)
    (paras : Registrar.sessionContainerChains (t + 1) (Registrar.initializerOnNewSession t st₁.registrar).2 =
      Registrar.sessionContainerChains (t + 1) (Registrar.initializerOnNewSession t st₂.registrar).2) :
    assignmentsAt t next st₁ = assignmentsAt t next st₂ := by
  unfold assignmentsAt CollatorAssignment.initializerOnNewSession
  rw [collators]
  exact CollatorAssignment.assignCollatorsTraits paras (congrArg (·.minOrchestratorCollators) config)
    (congrArg (·.maxOrchestratorCollators) config) (congrArg (·.collatorsPerContainer) config)

end Change

/-! ### Calls within a session -/

section Calls
variable {cfg : Config α γ σ} {s : Nat} {previous queued : List (α × κ)} {st : State α κ σ}

theorem Reachable.extrinsic (reach : Reachable cfg s previous queued st) (origin : RawOrigin α) (call : RuntimeCall γ) :
    Reachable cfg s previous queued ((dispatch cfg s origin call st).getD st) := by
  cases call with
  | configuration call =>
    cases dispatched : Configuration.dispatch configurationSessionDelay s origin call st.configuration with
    | ok configuration =>
      simpa [dispatch, dispatched] using Reachable.configurationCall origin call reach dispatched
    | error e => simpa [dispatch, dispatched] using reach
  | registrar call =>
    cases dispatched : Registrar.dispatch cfg.registrar s origin call st.registrar with
    | ok registrar => simpa [dispatch, dispatched] using Reachable.registrarCall origin call reach dispatched
    | error e => simpa [dispatch, dispatched] using reach

theorem Reachable.extrinsics :
    ∀ {st : State α κ σ} (extrinsics : List (RawOrigin α × RuntimeCall γ)), Reachable cfg s previous queued st →
      Reachable cfg s previous queued (applyExtrinsics cfg s extrinsics st)
  | _, [], reach => reach
  | _, (origin, call) :: rest, reach => Reachable.extrinsics rest (reach.extrinsic origin call)

end Calls

/-! ### Calls before the change they precede -/

structure QueuesAhead (cfg : Config α γ σ) (t : Nat) (st : State α κ σ) : Prop where
  configuration : Ahead t configurationSessionDelay st.configuration.pendingConfigs
  registrar : Ahead t cfg.registrar.sessionDelay st.registrar.pendingParaIds

section Commute
variable {cfg : Config α γ σ} {t : Nat} {st : State α κ σ}

theorem QueuesAhead.extrinsic (queues : QueuesAhead cfg t st) (origin : RawOrigin α) (call : RuntimeCall γ) :
    QueuesAhead cfg t ((dispatch cfg t origin call st).getD st) := by
  cases call with
  | configuration call =>
    cases dispatched : Configuration.dispatch configurationSessionDelay t origin call st.configuration with
    | ok configuration =>
      simp only [dispatch, dispatched, Option.getD_some]
      refine ⟨?_, queues.registrar⟩
      rcases Configuration.dispatchOk dispatched with ⟨new, rfl⟩ | ⟨bypass, rfl⟩
      · exact scheduleAhead queues.configuration
      · exact queues.configuration
    | error e => simpa [dispatch, dispatched] using queues
  | registrar call =>
    cases dispatched : Registrar.dispatch cfg.registrar t origin call st.registrar with
    | ok registrar =>
      simp only [dispatch, dispatched, Option.getD_some]
      refine ⟨queues.configuration, ?_⟩
      obtain ⟨-, same | ⟨newParas, scheduled⟩⟩ := Registrar.dispatchQueue dispatched
      · exact same ▸ queues.registrar
      · exact scheduled ▸ scheduleAhead queues.registrar
    | error e => simpa [dispatch, dispatched] using queues

theorem Reachable.queuesAhead (positive : 0 < cfg.registrar.sessionDelay) {s : Nat} {previous queued : List (α × κ)}
    (reach : Reachable cfg s previous queued st) : QueuesAhead cfg (s + 1) st := by
  obtain ⟨configuration, registrar⟩ := reach.pallets
  have configured := configuration.window (by decide : 0 < configurationSessionDelay)
  have registered := registrar.window positive
  refine ⟨⟨configured.sorted, fun c listed => ?_⟩, ⟨registered.sorted, fun c listed => ?_⟩⟩
  · have := configured.within c listed
    omega
  · have := registered.within c listed
    omega

theorem applyNewSessionExtrinsic (delay : 2 ≤ cfg.registrar.sessionDelay) (queues : QueuesAhead cfg t st)
    {validators next : List (α × κ)} {changed : State α κ σ} (applied : applyNewSession t validators next st = some changed)
    (origin : RawOrigin α) (call : RuntimeCall γ) :
    applyNewSession t validators next ((dispatch cfg t origin call st).getD st) =
      some ((dispatch cfg t origin call changed).getD changed) := by
  have after := queues.extrinsic origin call
  rw [applyNewSessionEq] at applied
  obtain ⟨authorityAssignment, assigned, rfl⟩ := Option.map_eq_some_iff.1 applied
  cases call with
  | configuration call =>
    have commute : Configuration.dispatch configurationSessionDelay t origin call
        (Configuration.initializerOnNewSession t st.configuration).2 =
        (fun st' => (Configuration.initializerOnNewSession t st').2) <$>
          Configuration.dispatch configurationSessionDelay t origin call st.configuration :=
      Configuration.dispatchNewSession (by decide) queues.configuration.sorted origin call
    cases dispatched : Configuration.dispatch configurationSessionDelay t origin call st.configuration with
    | error e =>
      simp only [dispatch, commute, dispatched, Functor.map, Except.map, Option.getD_none]
      rw [applyNewSessionEq, assigned]
      rfl
    | ok configuration =>
      simp only [dispatch, dispatched, Option.getD_some] at after
      have config : Configuration.configAt (t + 1) (Configuration.initializerOnNewSession t configuration).2 =
          Configuration.configAt (t + 1) (Configuration.initializerOnNewSession t st.configuration).2 := by
        rw [Configuration.configAtNewSession after.configuration.sorted (Nat.le_succ t),
          Configuration.configAtNewSession queues.configuration.sorted (Nat.le_succ t)]
        exact Configuration.configAtDispatch (by unfold configurationSessionDelay; omega) dispatched
      have same : assignmentsAt t next { st with configuration } = assignmentsAt t next st :=
        assignmentsAtCongr rfl config rfl
      simp only [dispatch, commute, dispatched, Functor.map, Except.map, Option.getD_some]
      rw [applyNewSessionEq, same, assigned]
      rfl
  | registrar call =>
    have commute : Registrar.dispatch cfg.registrar t origin call (Registrar.initializerOnNewSession t st.registrar).2 =
        (fun st' => (Registrar.initializerOnNewSession t st').2) <$> Registrar.dispatch cfg.registrar t origin call st.registrar :=
      Registrar.dispatchNewSession (by omega) queues.registrar.sorted call
    cases dispatched : Registrar.dispatch cfg.registrar t origin call st.registrar with
    | error e =>
      simp only [dispatch, commute, dispatched, Functor.map, Except.map, Option.getD_none]
      rw [applyNewSessionEq, assigned]
      rfl
    | ok registrar =>
      simp only [dispatch, dispatched, Option.getD_some] at after
      have paras : Registrar.sessionContainerChains (t + 1) (Registrar.initializerOnNewSession t registrar).2 =
          Registrar.sessionContainerChains (t + 1) (Registrar.initializerOnNewSession t st.registrar).2 := by
        rw [Registrar.sessionContainerChainsNewSession after.registrar.sorted (Nat.le_succ t),
          Registrar.sessionContainerChainsNewSession queues.registrar.sorted (Nat.le_succ t)]
        exact Registrar.sessionContainerChainsDispatch (by omega) dispatched
      have same : assignmentsAt t next { st with registrar } = assignmentsAt t next st :=
        assignmentsAtCongr rfl rfl paras
      simp only [dispatch, commute, dispatched, Functor.map, Except.map, Option.getD_some]
      rw [applyNewSessionEq, same, assigned]
      rfl

theorem applyNewSessionExtrinsics (delay : 2 ≤ cfg.registrar.sessionDelay) {validators next : List (α × κ)}
    (extrinsics : List (RawOrigin α × RuntimeCall γ)) :
    ∀ {st changed : State α κ σ}, QueuesAhead cfg t st → applyNewSession t validators next st = some changed →
      applyNewSession t validators next (applyExtrinsics cfg t extrinsics st) = some (applyExtrinsics cfg t extrinsics changed) := by
  induction extrinsics with
  | nil => exact fun _ applied => applied
  | cons extrinsic rest ih =>
    obtain ⟨origin, call⟩ := extrinsic
    intro st changed queues applied
    rw [applyExtrinsics, applyExtrinsics]
    exact ih (queues.extrinsic origin call) (applyNewSessionExtrinsic delay queues applied origin call)

end Commute

/-! ### Blocks -/

def Consistent (cfg : Config α γ σ) (chain : Chain α κ σ) : Prop :=
  chain.buffered = none ∧ ∃ previous queued, Reachable cfg chain.currentIndex previous queued chain.runtime

def Block.Distinct (block : Block α κ γ) : Prop :=
  ∀ changed validators queued, block.rotation = some (changed, validators, queued) → (queued.map (·.1)).Nodup

section Blocks
variable {cfg : Config α γ σ} {chain chain' : Chain α κ σ} {block : Block α κ γ}

theorem onFinalizeSome (h : onFinalize chain = some chain') :
    chain'.buffered = none ∧ chain'.currentIndex = chain.currentIndex ∧
      (chain.buffered = none → chain'.runtime = chain.runtime) ∧
      ∀ change, chain.buffered = some change →
        applyNewSession change.sessionIndex change.validators change.queued chain.runtime = some chain'.runtime := by
  obtain ⟨⟨buffered, runtime⟩, finalized, rfl⟩ := Option.map_eq_some_iff.1 h
  obtain ⟨idle, kept, applied⟩ := Initializer.onFinalizeApplies finalized
  exact ⟨idle, rfl, kept, applied⟩

theorem onInitializeStarted (rotation : Option (Bool × List (α × κ) × List (α × κ))) (chain : Chain α κ σ) :
    ∃ started, onInitialize rotation chain = some started ∧ started.runtime = chain.runtime ∧
      started.currentIndex = if rotation.isSome then chain.currentIndex + 1 else chain.currentIndex := by
  cases rotation with
  | none => exact ⟨chain, rfl, rfl, rfl⟩
  | some rotation =>
    obtain ⟨changed, validators, next⟩ := rotation
    refine ⟨⟨chain.runtime, some ⟨changed, validators, next, chain.currentIndex + 1⟩, chain.currentIndex + 1⟩, ?_, rfl, rfl⟩
    simp only [onInitialize, Initializer.onNewSessionBuffers (Nat.succ_ne_zero _), Option.map_some]

theorem executeBlockSome (cfg : Config α γ σ) (block : Block α κ γ) (chain : Chain α κ σ) :
    (executeBlock cfg block chain).isSome := by
  obtain ⟨started, initialized, -⟩ := onInitializeStarted block.rotation chain
  have finalized : ∀ started : Chain α κ σ, (onFinalize started).isSome := by
    intro started
    unfold onFinalize Initializer.onFinalize
    cases started.buffered with
    | none => rfl
    | some change =>
      simpa [ownApplySession] using
        applyNewSessionSucceeds change.sessionIndex change.validators change.queued started.runtime
  simp only [executeBlock, initialized, Option.bind_some, finalized]

theorem executeBlockConsistent (delay : 2 ≤ cfg.registrar.sessionDelay) (inv : Consistent cfg chain)
    (distinct : block.Distinct) (h : executeBlock cfg block chain = some chain') : Consistent cfg chain' := by
  obtain ⟨idle, previous, queued, reach⟩ := inv
  obtain ⟨started, initialized, finalized⟩ := Option.bind_eq_some_iff.1 h
  obtain ⟨done, index, kept, applied⟩ := onFinalizeSome finalized
  refine ⟨done, ?_⟩
  cases rotation : block.rotation with
  | none =>
    simp only [rotation, onInitialize, Option.some.injEq] at initialized
    subst initialized
    exact ⟨previous, queued, index ▸ (kept idle) ▸ reach.extrinsics block.extrinsics⟩
  | some r =>
    obtain ⟨changed, validators, next⟩ := r
    simp only [rotation, onInitialize, Initializer.onNewSessionBuffers (Nat.succ_ne_zero _), Option.map_some,
      Option.some.injEq] at initialized
    subst initialized
    obtain ⟨following, first⟩ := Option.isSome_iff_exists.1
      (applyNewSessionSucceeds (chain.currentIndex + 1) validators next chain.runtime)
    have reach' : Reachable cfg (chain.currentIndex + 1) queued next following :=
      .newSession reach (distinct changed validators next rotation) first
    have commuted := applyNewSessionExtrinsics delay block.extrinsics (reach.queuesAhead (by omega)) first
    have ran := applied _ rfl
    simp only at ran index
    rw [commuted, Option.some.injEq] at ran
    exact ⟨queued, next, index ▸ ran ▸ reach'.extrinsics block.extrinsics⟩

theorem genesisChainConsistent {config : Configuration.HostConfiguration} {paraIds : List (ParaId × γ)} {currency : σ}
    {validators : List (α × κ)} (distinct : (validators.map (·.1)).Nodup)
    (h : genesisChain cfg config paraIds currency validators = some chain) : Consistent cfg chain := by
  obtain ⟨configuration, configured, h⟩ := Option.bind_eq_some_iff.1 h
  obtain ⟨registrar, registered, h⟩ := Option.bind_eq_some_iff.1 h
  obtain ⟨⟨buffered, runtime⟩, started, rfl⟩ := Option.map_eq_some_iff.1 h
  obtain ⟨rfl, applied⟩ := Initializer.onGenesisSessionApplies started
  exact ⟨rfl, validators, validators, .genesis configured registered distinct applied⟩

theorem executeBlocksConsistent (delay : 2 ≤ cfg.registrar.sessionDelay) :
    ∀ {blocks : List (Block α κ γ)} {chain chain' : Chain α κ σ}, Consistent cfg chain →
      (∀ block ∈ blocks, block.Distinct) → executeBlocks cfg blocks chain = some chain' → Consistent cfg chain'
  | [], _, _, inv, _, h => Option.some.inj h ▸ inv
  | block :: rest, _, _, inv, distinct, h => by
    obtain ⟨next, executed, h⟩ := Option.bind_eq_some_iff.1 h
    exact executeBlocksConsistent delay (executeBlockConsistent delay inv (distinct block List.mem_cons_self) executed)
      (fun b listed => distinct b (List.mem_cons_of_mem block listed)) h

theorem executeBlocksSome (cfg : Config α γ σ) :
    ∀ (blocks : List (Block α κ γ)) (chain : Chain α κ σ), (executeBlocks cfg blocks chain).isSome
  | [], _ => rfl
  | block :: rest, chain => by
    obtain ⟨next, executed⟩ := Option.isSome_iff_exists.1 (executeBlockSome cfg block chain)
    simp only [executeBlocks, executed, Option.bind_some]
    exact executeBlocksSome cfg rest next

theorem blocksRefineAtomicSessions (delay : 2 ≤ cfg.registrar.sessionDelay) {config : Configuration.HostConfiguration}
    {paraIds : List (ParaId × γ)} {currency : σ} {validators : List (α × κ)} (distinct : (validators.map (·.1)).Nodup)
    {genesis : Chain α κ σ} (built : genesisChain cfg config paraIds currency validators = some genesis)
    (blocks : List (Block α κ γ)) (rotations : ∀ block ∈ blocks, block.Distinct) :
    ∃ chain, executeBlocks cfg blocks genesis = some chain ∧ chain.buffered = none ∧
      ∃ previous queued, Reachable cfg chain.currentIndex previous queued chain.runtime := by
  obtain ⟨chain, executed⟩ := Option.isSome_iff_exists.1 (executeBlocksSome cfg blocks genesis)
  exact ⟨chain, executed, executeBlocksConsistent delay (genesisChainConsistent distinct built) rotations executed⟩

end Blocks

theorem blocksRefineAtomicSessionsTwoBlocks :
    let cfg : Config Nat Nat (Nat → Nat × Nat) := ⟨⟨fun _ => true, 100, 1000, id, 2, Registrar.balances, 10⟩, 1000⟩
    let validators : List (Nat × Nat) := [(1, 11), (2, 12)]
    let blocks : List (Block Nat Nat Nat) :=
      [⟨some (true, validators, validators), [(.root, .configuration (.setMaxCollators 50))]⟩,
        ⟨none, [(.signed 1, .registrar (.register 2000 0))]⟩]
    ∃ genesis, genesisChain cfg default [] (fun _ => (50, 0)) validators = some genesis ∧
      ∃ chain, executeBlocks cfg blocks genesis = some chain ∧ chain.buffered = none ∧
        ∃ previous queued, Reachable cfg chain.currentIndex previous queued chain.runtime := by
  intro cfg validators blocks
  obtain ⟨genesis, built⟩ := Option.isSome_iff_exists.1
    (show (genesisChain cfg default ([] : List (ParaId × Nat)) (fun _ => (50, 0)) validators).isSome by decide +kernel)
  have rotations : ∀ block ∈ blocks, block.Distinct := by
    simp only [blocks, List.mem_cons, List.not_mem_nil, or_false]
    rintro block (rfl | rfl) changed validators' queued rotation <;> cases rotation
    decide
  exact ⟨genesis, built, blocksRefineAtomicSessions (by decide) (by decide) built blocks rotations⟩

/-! ### The collator assignment's runtime API -/

/-- `current_collator_parachain_assignment`. -/
def currentCollatorParachainAssignment (cfg : Config α γ σ) (account : α) (st : State α κ σ) : Option ParaId :=
  st.collatorAssignment.collatorContainerChain.paraIdOf account cfg.selfParaId

/-- `future_collator_parachain_assignment`: by the pending assignment if there is one, else by
the current one. -/
def futureCollatorParachainAssignment (cfg : Config α γ σ) (account : α) (st : State α κ σ) : Option ParaId :=
  match st.collatorAssignment.pendingCollatorContainerChain with
  | some assignedCollators => assignedCollators.paraIdOf account cfg.selfParaId
  | none => currentCollatorParachainAssignment cfg account st

/-- `parachain_collators`. -/
def parachainCollators (cfg : Config α γ σ) (paraId : ParaId) (st : State α κ σ) : Option (List α) :=
  let assignedCollators := st.collatorAssignment.collatorContainerChain
  if paraId = cfg.selfParaId then some assignedCollators.orchestratorChain
  else assignedCollators.containerChains.get paraId

section Api
variable {cfg : Config α γ σ} {chain chain' : Chain α κ σ} {block : Block α κ γ}

theorem futureCollatorParachainAssignmentRead (account : α) (st : State α κ σ) :
    futureCollatorParachainAssignment cfg account st =
      (CollatorAssignment.readAssignedCollators st.collatorAssignment).paraIdOf account cfg.selfParaId := by
  unfold futureCollatorParachainAssignment CollatorAssignment.readAssignedCollators
  cases st.collatorAssignment.pendingCollatorContainerChain <;> rfl

theorem applyExtrinsicsCollatorAssignment (t : Nat) :
    ∀ (extrinsics : List (RawOrigin α × RuntimeCall γ)) (st : State α κ σ),
      (applyExtrinsics cfg t extrinsics st).collatorAssignment = st.collatorAssignment
  | [], _ => rfl
  | (origin, call) :: rest, st => by
    rw [applyExtrinsics, applyExtrinsicsCollatorAssignment t rest]
    cases call with
    | configuration call =>
      cases dispatched : Configuration.dispatch configurationSessionDelay t origin call st.configuration <;>
        simp [dispatch, dispatched]
    | registrar call =>
      cases dispatched : Registrar.dispatch cfg.registrar t origin call st.registrar <;> simp [dispatch, dispatched]

theorem applyNewSessionActive {s : Nat} {validators next : List (α × κ)} {st st' : State α κ σ}
    (h : applyNewSession (s + 1) validators next st = some st') :
    st'.collatorAssignment.collatorContainerChain = CollatorAssignment.readAssignedCollators st.collatorAssignment := by
  rw [(applyNewSessionOk h).2.2.1, assignmentsAt, CollatorAssignment.activeStored,
    CollatorAssignment.activeRead _ _ _ _ (Nat.succ_ne_zero s)]

theorem executeBlockCollatorAssignment (idle : chain.buffered = none) (h : executeBlock cfg block chain = some chain') :
    (block.rotation = none → chain'.runtime.collatorAssignment = chain.runtime.collatorAssignment) ∧
      chain'.runtime.collatorAssignment.collatorContainerChain = sessionCollators block.rotation.isSome chain.runtime := by
  obtain ⟨started, initialized, finalized⟩ := Option.bind_eq_some_iff.1 h
  obtain ⟨-, -, kept, applied⟩ := onFinalizeSome finalized
  cases rotation : block.rotation with
  | none =>
    simp only [rotation, onInitialize, Option.some.injEq] at initialized
    subst initialized
    have same : chain'.runtime.collatorAssignment = chain.runtime.collatorAssignment := by
      rw [kept idle]
      exact applyExtrinsicsCollatorAssignment _ _ _
    exact ⟨fun _ => same, by rw [same]; rfl⟩
  | some r =>
    -- the change is applied after the block's calls, which did not touch the assignment
    obtain ⟨changed, validators, next⟩ := r
    simp only [rotation, onInitialize, Initializer.onNewSessionBuffers (Nat.succ_ne_zero _), Option.map_some,
      Option.some.injEq] at initialized
    subst initialized
    have ran := applied _ rfl
    simp only at ran
    refine ⟨fun rotated => (by cases rotated), ?_⟩
    rw [applyNewSessionActive ran, applyExtrinsicsCollatorAssignment]
    rfl

theorem genesisChainIdle {config : Configuration.HostConfiguration} {paraIds : List (ParaId × γ)} {currency : σ}
    {validators : List (α × κ)} (h : genesisChain cfg config paraIds currency validators = some chain) :
    chain.buffered = none := by
  obtain ⟨configuration, -, h⟩ := Option.bind_eq_some_iff.1 h
  obtain ⟨registrar, -, h⟩ := Option.bind_eq_some_iff.1 h
  obtain ⟨⟨buffered, runtime⟩, started, rfl⟩ := Option.map_eq_some_iff.1 h
  exact (Initializer.onGenesisSessionApplies started).1

theorem executeBlocksIdle :
    ∀ {blocks : List (Block α κ γ)} {chain chain' : Chain α κ σ}, chain.buffered = none →
      executeBlocks cfg blocks chain = some chain' → chain'.buffered = none
  | [], _, _, idle, h => Option.some.inj h ▸ idle
  | block :: rest, _, _, _, h => by
    obtain ⟨next, executed, h⟩ := Option.bind_eq_some_iff.1 h
    obtain ⟨started, -, finalized⟩ := Option.bind_eq_some_iff.1 executed
    exact executeBlocksIdle (onFinalizeSome finalized).1 h

theorem futureCollatorParachainAssignmentPredicts {config : Configuration.HostConfiguration}
    {paraIds : List (ParaId × γ)} {currency : σ} {validators : List (α × κ)} {genesis : Chain α κ σ}
    (built : genesisChain cfg config paraIds currency validators = some genesis) {blocks : List (Block α κ γ)}
    (reached : executeBlocks cfg blocks genesis = some chain) (h : executeBlock cfg block chain = some chain')
    (account : α) :
    currentCollatorParachainAssignment cfg account chain'.runtime =
        (if block.rotation.isSome then futureCollatorParachainAssignment cfg account chain.runtime
          else currentCollatorParachainAssignment cfg account chain.runtime) ∧
      (block.rotation = none →
        futureCollatorParachainAssignment cfg account chain'.runtime =
          futureCollatorParachainAssignment cfg account chain.runtime) := by
  have idle := executeBlocksIdle (genesisChainIdle built) reached
  obtain ⟨kept, active⟩ := executeBlockCollatorAssignment idle h
  cases rotation : block.rotation with
  | none =>
    have same := kept rotation
    simp [currentCollatorParachainAssignment, futureCollatorParachainAssignment, same]
  | some r =>
    rw [rotation] at active
    refine ⟨?_, fun absurd => by cases absurd⟩
    rw [Option.isSome_some, if_pos rfl, currentCollatorParachainAssignment, active, futureCollatorParachainAssignmentRead]
    rfl

theorem futureCollatorParachainAssignmentPredictsAtGenesis :
    let cfg : Config Nat Nat (Nat → Nat × Nat) := ⟨⟨fun _ => true, 100, 1000, id, 2, Registrar.balances, 10⟩, 1000⟩
    let validators : List (Nat × Nat) := [(1, 11), (2, 12)]
    let block : Block Nat Nat Nat := ⟨some (true, validators, validators), [(.root, .configuration (.setMaxCollators 50))]⟩
    ∃ genesis chain', genesisChain cfg default [] (fun _ => (50, 0)) validators = some genesis ∧
      executeBlock cfg block genesis = some chain' ∧
      (currentCollatorParachainAssignment cfg 1 chain'.runtime =
          (if block.rotation.isSome then futureCollatorParachainAssignment cfg 1 genesis.runtime
            else currentCollatorParachainAssignment cfg 1 genesis.runtime) ∧
        (block.rotation = none →
          futureCollatorParachainAssignment cfg 1 chain'.runtime = futureCollatorParachainAssignment cfg 1 genesis.runtime)) := by
  intro cfg validators block
  obtain ⟨genesis, built⟩ := Option.isSome_iff_exists.1
    (show (genesisChain cfg default ([] : List (ParaId × Nat)) (fun _ => (50, 0)) validators).isSome by decide +kernel)
  obtain ⟨chain', executed⟩ := Option.isSome_iff_exists.1 (executeBlockSome cfg block genesis)
  have reached : executeBlocks cfg ([] : List (Block Nat Nat Nat)) genesis = some genesis := rfl
  exact ⟨genesis, chain', built, executed, futureCollatorParachainAssignmentPredicts built reached executed 1⟩

theorem Reachable.noDuplicates {s : Nat} {previous queued : List (α × κ)} {st : State α κ σ}
    (reach : Reachable cfg s previous queued st) : CollatorAssignment.NoDuplicates st.collatorAssignment := by
  induction reach with
  | genesis _ _ distinct applied =>
    rw [(applyNewSessionOk applied).2.2.1]
    exact CollatorAssignment.stepNoDuplicates _ _ ⟨List.nodup_nil, fun _ none => by cases none⟩ distinct
  | configurationCall _ _ _ _ inv => exact inv
  | registrarCall _ _ _ _ inv => exact inv
  | newSession _ distinct applied inv =>
    rw [(applyNewSessionOk applied).2.2.1]
    exact CollatorAssignment.stepNoDuplicates _ _ inv distinct

theorem parachainCollatorsAgree {s : Nat} {previous queued : List (α × κ)} {st : State α κ σ}
    (reach : Reachable cfg s previous queued st)
    (separate : st.collatorAssignment.collatorContainerChain.containerChains.get cfg.selfParaId = none)
    (account : α) (paraId : ParaId) :
    currentCollatorParachainAssignment cfg account st = some paraId ↔
      ∃ collators, parachainCollators cfg paraId st = some collators ∧ account ∈ collators := by
  have nodup := reach.noDuplicates.1
  constructor
  · intro assigned
    rcases AssignedCollators.paraIdOfSome assigned with ⟨rfl, held⟩ | ⟨collators, chain, held⟩
    · exact ⟨_, if_pos rfl, held⟩
    · have container : paraId ≠ cfg.selfParaId := by
        rintro rfl
        simp [separate] at chain
      exact ⟨collators, by simp [parachainCollators, container, chain], held⟩
  · rintro ⟨collators, listed, held⟩
    unfold parachainCollators at listed
    split at listed
    · rename_i orchestrator
      obtain rfl := Option.some.inj listed
      rw [orchestrator]
      exact AssignedCollators.paraIdOfOrchestrator _ nodup held
    · exact AssignedCollators.paraIdOfContainer _ nodup listed held

theorem parachainCollatorsAgreeAtGenesis :
    let cfg : Config Nat Nat (Nat → Nat × Nat) := ⟨⟨fun _ => true, 100, 1000, id, 2, Registrar.balances, 10⟩, 1000⟩
    let validators : List (Nat × Nat) := [(1, 11), (2, 12), (3, 13), (4, 14)]
    ∃ genesis, genesisChain cfg default [(2000, 0)] (fun _ => (50, 0)) validators = some genesis ∧
      (currentCollatorParachainAssignment cfg 3 genesis.runtime = some 2000 ↔
        ∃ collators, parachainCollators cfg 2000 genesis.runtime = some collators ∧ 3 ∈ collators) := by
  intro cfg validators
  obtain ⟨genesis, built⟩ := Option.isSome_iff_exists.1
    (show (genesisChain cfg default [(2000, 0)] (fun _ => (50, 0)) validators).isSome by decide +kernel)
  have separate : (genesisChain cfg default [(2000, 0)] (fun _ => (50, 0)) validators).all
      (fun g => (g.runtime.collatorAssignment.collatorContainerChain.containerChains.get cfg.selfParaId).isNone) := by
    decide +kernel
  rw [built, Option.all_some, Option.isNone_iff_eq_none] at separate
  obtain ⟨previous, queued, reach⟩ := (genesisChainConsistent (by decide) built).2
  exact ⟨genesis, built, parachainCollatorsAgree reach separate 3 2000⟩

end Api

end Tanssi.Runtime

import Tanssi.Runtime.Block
import Tanssi.AuthorNoting
import Tanssi.AuthoritiesNoting
import Tanssi.Node.Consensus

/-! Who may author a block, as each part of Tanssi decides it. A collator node claims a slot
with the key `slot_author` picks from what the orchestrator's runtime API answers; the
orchestrator's runtime checks its own blocks with `CanAuthor`; a container chain checks its
blocks against the authorities its inherent read from the orchestrator's storage; and the
orchestrator's author noting credits a container chain's block to the collator
`author_for_slot` names for the block's slot. A node builds a session's last block with the
next session's keys. The orchestrator reads them too: its session pallet raises the index
before `CanAuthor` runs, and a later block notes the container chain's block once the change
has been applied. A container chain does not: its inherent reads the head's current session,
and refuses the block the node built on a session-ending head when the two sessions' slot
authors differ. The runtimes read the slot as a `u32` and the node as a `u64`: the agreement
is stated for slots below `2 ^ 32`. -/

namespace Tanssi.Runtime
open Frame Scale Generic ChainStateSnapshot GenericStateProof WellKnownKeys

variable {α κ γ σ η : Type} [LinearOrder α] [LinearOrder κ]

/-- `check_para_id_assignment`: the para the authority assignment of the block's session gives
the key. -/
def checkParaIdAssignment (cfg : Config α γ σ) (currentIndex : Nat) (shouldEndSession : Bool) (authority : κ)
    (st : State α κ σ) : Option ParaId := do
  let sessionIndex := if shouldEndSession then currentIndex + 1 else currentIndex
  let assignedAuthorities ← st.authorityAssignment.collatorContainerChain sessionIndex
  assignedAuthorities.paraIdOf authority cfg.selfParaId

/-- `check_para_id_assignment_next_session`. -/
def checkParaIdAssignmentNextSession (cfg : Config α γ σ) (currentIndex : Nat) (authority : κ) (st : State α κ σ) :
    Option ParaId := do
  let assignedAuthorities ← st.authorityAssignment.collatorContainerChain (currentIndex + 1)
  assignedAuthorities.paraIdOf authority cfg.selfParaId

/-- `AuraApi::authorities`: the orchestrator chain's keys in the block's session; `none` where
the `expect` panics. -/
def auraAuthorities (currentIndex : Nat) (shouldEndSession : Bool) (st : State α κ σ) : Option (List κ) :=
  let sessionIndex := if shouldEndSession then currentIndex + 1 else currentIndex
  (st.authorityAssignment.collatorContainerChain sessionIndex).map (·.orchestratorChain)

/-- `CanAuthor::can_author` of the orchestrator chain, in the current session; `none` where the
`expect` panics. -/
def canAuthor (currentIndex : Nat) (author : κ) (slot : Nat) (st : State α κ σ) : Option Bool :=
  (st.authorityAssignment.collatorContainerChain currentIndex).map fun assigned =>
    let authorities := assigned.orchestratorChain
    if authorities.length = 0 then false
    else decide (authorities[slot % authorities.length]? = some author)

theorem slotAuthorTest (authorities : List κ) (author : κ) (slot : Nat) :
    (if authorities.length = 0 then false else decide (authorities[slot % authorities.length]? = some author)) =
      decide (slotAuthor slot authorities = some author) := by
  unfold slotAuthor
  by_cases empty : authorities = [] <;> simp [empty]

omit [LinearOrder α] in
theorem canAuthorParaIdAuthorities (cfg : Config α γ σ) (currentIndex : Nat) (author : κ) (slot : Nat)
    (st : State α κ σ) :
    canAuthor currentIndex author slot st = (paraIdAuthorities cfg currentIndex false cfg.selfParaId st).map
      fun authorities => decide (slotAuthor slot authorities = some author) := by
  cases stored : st.authorityAssignment.collatorContainerChain currentIndex with
  | none => simp [canAuthor, paraIdAuthorities, stored]
  | some assigned =>
    have answered : paraIdAuthorities cfg currentIndex false cfg.selfParaId st = some assigned.orchestratorChain := by
      simp [paraIdAuthorities, stored]
    rw [answered, Option.map_some, ← slotAuthorTest]
    simp only [canAuthor, stored, Option.map_some]

omit [LinearOrder α] in
theorem paraIdAuthoritiesSession (cfg : Config α γ σ) (s : Nat) (shouldEndSession : Bool) (paraId : ParaId)
    (st : State α κ σ) :
    paraIdAuthorities cfg (if shouldEndSession then s + 1 else s) false paraId st =
      paraIdAuthorities cfg s shouldEndSession paraId st := by
  cases shouldEndSession <;> rfl

theorem containerCanAuthor (cst : AuthoritiesNoting.State κ) (author : κ) (slot : Nat) :
    AuthoritiesNoting.canAuthor cst author slot = decide (slotAuthor slot cst.authorities = some author) := by
  unfold AuthoritiesNoting.canAuthor slotAuthor
  by_cases empty : cst.authorities = [] <;> simp [empty]

theorem containerCanAuthorGetD {cst : AuthoritiesNoting.State κ} {authorities : Option (List κ)}
    (held : cst.authorities = authorities.getD []) (author : κ) (slot : Nat) :
    AuthoritiesNoting.canAuthor cst author slot = decide (authorities.bind (slotAuthor slot) = some author) := by
  rw [containerCanAuthor, held]
  cases authorities <;> rfl

omit [LinearOrder κ] in
theorem auraDigestSlotPreDigest (encodeKey : κ → List UInt8) {slot : Nat} (small : slot < 2 ^ 64) (claim : κ)
    (others : List DigestItem) :
    AuthoritiesNoting.auraDigestSlot (Node.Consensus.preDigestData encodeKey slot claim ++ others) = some (slot % 2 ^ 32) := by
  have read : decodeU64 (encodeU64 slot) = some (slot, []) := by simpa using roundTripU64 slot small []
  simp [AuthoritiesNoting.auraDigestSlot, Node.Consensus.preDigestData, convertFirst, Aura.preDigest,
    DigestItem.preRuntimeTryTo, read]

section Agreement
variable {cfg : Config α γ σ} {s : Nat} {previous queued : List (α × κ)} {st : State α κ σ} {paraId : ParaId}

omit [LinearOrder κ] in
theorem slotAuthorOwnerMapM (distinct : (previous.map (·.1)).Nodup) {collators : List α} {authorities : List κ}
    (mapped : collators.mapM (nimbusKeys previous) = some authorities) {slot : Nat} {key : κ}
    (picked : slotAuthor slot authorities = some key) :
    ∃ collator, slotAuthor slot collators = some collator ∧ (collator, key) ∈ previous := by
  rw [slotAuthorMapM mapped slot] at picked
  obtain ⟨collator, turn, keyed⟩ := Option.bind_eq_some_iff.1 picked
  exact ⟨collator, turn, (SortedMap.ofListGet distinct).1 keyed⟩

theorem sessionSlotAuthorOwner (reach : Reachable cfg s previous queued st) (shouldEndSession : Bool)
    (container : paraId ≠ cfg.selfParaId) {slot : Nat} {key : κ}
    (picked : (paraIdAuthorities cfg s shouldEndSession paraId st).bind (slotAuthor slot) = some key) :
    ∃ author, ((sessionCollators shouldEndSession st).containerChains.get paraId).bind (slotAuthor slot) = some author ∧
      (author, key) ∈ (if shouldEndSession then queued else previous) := by
  rw [reach.mirrors.sessionSlotAuthors shouldEndSession container slot] at picked
  obtain ⟨author, found, keyed⟩ := Option.bind_eq_some_iff.1 picked
  exact ⟨author, found, (SortedMap.ofListGet (reach.sessionKeysDistinct _)).1 keyed⟩

theorem slotAuthorOwner (reach : Reachable cfg s previous queued st) (container : paraId ≠ cfg.selfParaId)
    {slot : Nat} {key : κ} (picked : (paraIdAuthorities cfg s false paraId st).bind (slotAuthor slot) = some key) :
    ∃ author, CollatorAssignment.authorForSlot slot paraId st.collatorAssignment = some author ∧ (author, key) ∈ previous :=
  sessionSlotAuthorOwner reach false container picked

theorem orchestratorBlockAccepted {chain : Chain α κ σ} (idle : chain.buffered = none)
    (reach : Reachable cfg chain.currentIndex previous queued chain.runtime) {block : Block α κ γ}
    {hasKeys : κ → Bool} {slot : Nat} (small : slot < 2 ^ 32) {claim : κ}
    (claimed : (paraIdAuthorities cfg chain.currentIndex block.rotation.isSome cfg.selfParaId chain.runtime).bind
      (Node.Consensus.claimSlot false hasKeys slot) = some claim)
    (encodeKey : κ → List UInt8) (others : List DigestItem) :
    AuthoritiesNoting.auraDigestSlot (Node.Consensus.preDigestData encodeKey slot claim ++ others) = some slot ∧
      (∃ started, onInitialize block.rotation chain = some started ∧
        ∀ author, canAuthor started.currentIndex author slot started.runtime = some (decide (author = claim))) ∧
      ∃ chain', executeBlock cfg block chain = some chain' ∧
        ∃ collator, slotAuthor slot chain'.runtime.collatorAssignment.collatorContainerChain.orchestratorChain =
          some collator ∧ (collator, claim) ∈ (if block.rotation.isSome then queued else previous) := by
  obtain ⟨authorities, answered, picked⟩ := Node.Consensus.claimSlotBindSome claimed
  obtain ⟨started, initialized, runtime, index⟩ := onInitializeStarted block.rotation chain
  obtain ⟨chain', executed⟩ := Option.isSome_iff_exists.1 (executeBlockSome cfg block chain)
  refine ⟨?_, ⟨started, initialized, fun author => ?_⟩, chain', executed, ?_⟩
  · rw [auraDigestSlotPreDigest encodeKey (by omega) claim others, Nat.mod_eq_of_lt small]
  · rw [runtime, index, canAuthorParaIdAuthorities cfg, paraIdAuthoritiesSession, answered, Option.map_some, picked]
    simp [eq_comm]
  · obtain ⟨b, stored, mapped⟩ := reach.mirrors.sessionSome block.rotation.isSome
    have same : authorities = b.orchestratorChain := by
      simpa [paraIdAuthorities, stored] using answered.symm
    rw [same] at picked
    rw [(executeBlockCollatorAssignment idle executed).2]
    exact slotAuthorOwnerMapM (reach.sessionKeysDistinct _) (AssignedCollators.mapMEq mapped).1 picked

/- The last block of session 1, which ends it with the same keys queued again. -/

def sampleEndingBlock : Block Nat Nat Nat := ⟨some (true, sampleNextQueued, sampleNextQueued), []⟩

def sampleSessionTwo : Chain Nat Nat (Nat → Nat × Nat) :=
  (executeBlock sampleConfig sampleEndingBlock ⟨sampleSessionOne, none, 1⟩).get (executeBlockSome _ _ _)

theorem orchestratorBlockAcceptedAtSessionEnd :
    AuthoritiesNoting.auraDigestSlot (Node.Consensus.preDigestData encodeU32 5 16 ++ []) = some 5 ∧
      (∃ started, onInitialize sampleEndingBlock.rotation ⟨sampleSessionOne, none, 1⟩ = some started ∧
        ∀ author, canAuthor started.currentIndex author 5 started.runtime = some (decide (author = 16))) ∧
      ∃ chain', executeBlock sampleConfig sampleEndingBlock ⟨sampleSessionOne, none, 1⟩ = some chain' ∧
        ∃ collator, slotAuthor 5 chain'.runtime.collatorAssignment.collatorContainerChain.orchestratorChain =
          some collator ∧ (collator, 16) ∈ (if sampleEndingBlock.rotation.isSome then sampleNextQueued else sampleQueued) :=
  orchestratorBlockAccepted rfl sampleSessionOneReachable (by decide)
    (show (paraIdAuthorities sampleConfig 1 sampleEndingBlock.rotation.isSome 1000 sampleSessionOne).bind
      (Node.Consensus.claimSlot false (fun _ => true) 5) = some 16 by decide +kernel) encodeU32 []

theorem setLatestAuthoritiesDataMirrors (reach : Reachable cfg s previous queued st) (container : paraId ≠ cfg.selfParaId)
    {encodeK : κ → List UInt8} {decodeK : Decoder κ} {FitsK : κ → Prop} (keys : RoundTrip encodeK decodeK FitsK)
    (small : s < 2 ^ 32) {twox64 : List UInt8 → List UInt8} {relayStorageRoot : List UInt8}
    {relayChainState orchestratorChainState : StorageProof (List UInt8)} {cst : AuthoritiesNoting.State κ}
    (unset : cst.didSetOrchestratorAuthorityData = false) {header : Header}
    (head : AuthoritiesNoting.ShowsHead twox64 cst.orchestratorParaId relayStorageRoot relayChainState header)
    (shown : ∀ b, st.authorityAssignment.collatorContainerChain s = some b →
      b.Fits FitsK ∧ AuthoritiesNoting.ShowsAssignment twox64 encodeK header.stateRoot orchestratorChainState s b) :
    AuthoritiesNoting.setLatestAuthoritiesData twox64 decodeK paraId relayStorageRoot relayChainState
        orchestratorChainState .none cst =
      some (.ok { cst with
        authorities := (paraIdAuthorities cfg s false paraId st).getD []
        didSetOrchestratorAuthorityData := true }) := by
  obtain ⟨b, stored, -⟩ := reach.mirrors.currentSome
  have read : paraIdAuthorities cfg s false paraId st = b.containerChains.get paraId := by
    simp [paraIdAuthorities, stored, container]
  obtain ⟨fits, assignment⟩ := shown b stored
  rw [read]
  exact AuthoritiesNoting.setLatestAuthoritiesDataReads keys unset head small fits assignment

theorem containerBlockAccepted (reach : Reachable cfg s previous queued st) (container : paraId ≠ cfg.selfParaId)
    {encodeK : κ → List UInt8} {decodeK : Decoder κ} {FitsK : κ → Prop} (keys : RoundTrip encodeK decodeK FitsK)
    (small : s < 2 ^ 32) {twox64 : List UInt8 → List UInt8} {relayStorageRoot : List UInt8}
    {relayChainState orchestratorChainState : StorageProof (List UInt8)} {cst : AuthoritiesNoting.State κ}
    (unset : cst.didSetOrchestratorAuthorityData = false) {header : Header}
    (head : AuthoritiesNoting.ShowsHead twox64 cst.orchestratorParaId relayStorageRoot relayChainState header)
    (shown : ∀ b, st.authorityAssignment.collatorContainerChain s = some b →
      b.Fits FitsK ∧ AuthoritiesNoting.ShowsAssignment twox64 encodeK header.stateRoot orchestratorChainState s b)
    {shouldEndSession : Bool} {hasKeys : κ → Bool} {slot : Nat} (slotSmall : slot < 2 ^ 32) {claim : κ}
    (claimed : (paraIdAuthorities cfg s shouldEndSession paraId st).bind
      (Node.Consensus.claimSlot false hasKeys slot) = some claim)
    (encodeKey : κ → List UInt8) (others : List DigestItem) :
    ∃ cst', AuthoritiesNoting.setLatestAuthoritiesData twox64 decodeK paraId relayStorageRoot relayChainState
        orchestratorChainState .none cst = some (.ok cst') ∧
      AuthoritiesNoting.auraDigestSlot (Node.Consensus.preDigestData encodeKey slot claim ++ others) = some slot ∧
      (∀ author, AuthoritiesNoting.canAuthor cst' author slot =
        decide ((paraIdAuthorities cfg s false paraId st).bind (slotAuthor slot) = some author)) ∧
      (shouldEndSession = false →
        (∀ author, AuthoritiesNoting.canAuthor cst' author slot = decide (author = claim)) ∧
        ∃ collator, CollatorAssignment.authorForSlot slot paraId st.collatorAssignment = some collator ∧
          (collator, claim) ∈ previous) := by
  refine ⟨_, setLatestAuthoritiesDataMirrors reach container keys small unset head shown, ?_,
    fun author => containerCanAuthorGetD rfl author slot, fun unended => ?_⟩
  · rw [auraDigestSlotPreDigest encodeKey (by omega) claim others, Nat.mod_eq_of_lt slotSmall]
  · subst unended
    have slotted := Node.Consensus.claimSlotBindAuthor claimed
    refine ⟨fun author => ?_, slotAuthorOwner reach container slotted⟩
    rw [containerCanAuthorGetD rfl, slotted]
    simp [eq_comm]

/- The orchestrator's head and state as a container chain's inherent is given them, with
`twox_64` a constant. -/

def sampleTwox64 (_ : List UInt8) : List UInt8 := [0, 0, 0, 0, 0, 0, 0, 0]

def sampleHeader : Header := ⟨List.replicate 32 0, 7, List.replicate 32 1, List.replicate 32 2, []⟩

def sampleRelayChainState : StorageProof (List UInt8) :=
  ⟨false, fun _ => true, fun _ key =>
    .ok (if key = paraIdHead sampleTwox64 1000 then some (encodeBytes sampleHeader.encode) else none)⟩

def sampleOrchestratorChainState (sessionIndex : Nat) (st : State Nat Nat (Nat → Nat × Nat)) : StorageProof (List UInt8) :=
  ⟨false, fun _ => true, fun _ key =>
    .ok (if key = WellKnownKeys.sessionIndex then some (encodeU32 sessionIndex)
      else if key = authorityAssignmentForSession sampleTwox64 sessionIndex then
        (st.authorityAssignment.collatorContainerChain sessionIndex).map (AssignedCollators.encode encodeU32)
      else none)⟩

theorem sampleHeadShown : AuthoritiesNoting.ShowsHead sampleTwox64 1000 [] sampleRelayChainState sampleHeader :=
  ⟨rfl, by decide, by decide, [], by simp [sampleRelayChainState]⟩

theorem sampleAssignmentShown {sessionIndex : Nat} {st : State Nat Nat (Nat → Nat × Nat)}
    (distinct : authorityAssignmentForSession sampleTwox64 sessionIndex ≠ WellKnownKeys.sessionIndex)
    (fits : (st.authorityAssignment.collatorContainerChain sessionIndex).all (fun b => decide (b.Fits (· < 2 ^ 32))) = true) :
    ∀ b, st.authorityAssignment.collatorContainerChain sessionIndex = some b →
      b.Fits (· < 2 ^ 32) ∧ AuthoritiesNoting.ShowsAssignment sampleTwox64 encodeU32 sampleHeader.stateRoot
        (sampleOrchestratorChainState sessionIndex st) sessionIndex b := by
  intro b stored
  rw [stored, Option.all_some, decide_eq_true_eq] at fits
  refine ⟨fits, rfl, ⟨[], by simp [sampleOrchestratorChainState]⟩, [], ?_⟩
  simp [sampleOrchestratorChainState, stored, distinct]

theorem containerBlockAcceptedInSessionOne :
    ∃ cst', AuthoritiesNoting.setLatestAuthoritiesData sampleTwox64 decodeU32 2000 [] sampleRelayChainState
        (sampleOrchestratorChainState 1 sampleSessionOne) .none ⟨1000, [], false⟩ = some (.ok cst') ∧
      AuthoritiesNoting.auraDigestSlot (Node.Consensus.preDigestData encodeU32 5 14 ++ []) = some 5 ∧
      (∀ author, AuthoritiesNoting.canAuthor cst' author 5 =
        decide ((paraIdAuthorities sampleConfig 1 false 2000 sampleSessionOne).bind (slotAuthor 5) = some author)) ∧
      (false = false →
        (∀ author, AuthoritiesNoting.canAuthor cst' author 5 = decide (author = 14)) ∧
        ∃ collator, CollatorAssignment.authorForSlot 5 2000 sampleSessionOne.collatorAssignment = some collator ∧
          (collator, 14) ∈ sampleQueued) :=
  containerBlockAccepted sampleSessionOneReachable (by decide) roundTripU32 (by decide) rfl sampleHeadShown
    (sampleAssignmentShown (by decide) (by decide +kernel)) (by decide)
    (show (paraIdAuthorities sampleConfig 1 false 2000 sampleSessionOne).bind
      (Node.Consensus.claimSlot false (fun _ => true) 5) = some 14 by decide +kernel) encodeU32 []

theorem containerBlockAtSessionEnd (reach : Reachable cfg s previous queued st) (container : paraId ≠ cfg.selfParaId)
    {encodeK : κ → List UInt8} {decodeK : Decoder κ} {FitsK : κ → Prop} (keys : RoundTrip encodeK decodeK FitsK)
    (small : s < 2 ^ 32) {twox64 : List UInt8 → List UInt8} {relayStorageRoot : List UInt8}
    {relayChainState orchestratorChainState : StorageProof (List UInt8)} {cst : AuthoritiesNoting.State κ}
    (unset : cst.didSetOrchestratorAuthorityData = false) {header : Header}
    (head : AuthoritiesNoting.ShowsHead twox64 cst.orchestratorParaId relayStorageRoot relayChainState header)
    (shown : ∀ b, st.authorityAssignment.collatorContainerChain s = some b →
      b.Fits FitsK ∧ AuthoritiesNoting.ShowsAssignment twox64 encodeK header.stateRoot orchestratorChainState s b)
    {hasKeys : κ → Bool} {slot : Nat} {claim : κ}
    (claimed : (paraIdAuthorities cfg s true paraId st).bind (Node.Consensus.claimSlot false hasKeys slot) = some claim) :
    ∃ cst', AuthoritiesNoting.setLatestAuthoritiesData twox64 decodeK paraId relayStorageRoot relayChainState
        orchestratorChainState .none cst = some (.ok cst') ∧
      (AuthoritiesNoting.canAuthor cst' claim slot = true ↔
        (CollatorAssignment.authorForSlot slot paraId st.collatorAssignment).bind (nimbusKeys previous) = some claim) ∧
      ∃ collator, ((CollatorAssignment.readAssignedCollators st.collatorAssignment).containerChains.get paraId).bind
          (slotAuthor slot) = some collator ∧ (collator, claim) ∈ queued := by
  refine ⟨_, setLatestAuthoritiesDataMirrors reach container keys small unset head shown, ?_,
    sessionSlotAuthorOwner reach true container (Node.Consensus.claimSlotBindAuthor claimed)⟩
  rw [containerCanAuthorGetD rfl, reach.mirrors.slotAuthors container slot, decide_eq_true_iff]

/- On the head that ends session 1 the container chain's node claims slot `5` with key `18`, of
the next session's collator `8`, while session 1's collator `4`, of key `14`, is the slot's
author: the container chain refuses the block. -/

theorem containerBlockRefusedAtSessionEnd :
    (∃ cst', AuthoritiesNoting.setLatestAuthoritiesData sampleTwox64 decodeU32 2000 [] sampleRelayChainState
        (sampleOrchestratorChainState 1 sampleSessionOne) .none ⟨1000, [], false⟩ = some (.ok cst') ∧
      (AuthoritiesNoting.canAuthor cst' 18 5 = true ↔
        (CollatorAssignment.authorForSlot 5 2000 sampleSessionOne.collatorAssignment).bind (nimbusKeys sampleQueued) =
          some 18) ∧
      ∃ collator, ((CollatorAssignment.readAssignedCollators sampleSessionOne.collatorAssignment).containerChains.get
          2000).bind (slotAuthor 5) = some collator ∧ (collator, 18) ∈ sampleNextQueued) ∧
    (CollatorAssignment.authorForSlot 5 2000 sampleSessionOne.collatorAssignment).bind (nimbusKeys sampleQueued) =
      some 14 :=
  ⟨containerBlockAtSessionEnd sampleSessionOneReachable (by decide) roundTripU32 (by decide) rfl sampleHeadShown
    (sampleAssignmentShown (by decide) (by decide +kernel))
    (show (paraIdAuthorities sampleConfig 1 true 2000 sampleSessionOne).bind
      (Node.Consensus.claimSlot false (fun _ => true) 5) = some 18 by decide +kernel), by decide +kernel⟩

omit [LinearOrder α] in
theorem checkParaIdAssignmentAuthorities {shouldEndSession : Bool} {key : κ}
    (separate : ∀ b, st.authorityAssignment.collatorContainerChain (if shouldEndSession then s + 1 else s) = some b →
      b.containerChains.get cfg.selfParaId = none)
    (checked : checkParaIdAssignment cfg s shouldEndSession key st = some paraId) :
    ∃ authorities, paraIdAuthorities cfg s shouldEndSession paraId st = some authorities ∧ key ∈ authorities := by
  obtain ⟨b, stored, found⟩ := Option.bind_eq_some_iff.1 checked
  rcases AssignedCollators.paraIdOfSome found with ⟨rfl, held⟩ | ⟨keys, chain, held⟩
  · exact ⟨b.orchestratorChain, by simp [paraIdAuthorities, stored], held⟩
  · have container : paraId ≠ cfg.selfParaId := by
      rintro rfl
      simp [separate b stored] at chain
    exact ⟨keys, by simp [paraIdAuthorities, stored, container, chain], held⟩

omit [LinearOrder α] in
theorem nodeAuthoritiesHoldKey {shouldEndSession : Bool}
    (separate : ∀ b, st.authorityAssignment.collatorContainerChain (if shouldEndSession then s + 1 else s) = some b →
      b.containerChains.get cfg.selfParaId = none)
    {fromSlice : List UInt8 → Option κ} {availableKeys : List (List UInt8)} {authorities : List κ}
    (answered : Node.Consensus.authorities fromSlice (fun key => checkParaIdAssignment cfg s shouldEndSession key st)
      (fun p => paraIdAuthorities cfg s shouldEndSession p st) availableKeys = some authorities) :
    ∃ key ∈ authorities, ∃ typePublicPair ∈ availableKeys, fromSlice typePublicPair = some key := by
  obtain ⟨⟨key, p⟩, first, (asked : paraIdAuthorities cfg s shouldEndSession p st = some authorities)⟩ :=
    Option.bind_eq_some_iff.1 answered
  obtain ⟨typePublicPair, listed, parsed, checked⟩ := Node.Consensus.firstEligibleKeySome first
  obtain ⟨assigned, read, mem⟩ := checkParaIdAssignmentAuthorities separate checked
  rw [read] at asked
  exact ⟨key, Option.some.inj asked ▸ mem, typePublicPair, listed, parsed⟩

theorem nodeAuthoritiesHoldKeyAtGenesis :
    ∃ key ∈ [13, 14], ∃ typePublicPair ∈ [[13]], (fun bytes : List UInt8 => bytes.head?.map UInt8.toNat) typePublicPair = some key := by
  have assigned : sampleState.authorityAssignment.collatorContainerChain 0 =
      some ⟨[11, 12], SortedMap.ofList [(2000, [13, 14])]⟩ := by decide +kernel
  have separate : ∀ b, sampleState.authorityAssignment.collatorContainerChain (if false then 0 + 1 else 0) = some b →
      b.containerChains.get sampleConfig.selfParaId = none := by
    intro b stored
    rw [if_neg Bool.false_ne_true, assigned] at stored
    cases stored
    decide
  exact nodeAuthoritiesHoldKey separate (by decide +kernel)

theorem authorNotingCreditsClaim {chain chain' : Chain α κ σ} (idle : chain.buffered = none)
    (reach : Reachable cfg chain.currentIndex previous queued chain.runtime) {block : Block α κ γ}
    (executed : executeBlock cfg block chain = some chain') (container : paraId ≠ cfg.selfParaId)
    (registered : paraId ∈ chain'.runtime.registrar.registeredParaIds) {hasKeys : κ → Bool} {slot : Nat}
    (slotFits : slot < 2 ^ 64) {claim : κ}
    (claimed : (paraIdAuthorities cfg chain.currentIndex block.rotation.isSome paraId chain.runtime).bind
      (Node.Consensus.claimSlot false hasKeys slot) = some claim)
    {encodeKey : κ → List UInt8} {others : List DigestItem} {header : Header}
    (logs : header.logs = Node.Consensus.preDigestData encodeKey slot claim ++ others) (fits : header.Fits)
    (headSmall : header.encode.length < 2 ^ 32) {twox64 : List UInt8 → List UInt8}
    {relayState : List UInt8 → Option (List UInt8)} {relayStorageRoot : η} {relayStorageProof : StorageProof η}
    (proves : (⟨relayStorageRoot, relayStorageProof⟩ : GenericStateProof η).Proves relayState)
    (stored : relayState (paraIdHead twox64 paraId) = some (encodeBytes header.encode))
    {origin : RawOrigin α} {noting noting' : AuthorNoting.State α}
    (h : AuthorNoting.setLatestAuthorData twox64 chain'.runtime.registrar.registeredParaIds
      chain'.runtime.collatorAssignment relayStorageRoot relayStorageProof origin noting = some (.ok noting')) :
    ∃ author, noting'.latestAuthor paraId = some ⟨header.number, author⟩ ∧
      (author, claim) ∈ (if block.rotation.isSome then queued else previous) := by
  obtain ⟨author, found, keyed⟩ :=
    sessionSlotAuthorOwner reach _ container (Node.Consensus.claimSlotBindAuthor claimed)
  rw [← (executeBlockCollatorAssignment idle executed).2, ← authorForSlotEq] at found
  have first : header.logs = Aura.preDigest slot :: (Nimbus.preDigest (encodeKey claim) :: others) := by
    rw [logs]
    rfl
  have info : AuthorNoting.headBlockInfo twox64 chain'.runtime.collatorAssignment relayState paraId =
      some ⟨header.number, author⟩ := by
    rw [AuthorNoting.headBlockInfoPreDigest fits headSmall stored slotFits first, found, Option.map_some]
  refine ⟨author, ?_, keyed⟩
  rw [(AuthorNoting.setLatestAuthorDataNotes proves h).2 paraId, if_pos registered, info, Option.some_or]

/- A container chain's block claimed by a key in slot `5`, and a relay chain that holds it as
the chain's head. -/

def sampleContainerHeader (claim : Nat) : Header :=
  ⟨List.replicate 32 0, 7, List.replicate 32 1, List.replicate 32 2, Node.Consensus.preDigestData encodeU32 5 claim⟩

def sampleRelayState (claim : Nat) (key : List UInt8) : Option (List UInt8) :=
  if key = paraIdHead sampleTwox64 2000 then some (encodeBytes (sampleContainerHeader claim).encode) else none

def sampleRelayStorageProof (claim : Nat) : StorageProof Unit :=
  ⟨false, fun _ => true, fun _ key => .ok (sampleRelayState claim key)⟩

theorem authorNotingCreditsClaimAfterSessionEnd :
    ∃ noting', AuthorNoting.setLatestAuthorData sampleTwox64 sampleSessionTwo.runtime.registrar.registeredParaIds
        sampleSessionTwo.runtime.collatorAssignment () (sampleRelayStorageProof 18) .none ⟨fun _ => none, false⟩ =
        some (.ok noting') ∧
      ∃ author, noting'.latestAuthor 2000 = some ⟨(sampleContainerHeader 18).number, author⟩ ∧
        (author, 18) ∈ (if sampleEndingBlock.rotation.isSome then sampleNextQueued else sampleQueued) := by
  have idle : (⟨sampleSessionOne, none, 1⟩ : Chain Nat Nat (Nat → Nat × Nat)).buffered = none := rfl
  have executed : executeBlock sampleConfig sampleEndingBlock ⟨sampleSessionOne, none, 1⟩ = some sampleSessionTwo :=
    (Option.some_get _).symm
  have proves : (⟨(), sampleRelayStorageProof 18⟩ : GenericStateProof Unit).Proves (sampleRelayState 18) :=
    fun _ _ read => (Except.ok.inj read).symm
  obtain ⟨noting', h, -⟩ := bindToOptionAny.1 (show ((AuthorNoting.setLatestAuthorData sampleTwox64
    sampleSessionTwo.runtime.registrar.registeredParaIds sampleSessionTwo.runtime.collatorAssignment ()
    (sampleRelayStorageProof 18) .none ⟨fun _ => none, false⟩).bind Except.toOption).any (fun _ => true) = true by
      decide +kernel)
  exact ⟨noting', h, authorNotingCreditsClaim idle sampleSessionOneReachable executed (by decide) (by decide +kernel)
    (by decide) (show (paraIdAuthorities sampleConfig 1 sampleEndingBlock.rotation.isSome 2000 sampleSessionOne).bind
      (Node.Consensus.claimSlot false (fun _ => true) 5) = some 18 by decide +kernel)
    rfl (by decide +kernel) (by decide +kernel) proves (by simp [sampleRelayState]) h⟩

end Agreement

end Tanssi.Runtime

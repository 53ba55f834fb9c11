import Tanssi.Runtime.Authorship
import Tanssi.Node.ContainerChainSpawner

/-! The collator node's service (`service.rs`). After each orchestrator block it imports, the
node asks that block's runtime which para the first eligible key of its keystore is assigned,
in the block's session and in the next, and sends both to its container chain spawner. Put
together with the spawner, the node then collates on a chain whose authorities, as the
runtime answers them, hold one of its keys, and runs exactly the container chains of the two
sessions. -/
namespace Tanssi.Node.Service
open Tanssi.Runtime Tanssi.ContainerChainSpawner Node.Consensus

variable {α κ γ σ : Type} [LinearOrder κ]

/-- `check_assigned_para_id`: the paras of the first eligible keys now and in the next
session, as `CcSpawnMsg::UpdateAssignment` carries them. -/
def checkAssignedParaId (fromSlice : List UInt8 → Option κ)
    (checkParaIdAssignment checkParaIdAssignmentNextSession : κ → Option ParaId) (availableKeys : List (List UInt8)) :
    Option ParaId × Option ParaId :=
  ((firstEligibleKey fromSlice checkParaIdAssignment availableKeys).map (·.2),
    (firstEligibleKeyNextSession fromSlice checkParaIdAssignmentNextSession availableKeys).map (·.2))

section Follows
variable {cfg : Config α γ σ} {s : Nat} {st : State α κ σ} {fromSlice : List UInt8 → Option κ}
  {availableKeys : List (List UInt8)} {paraId : ParaId}

theorem firstEligibleParaAuthorities {shouldEndSession : Bool}
    (separate : ∀ b, st.authorityAssignment.collatorContainerChain (if shouldEndSession then s + 1 else s) = some b →
      b.containerChains.get cfg.selfParaId = none)
    (h : (firstEligibleKey fromSlice (fun key => checkParaIdAssignment cfg s shouldEndSession key st)
      availableKeys).map (·.2) = some paraId) :
    ∃ typePublicPair ∈ availableKeys, ∃ key, fromSlice typePublicPair = some key ∧
      ∃ authorities, paraIdAuthorities cfg s shouldEndSession paraId st = some authorities ∧ key ∈ authorities := by
  obtain ⟨⟨key, p⟩, eligible, (rfl : p = paraId)⟩ := Option.map_eq_some_iff.1 h
  obtain ⟨typePublicPair, listed, parsed, assigned⟩ := firstEligibleKeySome eligible
  exact ⟨typePublicPair, listed, key, parsed, checkParaIdAssignmentAuthorities separate assigned⟩

theorem spawnerCollatesForKey {shouldEndSession : Bool} {spawner : Spawner ParaId}
    (reach : ContainerChainSpawner.Reachable cfg.selfParaId spawner)
    (separate : ∀ b, st.authorityAssignment.collatorContainerChain (if shouldEndSession then s + 1 else s) = some b →
      b.containerChains.get cfg.selfParaId = none)
    (separateNext : ∀ b, st.authorityAssignment.collatorContainerChain (s + 1) = some b →
      b.containerChains.get cfg.selfParaId = none)
    {current next : Option ParaId}
    (sent : checkAssignedParaId fromSlice (fun key => checkParaIdAssignment cfg s shouldEndSession key st)
      (fun key => checkParaIdAssignmentNextSession cfg s key st) availableKeys = (current, next)) :
    ∃ spawner', spawner.handleUpdateAssignment cfg.selfParaId current next = some spawner' ∧
      (∀ p, current = some p → spawner'.collatingOn = p ∧
        ∃ typePublicPair ∈ availableKeys, ∃ key, fromSlice typePublicPair = some key ∧
          ∃ authorities, paraIdAuthorities cfg s shouldEndSession p st = some authorities ∧ key ∈ authorities) ∧
      (∀ p, next = some p → ∃ typePublicPair ∈ availableKeys, ∃ key, fromSlice typePublicPair = some key ∧
          ∃ authorities, paraIdAuthorities cfg s true p st = some authorities ∧ key ∈ authorities) ∧
      ∀ p, p ∈ spawner'.state.spawnedContainerChains ↔ (current = some p ∨ next = some p) ∧ p ≠ cfg.selfParaId := by
  obtain ⟨-, -, spawner', -, -, handled, consistent, assigned, nextAssigned⟩ :=
    (Spawner.Consistent.reachable reach).update current next
  have follows := consistent.followsAssignment
  rw [assigned, nextAssigned] at follows
  obtain ⟨sentCurrent, sentNext⟩ := Prod.mk.inj sent
  refine ⟨spawner', handled, fun p chosen => ⟨follows.collating p chosen, ?_⟩, fun p chosen => ?_, follows.spawned⟩
  · exact firstEligibleParaAuthorities separate (sentCurrent.trans chosen)
  · have asked : (firstEligibleKey fromSlice (fun key => checkParaIdAssignment cfg s true key st) availableKeys).map
        (·.2) = some p := sentNext.trans chosen
    have separateNext : ∀ b, st.authorityAssignment.collatorContainerChain (if true then s + 1 else s) = some b →
        b.containerChains.get cfg.selfParaId = none := separateNext
    exact firstEligibleParaAuthorities separateNext asked

/- A node holding key 13, collator of container chain 2000 at genesis, and a spawner that has
just started. -/

theorem spawnerCollatesForKeyAtGenesis :
    ∃ spawner', (⟨default, 1000⟩ : Spawner ParaId).handleUpdateAssignment sampleConfig.selfParaId (some 2000) (some 2000) =
        some spawner' ∧
      (∀ p, some 2000 = some p → spawner'.collatingOn = p ∧
        ∃ typePublicPair ∈ [[13]], ∃ key, (fun bytes : List UInt8 => bytes.head?.map UInt8.toNat) typePublicPair = some key ∧
          ∃ authorities, paraIdAuthorities sampleConfig 0 false p sampleState = some authorities ∧ key ∈ authorities) ∧
      (∀ p, some 2000 = some p →
        ∃ typePublicPair ∈ [[13]], ∃ key, (fun bytes : List UInt8 => bytes.head?.map UInt8.toNat) typePublicPair = some key ∧
          ∃ authorities, paraIdAuthorities sampleConfig 0 true p sampleState = some authorities ∧ key ∈ authorities) ∧
      ∀ p, p ∈ spawner'.state.spawnedContainerChains ↔ (some 2000 = some p ∨ some 2000 = some p) ∧ p ≠ sampleConfig.selfParaId := by
  have assigned : ∀ i, i ≤ 1 → sampleState.authorityAssignment.collatorContainerChain i =
      some ⟨[11, 12], SortedMap.ofList [(2000, [13, 14])]⟩ := by decide +kernel
  have separate : ∀ b, sampleState.authorityAssignment.collatorContainerChain (if false then 0 + 1 else 0) = some b →
      b.containerChains.get sampleConfig.selfParaId = none := by
    intro b stored
    rw [if_neg Bool.false_ne_true, assigned 0 (by decide)] at stored
    cases stored
    decide
  have separateNext : ∀ b, sampleState.authorityAssignment.collatorContainerChain (0 + 1) = some b →
      b.containerChains.get sampleConfig.selfParaId = none := by
    intro b stored
    rw [assigned 1 (by decide)] at stored
    cases stored
    decide
  exact spawnerCollatesForKey .start separate separateNext (by decide +kernel)

end Follows

end Tanssi.Node.Service

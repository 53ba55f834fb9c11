import Tanssi.Runtime.ApplySession
import Tanssi.Header

/-! The Tanssi Aura consensus of a collator node (`tc_consensus`). A node looks in its keystore
for the first nimbus key the runtime assigns to a para, asks the runtime for the para's
authorities, and claims a slot when the slot's author, by `slot_author`, is a key it holds
(or, forcing authorship, when any authority is). The block it builds carries the slot in an
Aura pre-runtime digest, followed by the author's key in a nimbus one. The runtime's answers
are parameters: the node reaches the runtime only through its API. -/

namespace Tanssi.Node.Consensus
open Generic Tanssi.Runtime

variable {κ : Type}

/-- `claim_slot`: the slot's author when the keystore holds its key; forcing authorship, the
first authority whose key it holds. -/
def claimSlot (forceAuthoring : Bool) (hasKeys : κ → Bool) (slot : Nat) (authorities : List κ) : Option κ :=
  if !forceAuthoring then
    (slotAuthor slot authorities).bind fun p => if hasKeys p then some p else none
  else authorities.find? hasKeys

/-- `pre_digest_data`: the Aura pre-digest of the slot, then the nimbus one of the claim. -/
def preDigestData (encodeKey : κ → List UInt8) (slot : Nat) (claim : κ) : List DigestItem :=
  [Aura.preDigest slot, Nimbus.preDigest (encodeKey claim)]

/-- `first_eligible_key`: the first key of the keystore that is a nimbus id and that the
runtime's `check_para_id_assignment` assigns to a para, with that para. -/
def firstEligibleKey (fromSlice : List UInt8 → Option κ) (checkParaIdAssignment : κ → Option ParaId)
    (availableKeys : List (List UInt8)) : Option (κ × ParaId) :=
  if availableKeys.isEmpty then none
  else availableKeys.findSome? fun typePublicPair =>
    (fromSlice typePublicPair).bind fun nimbusId => (checkParaIdAssignment nimbusId).map fun paraId => (nimbusId, paraId)

/-- `first_eligible_key_next_session`: the same search, asking the runtime's
`check_para_id_assignment_next_session`. -/
def firstEligibleKeyNextSession (fromSlice : List UInt8 → Option κ) (checkParaIdAssignmentNextSession : κ → Option ParaId)
    (availableKeys : List (List UInt8)) : Option (κ × ParaId) :=
  firstEligibleKey fromSlice checkParaIdAssignmentNextSession availableKeys

/-- `authorities`: what the runtime's `para_id_authorities` answers for the para of the first
eligible key. -/
def authorities (fromSlice : List UInt8 → Option κ) (checkParaIdAssignment : κ → Option ParaId)
    (paraIdAuthorities : ParaId → Option (List κ)) (availableKeys : List (List UInt8)) : Option (List κ) :=
  (firstEligibleKey fromSlice checkParaIdAssignment availableKeys).bind fun eligible => paraIdAuthorities eligible.2

theorem claimSlotIff {hasKeys : κ → Bool} {slot : Nat} {authorities : List κ} {claim : κ} :
    claimSlot false hasKeys slot authorities = some claim ↔ slotAuthor slot authorities = some claim ∧ hasKeys claim = true := by
  simp only [claimSlot, Bool.not_false, if_true]
  cases found : slotAuthor slot authorities with
  | none => simp
  | some p =>
    cases held : hasKeys p
    · simp only [Option.bind_some, held, Bool.false_eq_true, if_false, reduceCtorEq, Option.some.injEq, false_iff,
        not_and]
      rintro rfl
      simp [held]
    · simp only [Option.bind_some, held, if_true, Option.some.injEq, iff_self_and]
      rintro rfl
      exact held

theorem claimSlotBindSome {answer : Option (List κ)} {hasKeys : κ → Bool} {slot : Nat} {claim : κ}
    (h : answer.bind (claimSlot false hasKeys slot) = some claim) :
    ∃ authorities, answer = some authorities ∧ slotAuthor slot authorities = some claim := by
  obtain ⟨authorities, answered, claimed⟩ := Option.bind_eq_some_iff.1 h
  exact ⟨authorities, answered, (claimSlotIff.1 claimed).1⟩

theorem claimSlotBindAuthor {answer : Option (List κ)} {hasKeys : κ → Bool} {slot : Nat} {claim : κ}
    (h : answer.bind (claimSlot false hasKeys slot) = some claim) : answer.bind (slotAuthor slot) = some claim := by
  obtain ⟨authorities, answered, picked⟩ := claimSlotBindSome h
  rw [answered, Option.bind_some, picked]

theorem firstEligibleKeySome {fromSlice : List UInt8 → Option κ} {checkParaIdAssignment : κ → Option ParaId}
    {availableKeys : List (List UInt8)} {key : κ} {paraId : ParaId}
    (h : firstEligibleKey fromSlice checkParaIdAssignment availableKeys = some (key, paraId)) :
    ∃ typePublicPair ∈ availableKeys, fromSlice typePublicPair = some key ∧ checkParaIdAssignment key = some paraId := by
  unfold firstEligibleKey at h
  split at h
  · cases h
  obtain ⟨typePublicPair, listed, found⟩ := List.exists_of_findSome?_eq_some h
  obtain ⟨nimbusId, parsed, assigned⟩ := Option.bind_eq_some_iff.1 found
  obtain ⟨paraId', checked, same⟩ := Option.map_eq_some_iff.1 assigned
  obtain ⟨rfl, rfl⟩ := Prod.mk.injEq _ _ _ _ ▸ same
  exact ⟨typePublicPair, listed, parsed, checked⟩

end Tanssi.Node.Consensus

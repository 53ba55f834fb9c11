import Tanssi.ChainStateSnapshot
import Tanssi.Header
import Tanssi.Frame

/-! `pallet_cc_authorities_noting` of a container chain, and its `CanAuthor`. Once in every
block an inherent reads the orchestrator chain's head from a proof of the relay chain's
state, and from a second proof, checked against that head's state root, the orchestrator's
session index and the authority assignment of that session: the keys assigned to this chain
are its authorities, and a block's author must be the one whose turn its slot is. The slot
is the one `AuraDigestSlotBeacon` reads from the block's digest. The assignment is read as
the orchestrator's derived `Encode` of `AssignedCollators` wrote it. -/

namespace Tanssi

namespace AssignedCollators
open Scale

variable {κ : Type}

/-- The derived `Encode`: the orchestrator chain's collators, then the container chains. -/
def encode (encodeK : κ → List UInt8) (a : AssignedCollators κ) : List UInt8 :=
  encodeVec encodeK a.orchestratorChain ++ encodeMap encodeU32 (encodeVec encodeK) a.containerChains

def decode (decodeK : Decoder κ) : Decoder (AssignedCollators κ) := fun input => do
  let (orchestratorChain, r) ← decodeVec decodeK input
  let (containerChains, r) ← decodeMap decodeU32 (decodeVec decodeK) r
  pure (⟨orchestratorChain, containerChains⟩, r)

def Fits (FitsK : κ → Prop) (a : AssignedCollators κ) : Prop :=
  VecFits FitsK a.orchestratorChain ∧ MapFits (· < 2 ^ 32) (VecFits FitsK) a.containerChains

instance {FitsK : κ → Prop} [DecidablePred FitsK] : DecidablePred (Fits FitsK) := fun a =>
  inferInstanceAs (Decidable (VecFits FitsK a.orchestratorChain ∧ MapFits (· < 2 ^ 32) (VecFits FitsK) a.containerChains))

theorem roundTrip {encodeK : κ → List UInt8} {decodeK : Decoder κ} {FitsK : κ → Prop}
    (keys : RoundTrip encodeK decodeK FitsK) : RoundTrip (encode encodeK) (decode decodeK) (Fits FitsK) := by
  intro a fits rest
  have chains := (roundTripU32.map keys.vec) a.containerChains fits.2 rest
  have orchestrator := keys.vec a.orchestratorChain fits.1 (encodeMap encodeU32 (encodeVec encodeK) a.containerChains ++ rest)
  simp [encode, decode, orchestrator, chains]

end AssignedCollators

namespace AuthoritiesNoting
open Frame Scale Generic ChainStateSnapshot GenericStateProof WellKnownKeys

variable {κ : Type}

inductive Error where
  | failedReading
  | failedDecodingHeader
  | noAuthoritiesFound
  deriving DecidableEq, Repr

inductive DispatchError where
  | badOrigin
  | module (error : Error)
  deriving DecidableEq, Repr

structure State (κ : Type) where
  orchestratorParaId : ParaId
  authorities : List κ
  didSetOrchestratorAuthorityData : Bool

/-- `fetch_orchestrator_header_from_relay_proof`: the state root of the orchestrator chain's
head; `none` where it panics, on a proof that does not reach the head. -/
def fetchOrchestratorHeaderFromRelayProof (twox64 : List UInt8 → List UInt8) (relayStateProof : GenericStateProof (List UInt8))
    (paraId : ParaId) : Option (Except Error (List UInt8)) :=
  let key := parasHeadsIndex ++ twox64Concat twox64 (encodeU32 paraId)
  match relayStateProof.readEntry decodeBytes key none with
  | .error .proof => none
  | .error _ => some (.error .failedReading)
  | .ok headData =>
    some <| match Header.decode headData with
      | none => .error .failedDecodingHeader
      | some (orchestratorChainHeader, _) => .ok orchestratorChainHeader.stateRoot

/-- `fetch_authorities_from_orchestrator_proof`: the keys the orchestrator's assignment of its
current session gives the para; `none` where it panics. -/
def fetchAuthoritiesFromOrchestratorProof (twox64 : List UInt8 → List UInt8) (decodeK : Decoder κ)
    (orchestratorStateProof : GenericStateProof (List UInt8)) (paraId : ParaId) : Option (Except Error (List κ)) :=
  match orchestratorStateProof.readEntry decodeU32 WellKnownKeys.sessionIndex none with
  | .error .proof => none
  | .error _ => some (.error .failedReading)
  | .ok sessionIndex =>
    match orchestratorStateProof.readEntry (AssignedCollators.decode decodeK)
        (authorityAssignmentForSession twox64 sessionIndex) none with
    | .error .proof => none
    | .error _ => some (.error .failedReading)
    | .ok assignment =>
      some <| match assignment.containerChains.get paraId with
        | none => .error .noAuthoritiesFound
        | some authorities => .ok authorities

/-- `set_latest_authorities_data`, with this chain's para id; `none` where it panics. A failure
to read the orchestrator's head leaves the call through `?`, with nothing noted; a failure to
read the authorities is logged and empties them. -/
def setLatestAuthoritiesData (twox64 : List UInt8 → List UInt8) (decodeK : Decoder κ) (selfParaId : ParaId)
    (relayStorageRoot : List UInt8) (relayChainState orchestratorChainState : StorageProof (List UInt8))
    (origin : RawOrigin κ) (st : State κ) : Option (Except DispatchError (State κ)) :=
  if !ensureNone origin then some (.error .badOrigin)
  -- `DidSetOrchestratorAuthorityData must be updated only once in a block`
  else if st.didSetOrchestratorAuthorityData then none
  else
    match GenericStateProof.new relayStorageRoot relayChainState with
    | .error _ => none
    | .ok relayChainStateProof =>
      match fetchOrchestratorHeaderFromRelayProof twox64 relayChainStateProof st.orchestratorParaId with
      | none => none
      | some (.error e) => some (.error (.module e))
      | some (.ok orchestratorRoot) =>
        match GenericStateProof.new orchestratorRoot orchestratorChainState with
        | .error _ => none
        | .ok orchestratorChainStateProof =>
          (fetchAuthoritiesFromOrchestratorProof twox64 decodeK orchestratorChainStateProof selfParaId).map
            fun authorities =>
              -- `Authorities::kill` leaves the `ValueQuery` default, no authority
              .ok { st with
                authorities := match authorities with
                  | .ok authorities => authorities
                  | .error _ => []
                didSetOrchestratorAuthorityData := true }

/-- `set_authorities`, a root call. -/
def setAuthorities (authorities : List κ) (origin : RawOrigin κ) (st : State κ) : Except DispatchError (State κ) :=
  if ensureRoot origin then .ok { st with authorities } else .error .badOrigin

/-- `set_orchestrator_para_id`, a root call. -/
def setOrchestratorParaId (newParaId : ParaId) (origin : RawOrigin κ) (st : State κ) : Except DispatchError (State κ) :=
  if ensureRoot origin then .ok { st with orchestratorParaId := newParaId } else .error .badOrigin

/-- `CanAuthor::can_author`: the author is the noted authority whose turn the slot is. -/
def canAuthor [DecidableEq κ] (st : State κ) (author : κ) (slot : Nat) : Bool :=
  if st.authorities.isEmpty then false
  else decide (st.authorities[slot % st.authorities.length]? = some author)

/-- `AuraDigestSlotBeacon::slot` of `tp_consensus`: the slot of the first Aura pre-runtime
digest that decodes, cast to a `u32`; `none` where the `expect` panics. -/
def auraDigestSlot (logs : List DigestItem) : Option Nat :=
  (convertFirst logs (DigestItem.preRuntimeTryTo decodeU64 Aura.engineId)).map (· % 2 ^ 32)

section Reads
variable {twox64 : List UInt8 → List UInt8} {decodeK : Decoder κ}

theorem fetchOrchestratorHeaderOfHead {relayStateProof : GenericStateProof (List UInt8)} {paraId : ParaId}
    {header : Header} (fits : header.Fits) (small : header.encode.length < 2 ^ 32) {rest : List UInt8}
    (stored : relayStateProof.lookup (paraIdHead twox64 paraId) = .ok (some (encodeBytes header.encode ++ rest))) :
    fetchOrchestratorHeaderFromRelayProof twox64 relayStateProof paraId = some (.ok header.stateRoot) := by
  have head := readEntryEncoded roundTripBytes small stored none
  have decoded : Header.decode header.encode = some (header, []) := by simpa using Header.roundTrip header fits []
  simp [fetchOrchestratorHeaderFromRelayProof, paraIdHead] at head ⊢
  simp [head, decoded]

theorem fetchAuthoritiesOfAssignment {encodeK : κ → List UInt8} {FitsK : κ → Prop} (keys : RoundTrip encodeK decodeK FitsK)
    {orchestratorStateProof : GenericStateProof (List UInt8)} {paraId : ParaId} {sessionIndex : Nat}
    (small : sessionIndex < 2 ^ 32) {assignment : AssignedCollators κ} (fits : assignment.Fits FitsK) {rest rest' : List UInt8}
    (indexed : orchestratorStateProof.lookup WellKnownKeys.sessionIndex = .ok (some (encodeU32 sessionIndex ++ rest)))
    (assigned : orchestratorStateProof.lookup (authorityAssignmentForSession twox64 sessionIndex) =
      .ok (some (assignment.encode encodeK ++ rest'))) :
    fetchAuthoritiesFromOrchestratorProof twox64 decodeK orchestratorStateProof paraId =
      some (match assignment.containerChains.get paraId with
        | none => .error .noAuthoritiesFound
        | some authorities => .ok authorities) := by
  have index := readEntryEncoded roundTripU32 small indexed none
  have read := readEntryEncoded (AssignedCollators.roundTrip keys) fits assigned none
  simp only [fetchAuthoritiesFromOrchestratorProof, index, read]

def ShowsHead (twox64 : List UInt8 → List UInt8) (paraId : ParaId) (relayStorageRoot : List UInt8)
    (relayChainState : StorageProof (List UInt8)) (header : Header) : Prop :=
  relayChainState.contains relayStorageRoot = true ∧ header.Fits ∧ header.encode.length < 2 ^ 32 ∧
    ∃ rest, relayChainState.storage relayStorageRoot (paraIdHead twox64 paraId) = .ok (some (encodeBytes header.encode ++ rest))

def ShowsAssignment (twox64 : List UInt8 → List UInt8) (encodeK : κ → List UInt8) (root : List UInt8)
    (orchestratorChainState : StorageProof (List UInt8)) (sessionIndex : Nat) (assignment : AssignedCollators κ) : Prop :=
  orchestratorChainState.contains root = true ∧
    (∃ rest, orchestratorChainState.storage root WellKnownKeys.sessionIndex = .ok (some (encodeU32 sessionIndex ++ rest))) ∧
    ∃ rest, orchestratorChainState.storage root (authorityAssignmentForSession twox64 sessionIndex) =
      .ok (some (assignment.encode encodeK ++ rest))

theorem setLatestAuthoritiesDataReads {encodeK : κ → List UInt8} {FitsK : κ → Prop} (keys : RoundTrip encodeK decodeK FitsK)
    {selfParaId : ParaId} {relayStorageRoot : List UInt8} {relayChainState orchestratorChainState : StorageProof (List UInt8)}
    {st : State κ} (unset : st.didSetOrchestratorAuthorityData = false) {header : Header}
    (head : ShowsHead twox64 st.orchestratorParaId relayStorageRoot relayChainState header)
    {sessionIndex : Nat} (small : sessionIndex < 2 ^ 32) {assignment : AssignedCollators κ} (fits : assignment.Fits FitsK)
    (shown : ShowsAssignment twox64 encodeK header.stateRoot orchestratorChainState sessionIndex assignment) :
    setLatestAuthoritiesData twox64 decodeK selfParaId relayStorageRoot relayChainState orchestratorChainState .none st =
      some (.ok { st with
        authorities := (assignment.containerChains.get selfParaId).getD []
        didSetOrchestratorAuthorityData := true }) := by
  obtain ⟨relayRooted, headerFits, headSmall, headRest, stored⟩ := head
  obtain ⟨orchestratorRooted, ⟨rest, indexed⟩, rest', assigned⟩ := shown
  have root : fetchOrchestratorHeaderFromRelayProof twox64 ⟨relayStorageRoot, relayChainState⟩ st.orchestratorParaId =
      some (.ok header.stateRoot) := fetchOrchestratorHeaderOfHead headerFits headSmall stored
  have authorities : fetchAuthoritiesFromOrchestratorProof twox64 decodeK ⟨header.stateRoot, orchestratorChainState⟩ selfParaId =
      some (match assignment.containerChains.get selfParaId with
        | none => .error .noAuthoritiesFound
        | some authorities => .ok authorities) := fetchAuthoritiesOfAssignment keys small fits indexed assigned
  simp only [setLatestAuthoritiesData, ensureNone, Bool.not_true, Bool.false_eq_true, if_false, unset,
    GenericStateProof.newOfContains relayRooted, root, GenericStateProof.newOfContains orchestratorRooted, authorities,
    Option.map_some]
  cases assignment.containerChains.get selfParaId <;> rfl

end Reads

end AuthoritiesNoting

end Tanssi

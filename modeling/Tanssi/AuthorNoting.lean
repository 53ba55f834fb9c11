import Tanssi.ChainStateSnapshot
import Tanssi.Header
import Tanssi.CollatorAssignment
import Tanssi.Frame

/-! `pallet_author_noting` of the orchestrator chain. Once in every block an inherent reads,
from a proof of the relay chain's state, the head of each registered container chain,
decodes it as a header and takes the slot from its first digest, an Aura pre-runtime one;
the collator the collator assignment names for that slot is noted as the chain's latest
author, with the header's number. A para whose head cannot be read or decoded keeps its
entry; a proof that does not reach a head panics, and so does a second inherent in a block
or a block without one. -/

namespace Tanssi.AuthorNoting
open Frame Scale Generic ChainStateSnapshot GenericStateProof WellKnownKeys

variable {α η : Type}

inductive Error where
  | failedReading
  | failedDecodingHeader
  | auraDigestFirstItem
  | asPreRuntimeError
  | nonDecodableSlot
  | authorNotFound
  | nonAuraDigest
  deriving DecidableEq, Repr

inductive DispatchError where
  | badOrigin
  deriving DecidableEq, Repr

structure ContainerChainBlockInfo (α : Type) where
  blockNumber : Nat
  author : α
  deriving DecidableEq, Repr

structure State (α : Type) where
  latestAuthor : ParaId → Option (ContainerChainBlockInfo α)
  didSetContainerAuthorData : Bool

/-- What `fetch_block_info_from_proof` makes of the head data read for a para: the header's
number, and the collator whose turn the slot of its first digest is. -/
def blockInfoFromHead (collatorAssignment : CollatorAssignment.State α) (paraId : ParaId) (headData : List UInt8) :
    Except Error (ContainerChainBlockInfo α) :=
  match Header.decode headData with
  | none => .error .failedDecodingHeader
  | some (authorHeader, _) =>
    -- only the first item of the digest is looked at
    match authorHeader.logs.head? with
    | none => .error .auraDigestFirstItem
    | some auraDigest =>
      match auraDigest.asPreRuntime with
      | none => .error .asPreRuntimeError
      | some (id, data) =>
        if id = Aura.engineId then
          match decodeU64 data with
          | none => .error .nonDecodableSlot
          | some (slot, _) =>
            match CollatorAssignment.authorForSlot slot paraId collatorAssignment with
            | none => .error .authorNotFound
            | some author => .ok ⟨authorHeader.number, author⟩
        else .error .nonAuraDigest

/-- `fetch_block_info_from_proof`; `none` where it panics, on a proof that does not reach the
para's head. -/
def fetchBlockInfoFromProof (twox64 : List UInt8 → List UInt8) (collatorAssignment : CollatorAssignment.State α)
    (relayStateProof : GenericStateProof η) (paraId : ParaId) : Option (Except Error (ContainerChainBlockInfo α)) :=
  let key := parasHeadsIndex ++ twox64Concat twox64 (encodeU32 paraId)
  match relayStateProof.readEntry decodeBytes key none with
  | .error .proof => none
  | .error _ => some (.error .failedReading)
  | .ok headData => some (blockInfoFromHead collatorAssignment paraId headData)

/-- The loop of `set_latest_author_data` over the registered paras: what is fetched is
inserted, an error is logged and skipped, and a panic ends the call. -/
def noteAuthors (fetch : ParaId → Option (Except Error (ContainerChainBlockInfo α))) :
    List ParaId → (ParaId → Option (ContainerChainBlockInfo α)) → Option (ParaId → Option (ContainerChainBlockInfo α))
  | [], latestAuthor => some latestAuthor
  | paraId :: rest, latestAuthor =>
    match fetch paraId with
    | none => none
    | some (.ok blockInfo) => noteAuthors fetch rest (Function.update latestAuthor paraId (some blockInfo))
    | some (.error _) => noteAuthors fetch rest latestAuthor

/-- The latest authors `set_latest_author_data` leaves: with no container chain registered
the proof is not read at all; otherwise it must be a proof under the relay storage root, and
each registered para is noted in turn. -/
def latestAuthors (twox64 : List UInt8 → List UInt8) (registeredParaIds : List ParaId)
    (collatorAssignment : CollatorAssignment.State α) (relayStorageRoot : η) (relayStorageProof : StorageProof η)
    (latestAuthor : ParaId → Option (ContainerChainBlockInfo α)) : Option (ParaId → Option (ContainerChainBlockInfo α)) :=
  if registeredParaIds.isEmpty then some latestAuthor
  else
    match GenericStateProof.new relayStorageRoot relayStorageProof with
    | .error _ => none
    | .ok relayStorageRootedProof =>
      noteAuthors (fetchBlockInfoFromProof twox64 collatorAssignment relayStorageRootedProof) registeredParaIds latestAuthor

/-- `set_latest_author_data`, with the runtime's `current_container_chains` (the registered
para ids) and `author_for_slot` (the collator assignment); `none` where it panics. -/
def setLatestAuthorData (twox64 : List UInt8 → List UInt8) (registeredParaIds : List ParaId)
    (collatorAssignment : CollatorAssignment.State α) (relayStorageRoot : η) (relayStorageProof : StorageProof η)
    (origin : RawOrigin α) (st : State α) : Option (Except DispatchError (State α)) :=
  if !ensureNone origin then some (.error .badOrigin)
  -- `DidSetContainerAuthorData must be updated only once in a block`
  else if st.didSetContainerAuthorData then none
  else
    (latestAuthors twox64 registeredParaIds collatorAssignment relayStorageRoot relayStorageProof st.latestAuthor).map
      fun latestAuthor => .ok { latestAuthor, didSetContainerAuthorData := true }

/-- `set_author`, a root call. -/
def setAuthor (paraId : ParaId) (blockNumber : Nat) (author : α) (origin : RawOrigin α) (st : State α) :
    Except DispatchError (State α) :=
  if ensureRoot origin then .ok { st with latestAuthor := Function.update st.latestAuthor paraId (some ⟨blockNumber, author⟩) }
  else .error .badOrigin

def headBlockInfo (twox64 : List UInt8 → List UInt8) (collatorAssignment : CollatorAssignment.State α)
    (relayState : List UInt8 → Option (List UInt8)) (paraId : ParaId) : Option (ContainerChainBlockInfo α) := do
  let raw ← relayState (paraIdHead twox64 paraId)
  let (headData, _) ← decodeBytes raw
  (blockInfoFromHead collatorAssignment paraId headData).toOption

/-! ### Reading a head -/

section Head
variable {collatorAssignment : CollatorAssignment.State α} {paraId : ParaId}

theorem blockInfoFromHeadPreDigest {header : Header} (fits : header.Fits) {slot : Nat} (small : slot < 2 ^ 64)
    {others : List DigestItem} (first : header.logs = Aura.preDigest slot :: others) (rest : List UInt8) :
    blockInfoFromHead collatorAssignment paraId (header.encode ++ rest) =
      match CollatorAssignment.authorForSlot slot paraId collatorAssignment with
      | none => .error .authorNotFound
      | some author => .ok ⟨header.number, author⟩ := by
  have slotRead : decodeU64 (encodeU64 slot) = some (slot, []) := by
    simpa using roundTripU64 slot small []
  simp only [blockInfoFromHead, Header.roundTrip header fits rest, first, List.head?_cons, Aura.preDigest,
    DigestItem.asPreRuntime, if_true, slotRead]

theorem blockInfoFromHeadOk {headData : List UInt8} {blockInfo : ContainerChainBlockInfo α}
    (h : blockInfoFromHead collatorAssignment paraId headData = .ok blockInfo) :
    ∃ header rest data slot restSlot, Header.decode headData = some (header, rest) ∧
      header.logs.head? = some (.preRuntime Aura.engineId data) ∧ decodeU64 data = some (slot, restSlot) ∧
      CollatorAssignment.authorForSlot slot paraId collatorAssignment = some blockInfo.author ∧
      blockInfo.blockNumber = header.number := by
  unfold blockInfoFromHead at h
  split at h
  · cases h
  rename_i header rest decoded
  split at h
  · cases h
  rename_i auraDigest first
  split at h
  · cases h
  rename_i id data preRuntime
  split at h
  · rename_i aura
    split at h
    · cases h
    rename_i slot restSlot slotRead
    split at h
    · cases h
    rename_i author found
    cases h
    have item : auraDigest = .preRuntime Aura.engineId data := by
      cases auraDigest <;> simp_all [DigestItem.asPreRuntime]
    exact ⟨header, rest, data, slot, restSlot, decoded, item ▸ first, slotRead, found, rfl⟩
  · cases h

end Head

section Fetch
variable {twox64 : List UInt8 → List UInt8} {collatorAssignment : CollatorAssignment.State α}
  {relayStateProof : GenericStateProof η} {paraId : ParaId}

theorem fetchKey : parasHeadsIndex ++ twox64Concat twox64 (encodeU32 paraId) = paraIdHead twox64 paraId := rfl

theorem fetchBlockInfoFromProofNone :
    fetchBlockInfoFromProof twox64 collatorAssignment relayStateProof paraId = none ↔
      ∃ e, relayStateProof.lookup (paraIdHead twox64 paraId) = .error e := by
  have proofError : readEntry decodeBytes relayStateProof (paraIdHead twox64 paraId) none = .error .proof ↔
      ∃ e, relayStateProof.lookup (paraIdHead twox64 paraId) = .error e := readEntryProof
  rw [← proofError]
  simp only [fetchBlockInfoFromProof, fetchKey]
  cases readEntry decodeBytes relayStateProof (paraIdHead twox64 paraId) none with
  | ok _ => simp
  | error err => cases err <;> simp

theorem fetchBlockInfoFromProofHead {head rest : List UInt8} (small : head.length < 2 ^ 32)
    (stored : relayStateProof.lookup (paraIdHead twox64 paraId) = .ok (some (encodeBytes head ++ rest))) :
    fetchBlockInfoFromProof twox64 collatorAssignment relayStateProof paraId =
      some (blockInfoFromHead collatorAssignment paraId head) := by
  have read := readEntryEncoded roundTripBytes small stored none
  simp [fetchBlockInfoFromProof, fetchKey, read]

theorem fetchBlockInfoFromProofProves {relayState : List UInt8 → Option (List UInt8)}
    (proves : relayStateProof.Proves relayState) {result : Except Error (ContainerChainBlockInfo α)}
    (h : fetchBlockInfoFromProof twox64 collatorAssignment relayStateProof paraId = some result) :
    result.toOption = headBlockInfo twox64 collatorAssignment relayState paraId := by
  simp only [fetchBlockInfoFromProof, fetchKey, readEntry] at h
  cases stored : relayStateProof.lookup (paraIdHead twox64 paraId) with
  | error e => simp [stored] at h
  | ok found =>
    have held := proves _ _ stored
    cases found with
    | none =>
      simp only [stored] at h
      cases h
      simp [headBlockInfo, ← held, Except.toOption]
    | some raw =>
      simp only [stored] at h
      cases read : decodeBytes raw with
      | none =>
        simp only [read] at h
        cases h
        simp [headBlockInfo, ← held, read, Except.toOption]
      | some r =>
        simp only [read] at h
        cases h
        simp [headBlockInfo, ← held, read]

theorem headBlockInfoPreDigest {relayState : List UInt8 → Option (List UInt8)} {header : Header} (fits : header.Fits)
    (small : header.encode.length < 2 ^ 32) (stored : relayState (paraIdHead twox64 paraId) = some (encodeBytes header.encode))
    {slot : Nat} (slotFits : slot < 2 ^ 64) {others : List DigestItem} (first : header.logs = Aura.preDigest slot :: others) :
    headBlockInfo twox64 collatorAssignment relayState paraId =
      (CollatorAssignment.authorForSlot slot paraId collatorAssignment).map fun author => ⟨header.number, author⟩ := by
  have read : decodeBytes (encodeBytes header.encode) = some (header.encode, []) := by
    simpa using roundTripBytes header.encode small []
  have info : blockInfoFromHead collatorAssignment paraId header.encode =
      match CollatorAssignment.authorForSlot slot paraId collatorAssignment with
      | none => .error .authorNotFound
      | some author => .ok ⟨header.number, author⟩ := by
    simpa using blockInfoFromHeadPreDigest fits slotFits first []
  cases found : CollatorAssignment.authorForSlot slot paraId collatorAssignment <;>
    simp [headBlockInfo, stored, read, info, found, Except.toOption]

end Fetch

/-! ### The loop over the registered paras -/

section Loop
variable {fetch : ParaId → Option (Except Error (ContainerChainBlockInfo α))}

def noted (fetch : ParaId → Option (Except Error (ContainerChainBlockInfo α)))
    (latestAuthor : ParaId → Option (ContainerChainBlockInfo α)) (paraId : ParaId) : Option (ContainerChainBlockInfo α) :=
  match fetch paraId with
  | some (.ok blockInfo) => some blockInfo
  | _ => latestAuthor paraId

theorem notedUpdateNe {latestAuthor : ParaId → Option (ContainerChainBlockInfo α)} {p q : ParaId}
    (blockInfo : Option (ContainerChainBlockInfo α)) (ne : q ≠ p) :
    noted fetch (Function.update latestAuthor p blockInfo) q = noted fetch latestAuthor q := by
  unfold noted
  split <;> simp [Function.update_of_ne ne]

theorem noteAuthorsIsSome : ∀ {paraIds : List ParaId} {latestAuthor : ParaId → Option (ContainerChainBlockInfo α)},
    (noteAuthors fetch paraIds latestAuthor).isSome ↔ ∀ p ∈ paraIds, (fetch p).isSome
  | [], _ => by simp [noteAuthors]
  | p :: rest, latestAuthor => by
    unfold noteAuthors
    split <;> simp_all [noteAuthorsIsSome]

theorem noteAuthorsGet : ∀ {paraIds : List ParaId} {latestAuthor latestAuthor' : ParaId → Option (ContainerChainBlockInfo α)},
    noteAuthors fetch paraIds latestAuthor = some latestAuthor' →
      ∀ q, latestAuthor' q = if q ∈ paraIds then noted fetch latestAuthor q else latestAuthor q
  | [], latestAuthor, latestAuthor', h, q => by
    cases h
    simp
  | p :: rest, latestAuthor, latestAuthor', h, q => by
    unfold noteAuthors at h
    split at h
    · cases h
    · rename_i blockInfo fetched
      rw [noteAuthorsGet h q]
      by_cases same : q = p
      · subst same
        have here : noted fetch latestAuthor q = some blockInfo := by simp [noted, fetched]
        split <;> simp_all [noted]
      · simp [same, notedUpdateNe _ same]
    · rename_i e failed
      rw [noteAuthorsGet h q]
      by_cases same : q = p
      · subst same
        have kept : noted fetch latestAuthor q = latestAuthor q := by simp [noted, failed]
        split <;> simp_all
      · simp [same]

end Loop

/-! ### The inherent -/

section Inherent
variable {twox64 : List UInt8 → List UInt8} {registeredParaIds : List ParaId}
  {collatorAssignment : CollatorAssignment.State α} {relayStorageRoot : η} {relayStorageProof : StorageProof η}
  {origin : RawOrigin α} {st st' : State α}

theorem setLatestAuthorDataOk
    (h : setLatestAuthorData twox64 registeredParaIds collatorAssignment relayStorageRoot relayStorageProof origin st =
      some (.ok st')) :
    ensureNone origin = true ∧ st.didSetContainerAuthorData = false ∧ st'.didSetContainerAuthorData = true ∧
      latestAuthors twox64 registeredParaIds collatorAssignment relayStorageRoot relayStorageProof st.latestAuthor =
        some st'.latestAuthor := by
  unfold setLatestAuthorData at h
  split at h
  · cases h
  rename_i none'
  split at h
  · cases h
  rename_i unset
  obtain ⟨latestAuthor, noted', done⟩ := Option.map_eq_some_iff.1 h
  cases done
  exact ⟨by simpa using none', by simpa using unset, rfl, noted'⟩

theorem latestAuthorsListed {latestAuthor latestAuthor' : ParaId → Option (ContainerChainBlockInfo α)}
    (nonempty : registeredParaIds ≠ [])
    (h : latestAuthors twox64 registeredParaIds collatorAssignment relayStorageRoot relayStorageProof latestAuthor =
      some latestAuthor') :
    ∃ relayStorageRootedProof, GenericStateProof.new relayStorageRoot relayStorageProof = .ok relayStorageRootedProof ∧
      noteAuthors (fetchBlockInfoFromProof twox64 collatorAssignment relayStorageRootedProof) registeredParaIds
        latestAuthor = some latestAuthor' := by
  have listed : registeredParaIds.isEmpty = false := by simpa using nonempty
  simp only [latestAuthors, listed, Bool.false_eq_true, if_false] at h
  split at h
  · cases h
  · rename_i relayStorageRootedProof built
    exact ⟨relayStorageRootedProof, built, h⟩

theorem setLatestAuthorDataNotes {relayState : List UInt8 → Option (List UInt8)}
    (proves : (⟨relayStorageRoot, relayStorageProof⟩ : GenericStateProof η).Proves relayState)
    (h : setLatestAuthorData twox64 registeredParaIds collatorAssignment relayStorageRoot relayStorageProof origin st =
      some (.ok st')) :
    st'.didSetContainerAuthorData = true ∧ ∀ paraId, st'.latestAuthor paraId =
      if paraId ∈ registeredParaIds then
        (headBlockInfo twox64 collatorAssignment relayState paraId).or (st.latestAuthor paraId)
      else st.latestAuthor paraId := by
  obtain ⟨-, -, didSet, latest⟩ := setLatestAuthorDataOk h
  refine ⟨didSet, fun paraId => ?_⟩
  by_cases empty : registeredParaIds = []
  · subst empty
    simp only [latestAuthors, List.isEmpty_nil, if_true, Option.some.injEq] at latest
    simp [← latest]
  obtain ⟨backend, built, looped⟩ := latestAuthorsListed empty latest
  obtain rfl := newOk built
  rw [noteAuthorsGet looped paraId]
  split
  · rename_i listed
    obtain ⟨result, fetched⟩ :=
      Option.isSome_iff_exists.1 (noteAuthorsIsSome.1 (by rw [looped]; rfl) paraId listed)
    rw [← fetchBlockInfoFromProofProves proves fetched]
    cases result <;> simp [noted, fetched, Except.toOption]
  · rfl

theorem setLatestAuthorDataPanics :
    setLatestAuthorData twox64 registeredParaIds collatorAssignment relayStorageRoot relayStorageProof origin st = none ↔
      ensureNone origin = true ∧ (st.didSetContainerAuthorData = true ∨ registeredParaIds ≠ [] ∧
        ((relayStorageProof.contains relayStorageRoot = false ∧ relayStorageProof.isEmpty = false) ∨
          ∃ paraId ∈ registeredParaIds, ∃ e, relayStorageProof.storage relayStorageRoot (paraIdHead twox64 paraId) = .error e)) := by
  unfold setLatestAuthorData
  by_cases inherent : ensureNone origin = true
  · by_cases again : st.didSetContainerAuthorData = true
    · simp [inherent, again]
    · simp only [inherent, Bool.not_true, Bool.false_eq_true, if_false, again, Option.map_eq_none_iff, true_and,
        false_or]
      by_cases empty : registeredParaIds = []
      · simp [latestAuthors, empty]
      simp only [latestAuthors, List.isEmpty_iff, empty, if_false, ne_eq, not_false_eq_true, true_and]
      unfold GenericStateProof.new
      by_cases rootless : relayStorageProof.contains relayStorageRoot = false ∧ relayStorageProof.isEmpty = false
      · simp [rootless]
      · have accepted : (!relayStorageProof.contains relayStorageRoot && !relayStorageProof.isEmpty) = false := by
          simpa using rootless
        simp only [accepted, Bool.false_eq_true, if_false, rootless, false_or]
        rw [← Option.not_isSome_iff_eq_none, noteAuthorsIsSome]
        simp only [not_forall, Option.not_isSome_iff_eq_none, fetchBlockInfoFromProofNone, GenericStateProof.lookup,
          exists_prop]
  · simp [inherent]

end Inherent

/-! ### Blocks

A block runs `on_initialize`, its extrinsics in order and `on_finalize`. The inherent is
unsigned; a failed extrinsic leaves the state as it was. -/

inductive Call (α η : Type) where
  | setLatestAuthorData (relayStorageProof : StorageProof η)
  | setAuthor (paraId : ParaId) (blockNumber : Nat) (author : α)

structure Env (α η : Type) where
  twox64 : List UInt8 → List UInt8
  registeredParaIds : List ParaId
  collatorAssignment : CollatorAssignment.State α
  relayStorageRoot : η

def dispatch (env : Env α η) (origin : RawOrigin α) : Call α η → State α → Option (Except DispatchError (State α))
  | .setLatestAuthorData relayStorageProof, st =>
    setLatestAuthorData env.twox64 env.registeredParaIds env.collatorAssignment env.relayStorageRoot relayStorageProof
      origin st
  | .setAuthor paraId blockNumber author, st => some (setAuthor paraId blockNumber author origin st)

def onInitialize (st : State α) : State α := { st with didSetContainerAuthorData := false }

/-- `on_finalize`; `none` where it panics, the inherent having not run. -/
def onFinalize (st : State α) : Option (State α) := if st.didSetContainerAuthorData then some st else none

def applyExtrinsics (env : Env α η) : List (RawOrigin α × Call α η) → State α → Option (State α)
  | [], st => some st
  | (origin, call) :: rest, st =>
    match dispatch env origin call st with
    | none => none
    | some (.ok st') => applyExtrinsics env rest st'
    | some (.error _) => applyExtrinsics env rest st

def executeBlock (env : Env α η) (extrinsics : List (RawOrigin α × Call α η)) (st : State α) : Option (State α) :=
  (applyExtrinsics env extrinsics (onInitialize st)).bind onFinalize

def isInherent : RawOrigin α × Call α η → Bool
  | (.none, .setLatestAuthorData _) => true
  | _ => false

section Blocks
variable {env : Env α η} {origin : RawOrigin α} {call : Call α η} {st st' : State α}

theorem dispatchDidSet (h : dispatch env origin call st = some (.ok st')) :
    st'.didSetContainerAuthorData = (st.didSetContainerAuthorData || isInherent (origin, call)) ∧
      (isInherent (origin, call) = true → st.didSetContainerAuthorData = false) := by
  cases call with
  | setLatestAuthorData relayStorageProof =>
    obtain ⟨inherent, unset, didSet, -⟩ := setLatestAuthorDataOk h
    cases origin <;> simp_all [ensureNone, isInherent]
  | setAuthor paraId blockNumber author =>
    simp only [dispatch, setAuthor, Option.some.injEq] at h
    split at h
    · cases h
      simp [isInherent]
    · cases h

theorem dispatchErrorNotInherent {e : DispatchError} (h : dispatch env origin call st = some (.error e)) :
    isInherent (origin, call) = false := by
  cases call with
  | setLatestAuthorData relayStorageProof =>
    cases origin with
    | none =>
      simp only [dispatch, setLatestAuthorData, ensureNone, Bool.not_true, Bool.false_eq_true, if_false] at h
      split at h
      · cases h
      · simp at h
    | root => rfl
    | signed who => rfl
  | setAuthor => cases origin <;> rfl

theorem applyExtrinsicsInherents :
    ∀ {extrinsics : List (RawOrigin α × Call α η)} {st st' : State α}, applyExtrinsics env extrinsics st = some st' →
      extrinsics.countP isInherent + (if st.didSetContainerAuthorData then 1 else 0) ≤ 1 ∧
        (st'.didSetContainerAuthorData = true ↔ st.didSetContainerAuthorData = true ∨ 0 < extrinsics.countP isInherent)
  | [], st, st', h => by
    cases h
    split <;> simp_all
  | (origin, call) :: rest, st, st', h => by
    unfold applyExtrinsics at h
    split at h
    · cases h
    · rename_i st₁ dispatched
      obtain ⟨flag, fresh⟩ := dispatchDidSet dispatched
      obtain ⟨bound, ends⟩ := applyExtrinsicsInherents h
      rw [List.countP_cons]
      cases inherent : isInherent (origin, call)
      · simp only [inherent, Bool.or_false] at flag
        simp only [flag] at bound ends
        simp [bound, ends]
      · have unset := fresh inherent
        simp only [inherent, Bool.or_true] at flag
        simp only [flag, if_true] at bound ends
        simp only [unset, Bool.false_eq_true, if_false] at ⊢
        constructor <;> simp_all
    · rename_i e failed
      have other := dispatchErrorNotInherent failed
      obtain ⟨bound, ends⟩ := applyExtrinsicsInherents h
      simp [other, bound, ends]

theorem executeBlockInherentOnce {extrinsics : List (RawOrigin α × Call α η)}
    (h : executeBlock env extrinsics st = some st') : extrinsics.countP isInherent = 1 := by
  obtain ⟨st₁, applied, finalized⟩ := Option.bind_eq_some_iff.1 h
  have didSet : st₁.didSetContainerAuthorData = true := by
    unfold onFinalize at finalized
    split at finalized
    · assumption
    · cases finalized
  obtain ⟨bound, ends⟩ := applyExtrinsicsInherents applied
  simp only [onInitialize, Bool.false_eq_true, if_false, Nat.add_zero, false_or] at bound ends
  have ran := ends.1 didSet
  omega

theorem executeBlockInherentOnceWithoutContainers :
    [((.none : RawOrigin Nat), (.setLatestAuthorData ⟨true, fun _ => false, fun _ _ => .ok none⟩ : Call Nat Unit))].countP
      isInherent = 1 :=
  executeBlockInherentOnce (show executeBlock ⟨fun _ => [], [], default, ()⟩
    [(.none, .setLatestAuthorData ⟨true, fun _ => false, fun _ _ => .ok none⟩)] (⟨fun _ => none, false⟩ : State Nat) =
      some ⟨fun _ => none, true⟩ from rfl)

end Blocks

end Tanssi.AuthorNoting

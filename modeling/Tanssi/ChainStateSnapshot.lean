import Tanssi.Scale
import Tanssi.AssignedCollators

/-! `tp_chain_state_snapshot`, through which a runtime reads entries of another chain's
state from a storage proof, and the keys of `tp_core::well_known_keys` that the runtimes
read. A proof is what the trie backend built from it answers: a value, the absence of one,
or an error where the proof does not reach the key. That the answers are those of the chain
whose storage root the proof is checked against is what a trie proof guarantees: it is a
hypothesis (`Proves`) of the results that need it, not a fact proved here. -/

namespace Tanssi.ChainStateSnapshot
open Scale

variable {α η : Type}

inductive ReadEntryErr where
  | proof
  | decode
  | absent
  | rootMismatch
  deriving DecidableEq, Repr

/-- A `StorageProof` as the trie backend built from it sees it: whether it is empty, whether
its database holds the node of a hash, and what a lookup under a root finds. -/
structure StorageProof (η : Type) where
  isEmpty : Bool
  contains : η → Bool
  storage : η → List UInt8 → Except Unit (Option (List UInt8))

/-- `GenericStateProof`: the trie backend of a proof under a storage root. -/
structure GenericStateProof (η : Type) where
  root : η
  proof : StorageProof η

namespace GenericStateProof

/-- `GenericStateProof::new`: a proof that is not empty must hold the root. -/
def new (root : η) (proof : StorageProof η) : Except ReadEntryErr (GenericStateProof η) :=
  if !proof.contains root && !proof.isEmpty then .error .rootMismatch else .ok ⟨root, proof⟩

/-- `backend.storage(key)`. -/
def lookup (backend : GenericStateProof η) (key : List UInt8) : Except Unit (Option (List UInt8)) :=
  backend.proof.storage backend.root key

def Proves (backend : GenericStateProof η) (state : List UInt8 → Option (List UInt8)) : Prop :=
  ∀ key found, backend.lookup key = .ok found → found = state key

/-- `read_entry`: the value under the key, decoded, or the fallback where there is none. -/
def readEntry (decode : Decoder α) (backend : GenericStateProof η) (key : List UInt8) (fallback : Option α) :
    Except ReadEntryErr α :=
  match backend.lookup key with
  | .error _ => .error .proof
  | .ok (some raw) =>
    match decode raw with
    | some (value, _) => .ok value
    | none => .error .decode
  | .ok none =>
    match fallback with
    | some value => .ok value
    | none => .error .absent

/-- `read_optional_entry`. -/
def readOptionalEntry (decode : Decoder α) (backend : GenericStateProof η) (key : List UInt8) :
    Except ReadEntryErr (Option α) :=
  match readEntry decode backend key none with
  | .ok value => .ok (some value)
  | .error .absent => .ok none
  | .error err => .error err

theorem newOk {root : η} {proof : StorageProof η} {backend : GenericStateProof η}
    (h : new root proof = .ok backend) : backend = ⟨root, proof⟩ := by
  unfold new at h
  split at h
  · cases h
  · exact (Except.ok.inj h).symm

theorem newOfContains {root : η} {proof : StorageProof η} (holds : proof.contains root = true) :
    new root proof = .ok ⟨root, proof⟩ := by
  simp [new, holds]

theorem readEntryEncoded {backend : GenericStateProof η} {key : List UInt8} {encode : α → List UInt8}
    {decode : Decoder α} {Fits : α → Prop} (trip : RoundTrip encode decode Fits) {value : α} (fits : Fits value)
    {rest : List UInt8} (stored : backend.lookup key = .ok (some (encode value ++ rest))) (fallback : Option α) :
    readEntry decode backend key fallback = .ok value := by
  simp [readEntry, stored, trip value fits rest]

theorem readEntryOk {backend : GenericStateProof η} {key : List UInt8} {decode : Decoder α} {value : α}
    (h : readEntry decode backend key none = .ok value) :
    ∃ raw rest, backend.lookup key = .ok (some raw) ∧ decode raw = some (value, rest) := by
  unfold readEntry at h
  split at h
  · cases h
  · rename_i raw stored
    split at h
    · rename_i read rest decoded
      exact ⟨raw, rest, stored, (Except.ok.inj h) ▸ decoded⟩
    · cases h
  · cases h

theorem readEntryProof {backend : GenericStateProof η} {key : List UInt8} {decode : Decoder α} {fallback : Option α} :
    readEntry decode backend key fallback = .error .proof ↔ ∃ e, backend.lookup key = .error e := by
  unfold readEntry
  split
  · simp_all
  · rename_i stored
    split <;> simp [stored]
  · rename_i stored
    split <;> simp [stored]

end GenericStateProof

end Tanssi.ChainStateSnapshot

/-! `tp_core::well_known_keys`, with `twox_64` a parameter: the keys hold the encoded index
after its hash. -/

namespace Tanssi.WellKnownKeys
open Scale

/-- `Hashable::twox_64_concat`: the hash of the bytes, then the bytes. -/
def twox64Concat (twox64 : List UInt8 → List UInt8) (bytes : List UInt8) : List UInt8 := twox64 bytes ++ bytes

/-- `PARAS_HEADS_INDEX`. -/
def parasHeadsIndex : List UInt8 :=
  [0xcd, 0x71, 0x0b, 0x30, 0xbd, 0x2e, 0xab, 0x03, 0x52, 0xdd, 0xcc, 0x26, 0x41, 0x7a, 0xa1, 0x94,
   0x1b, 0x3c, 0x25, 0x2f, 0xcb, 0x29, 0xd8, 0x8e, 0xff, 0x4f, 0x3d, 0xe5, 0xde, 0x44, 0x76, 0xc3]

/-- `para_id_head`: where the relay chain keeps the head of a para. -/
def paraIdHead (twox64 : List UInt8 → List UInt8) (paraId : ParaId) : List UInt8 :=
  parasHeadsIndex ++ twox64Concat twox64 (encodeU32 paraId)

/-- `AUTHORITY_ASSIGNMENT_PREFIX`. -/
def authorityAssignmentPrefix : List UInt8 :=
  [0xeb, 0xe7, 0x84, 0x23, 0xc7, 0xe3, 0xed, 0x25, 0x23, 0x4f, 0x80, 0xd5, 0x45, 0x47, 0x28, 0x5a,
   0x17, 0x0f, 0x16, 0xaf, 0xec, 0x7d, 0x16, 0x1b, 0xc6, 0xac, 0xec, 0x39, 0x64, 0x49, 0x2a, 0x0c]

/-- `authority_assignment_for_session`: where the orchestrator keeps the authority assignment
of a session. -/
def authorityAssignmentForSession (twox64 : List UInt8 → List UInt8) (sessionIndex : Nat) : List UInt8 :=
  authorityAssignmentPrefix ++ twox64Concat twox64 (encodeU32 sessionIndex)

/-- `SESSION_INDEX`. -/
def sessionIndex : List UInt8 :=
  [0xce, 0xc5, 0x07, 0x0d, 0x60, 0x9d, 0xd3, 0x49, 0x7f, 0x72, 0xbd, 0xe0, 0x7f, 0xc9, 0x6b, 0xa0,
   0x72, 0x76, 0x38, 0x00, 0xa3, 0x6a, 0x99, 0xfd, 0xfc, 0x7c, 0x10, 0xf6, 0x41, 0x5f, 0x6e, 0xe6]

end Tanssi.WellKnownKeys

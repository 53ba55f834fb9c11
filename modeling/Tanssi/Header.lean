import Tanssi.Scale

/-! `sp_runtime::generic::Header` and its `DigestItem`s with their SCALE codecs: what a
runtime decodes from a head the relay chain stores, and what a node writes when it seals the
slot and the author of a block into the pre-runtime digests. -/

namespace Generic
open Scale

variable {α : Type}

/-- `DigestItem`; an engine id is the four bytes of a `ConsensusEngineId`. -/
inductive DigestItem where
  | preRuntime (engineId data : List UInt8)
  | consensus (engineId data : List UInt8)
  | seal (engineId data : List UInt8)
  | other (data : List UInt8)
  | runtimeEnvironmentUpdated
  deriving DecidableEq, Repr

namespace DigestItem

/-- An engine id and its data, as `(ConsensusEngineId, Vec<u8>)` writes them. -/
def encodeEngineData : List UInt8 × List UInt8 → List UInt8 := encodePair (fun id => id) encodeBytes

def decodeEngineData : Decoder (List UInt8 × List UInt8) := decodePair (takeBytes 4) decodeBytes

/-- Each item is written after its `DigestItemType` index. -/
def encode : DigestItem → List UInt8
  | preRuntime engine data => 6 :: encodeEngineData (engine, data)
  | consensus engine data => 4 :: encodeEngineData (engine, data)
  | DigestItem.seal engine data => 5 :: encodeEngineData (engine, data)
  | other data => 0 :: encodeBytes data
  | runtimeEnvironmentUpdated => [8]

def decode : Decoder DigestItem
  | [] => none
  | index :: rest =>
    match index.toNat with
    | 6 => (decodeEngineData rest).map fun r => (preRuntime r.1.1 r.1.2, r.2)
    | 4 => (decodeEngineData rest).map fun r => (consensus r.1.1 r.1.2, r.2)
    | 5 => (decodeEngineData rest).map fun r => (DigestItem.seal r.1.1 r.1.2, r.2)
    | 0 => (decodeBytes rest).map fun r => (other r.1, r.2)
    | 8 => some (runtimeEnvironmentUpdated, rest)
    | _ => none

def Fits : DigestItem → Prop
  | preRuntime engine data | consensus engine data | DigestItem.seal engine data =>
    engine.length = 4 ∧ data.length < 2 ^ 32
  | other data => data.length < 2 ^ 32
  | runtimeEnvironmentUpdated => True

instance : DecidablePred Fits
  | preRuntime engine data | consensus engine data | DigestItem.seal engine data =>
    inferInstanceAs (Decidable (engine.length = 4 ∧ data.length < 2 ^ 32))
  | other data => inferInstanceAs (Decidable (data.length < 2 ^ 32))
  | runtimeEnvironmentUpdated => inferInstanceAs (Decidable True)

/-- `as_pre_runtime`. -/
def asPreRuntime : DigestItem → Option (List UInt8 × List UInt8)
  | preRuntime engine data => some (engine, data)
  | _ => none

/-- `pre_runtime_try_to`: the data of a pre-runtime item of the engine, decoded. -/
def preRuntimeTryTo (decodeData : Decoder α) (engineId : List UInt8) : DigestItem → Option α
  | preRuntime engine data => if engine = engineId then (decodeData data).map (·.1) else none
  | _ => none

theorem roundTripEngineData :
    RoundTrip encodeEngineData decodeEngineData (fun p => p.1.length = 4 ∧ p.2.length < 2 ^ 32) :=
  (roundTripTake 4).pair roundTripBytes

theorem roundTrip : RoundTrip encode decode Fits := by
  intro item fits rest
  cases item with
  | preRuntime engine data =>
    simp only [encode, List.cons_append, decode, roundTripEngineData (engine, data) fits rest]
    rfl
  | consensus engine data =>
    simp only [encode, List.cons_append, decode, roundTripEngineData (engine, data) fits rest]
    rfl
  | «seal» engine data =>
    simp only [encode, List.cons_append, decode, roundTripEngineData (engine, data) fits rest]
    rfl
  | other data =>
    simp only [encode, List.cons_append, decode, roundTripBytes data fits rest]
    rfl
  | runtimeEnvironmentUpdated => rfl

end DigestItem

/-- `Digest::convert_first`: the first item the conversion accepts. -/
def convertFirst (logs : List DigestItem) (convert : DigestItem → Option α) : Option α := logs.findSome? convert

/-- `Header<BlockNumber, BlakeTwo256>`: the block number is written as a `Compact<u32>`, the
hashes as 32 bytes, and the digest as the vector of its logs. -/
structure Header where
  parentHash : List UInt8
  number : Nat
  stateRoot : List UInt8
  extrinsicsRoot : List UInt8
  logs : List DigestItem
  deriving DecidableEq, Repr

namespace Header

def encode (header : Header) : List UInt8 :=
  header.parentHash ++ encodeCompact header.number ++ header.stateRoot ++ header.extrinsicsRoot ++
    encodeVec DigestItem.encode header.logs

def decode : Decoder Header := fun input => do
  let (parentHash, r) ← takeBytes 32 input
  let (number, r) ← decodeCompact r
  let (stateRoot, r) ← takeBytes 32 r
  let (extrinsicsRoot, r) ← takeBytes 32 r
  let (logs, r) ← decodeVec DigestItem.decode r
  pure (⟨parentHash, number, stateRoot, extrinsicsRoot, logs⟩, r)

def Fits (header : Header) : Prop :=
  header.parentHash.length = 32 ∧ header.number < 2 ^ 32 ∧ header.stateRoot.length = 32 ∧
    header.extrinsicsRoot.length = 32 ∧ VecFits DigestItem.Fits header.logs

instance : DecidablePred Fits := fun header =>
  inferInstanceAs (Decidable (header.parentHash.length = 32 ∧ header.number < 2 ^ 32 ∧ header.stateRoot.length = 32 ∧
    header.extrinsicsRoot.length = 32 ∧ VecFits DigestItem.Fits header.logs))

theorem roundTrip : RoundTrip encode decode Fits := by
  intro header fits rest
  obtain ⟨parent, number, state, extrinsics, logs⟩ := fits
  have readLogs := DigestItem.roundTrip.vec header.logs logs rest
  have readExtrinsics := roundTripTake 32 header.extrinsicsRoot extrinsics
    (encodeVec DigestItem.encode header.logs ++ rest)
  have readState := roundTripTake 32 header.stateRoot state
    (header.extrinsicsRoot ++ encodeVec DigestItem.encode header.logs ++ rest)
  have readNumber := roundTripCompact header.number number
    (header.stateRoot ++ header.extrinsicsRoot ++ encodeVec DigestItem.encode header.logs ++ rest)
  have readParent := roundTripTake 32 header.parentHash parent
    (encodeCompact header.number ++ header.stateRoot ++ header.extrinsicsRoot ++
      encodeVec DigestItem.encode header.logs ++ rest)
  simp only [List.append_assoc] at readExtrinsics readState readNumber readParent
  simp [encode, decode, readParent, readNumber, readState, readExtrinsics, readLogs]

end Header

end Generic

/-! The pre-runtime digests a Tanssi node writes into the header of a block it authors. -/

namespace Aura
open Scale Generic

/-- `AURA_ENGINE_ID`, `*b"aura"`. -/
def engineId : List UInt8 := [0x61, 0x75, 0x72, 0x61]

/-- `CompatibleDigestItem::aura_pre_digest`: the slot, encoded as a `u64`. -/
def preDigest (slot : Nat) : DigestItem := .preRuntime engineId (encodeU64 slot)

end Aura

namespace Nimbus
open Generic

/-- `NIMBUS_ENGINE_ID`, `*b"nmbs"`. -/
def engineId : List UInt8 := [0x6e, 0x6d, 0x62, 0x73]

/-- `NimbusCompatibleDigestItem::nimbus_pre_digest`: the author's key, encoded. -/
def preDigest (author : List UInt8) : DigestItem := .preRuntime engineId author

end Nimbus

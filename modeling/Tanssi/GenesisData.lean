import Tanssi.Frame
import Tanssi.Hex
import Tanssi.SortedMap

/-! The genesis data a container chain is registered with, the raw chain spec a collator
builds from it (`chain_spec_from_genesis_data`), and the reader that takes a raw chain
spec back to genesis data (`container_chain_genesis_data_from_json`). The spec's JSON is
laid out as `sc_chain_spec` writes it: camelCase fields, the extensions' own fields
flattened in, storage as `0x`-prefixed lowercase hex. Storage, name, id and properties come
back as they went in; the fork id does not, since the writer's field is `forkId` and the
reader asks for `fork_id`. -/
namespace Tanssi.GenesisData
open Frame

structure ContainerChainGenesisDataItem where
  key : List UInt8
  value : List UInt8
  deriving DecidableEq, Repr

theorem ContainerChainGenesisDataItem.toLexInjective :
    Function.Injective fun x : ContainerChainGenesisDataItem => toLex (x.key, x.value) := by
  rintro ⟨k, v⟩ ⟨k', v'⟩ same
  cases same
  rfl

/-- The derived `Ord`: by key, then by value. -/
instance : LinearOrder ContainerChainGenesisDataItem :=
  LinearOrder.lift' _ ContainerChainGenesisDataItem.toLexInjective

structure TokenMetadata (maxLengthTokenSymbol : Nat) where
  tokenSymbol : {v : List UInt8 // v.length ≤ maxLengthTokenSymbol}
  ss58Format : UInt32
  tokenDecimals : UInt32
  deriving DecidableEq

/-- The values polkadot.js uses, with `b"UNIT"` cut to the bound. -/
instance {maxLengthTokenSymbol : Nat} : Inhabited (TokenMetadata maxLengthTokenSymbol) :=
  ⟨⟨⟨(Str.bytes "UNIT").take maxLengthTokenSymbol, List.length_take_le _ _⟩, 42, 12⟩⟩

structure Properties (maxLengthTokenSymbol : Nat) where
  tokenMetadata : TokenMetadata maxLengthTokenSymbol
  isEthereum : Bool
  deriving DecidableEq, Inhabited

structure ContainerChainGenesisData (maxLengthTokenSymbol : Nat) where
  storage : List ContainerChainGenesisDataItem
  name : List UInt8
  id : List UInt8
  forkId : Option (List UInt8)
  extensions : List UInt8
  properties : Properties maxLengthTokenSymbol
  deriving DecidableEq

variable {maxLengthTokenSymbol : Nat} {β ε : Type}

/-- `Option::ok_or`. -/
def okOr (o : Option β) (err : ε) : Except ε β :=
  match o with
  | some b => .ok b
  | none => .error err

@[simp] theorem okOrSome (b : β) (err : ε) : okOr (some b) err = .ok b := rfl

@[simp] theorem okOrEqOk {o : Option β} {err : ε} {b : β} : okOr o err = .ok b ↔ o = some b := by
  cases o <;> simp [okOr]

/-- How the reader stops: an `unwrap` panics, and what it cannot read of the storage is
an `Err` with a message. -/
inductive ReadError where
  | panic
  | message (text : String)
  deriving DecidableEq, Repr

/-- `Option::unwrap`. -/
def unwrap (o : Option β) : Except ReadError β := okOr o .panic

@[simp] theorem unwrapSome (b : β) : unwrap (some b) = .ok b := rfl

/-- `u32::try_from(..).ok()`. -/
def u32TryFrom (n : Nat) : Option UInt32 := if n < 2 ^ 32 then some n.toUInt32 else none

/-- `try_into().ok()` from `Vec<u8>` into a `BoundedVec`. -/
def boundedTryFrom (maxLengthTokenSymbol : Nat) (v : List UInt8) :
    Option {v : List UInt8 // v.length ≤ maxLengthTokenSymbol} :=
  if h : v.length ≤ maxLengthTokenSymbol then some ⟨v, h⟩ else none

/- Reading a raw chain spec. -/

/-- One turn of the loop of `storage_from_chainspec_json`. -/
def storageItemFromJson (entry : String × Json) : Except String ContainerChainGenesisDataItem := do
  let keyHex ← okOr (Str.stripPrefix entry.1 "0x") "key does not start with 0x"
  let value ← okOr entry.2.asStr "value is not a string"
  let valueHex ← okOr (Str.stripPrefix value "0x") "value does not start with 0x"
  let keyBytes ← (Hex.decode (Str.bytes keyHex)).mapError Hex.FromHexError.toString
  let valueBytes ← (Hex.decode (Str.bytes valueHex)).mapError Hex.FromHexError.toString
  pure ⟨keyBytes, valueBytes⟩

def storageFromChainspecJson (genesisRawTopJson : Json) : Except String (List ContainerChainGenesisDataItem) := do
  let genesisDataMap ← okOr genesisRawTopJson.asObject "genesis.raw.top is not an object"
  let genesisDataVec ← genesisDataMap.mapM storageItemFromJson
  -- `sort_unstable`: the order is total, so every sort gives this list
  pure (genesisDataVec.mergeSort fun a b => decide (a ≤ b))

def propertiesFromChainspecJson (maxLengthTokenSymbol : Nat) (propertiesJson : Json) :
    Properties maxLengthTokenSymbol :=
  let properties : Properties maxLengthTokenSymbol := default
  let properties :=
    if let some x := (propertiesJson.get "ss58Format").bind fun x => x.asU64.bind u32TryFrom then
      { properties with tokenMetadata.ss58Format := x }
    else properties
  let properties :=
    if let some x := (propertiesJson.get "tokenDecimals").bind fun x => x.asU64.bind u32TryFrom then
      { properties with tokenMetadata.tokenDecimals := x }
    else properties
  let properties :=
    if let some x := (propertiesJson.get "tokenSymbol").bind fun x =>
        x.asStr.bind fun xs => boundedTryFrom maxLengthTokenSymbol (Str.bytes xs) then
      { properties with tokenMetadata.tokenSymbol := x }
    else properties
  let properties :=
    if let some x := (propertiesJson.get "isEthereum").bind Json.asBool then
      { properties with isEthereum := x }
    else properties
  properties

def containerChainGenesisDataFromJson (maxLengthTokenSymbol : Nat) (rawChainspecJson : Json) :
    Except ReadError (UInt32 × ContainerChainGenesisData maxLengthTokenSymbol × List (List UInt8)) := do
  let paraId ← unwrap (u32TryFrom (← unwrap (rawChainspecJson.index "para_id").asU64))
  let name ← unwrap (rawChainspecJson.index "name").asStr
  let id ← unwrap (rawChainspecJson.index "id").asStr
  let forkId := (rawChainspecJson.index "fork_id").asStr
  let genesisRawTopJson := ((rawChainspecJson.index "genesis").index "raw").index "top"
  let storage ← (storageFromChainspecJson genesisRawTopJson).mapError .message
  let properties := propertiesFromChainspecJson maxLengthTokenSymbol (rawChainspecJson.index "properties")
  let bootNodes ← unwrap (rawChainspecJson.index "bootNodes").asArray
  let bootNodes ← bootNodes.mapM fun x => Str.bytes <$> unwrap x.asStr
  pure (paraId, ⟨storage, Str.bytes name, Str.bytes id, forkId.map Str.bytes, [], properties⟩, bootNodes)

/- Writing one. -/

/-- `properties_to_map`. The text `Utf8Error` writes after the colon is left out. -/
def propertiesToMap (properties : Properties maxLengthTokenSymbol) : Except String (SortedMap String Json) := do
  let tokenSymbol ← okOr (Str.fromUtf8 properties.tokenMetadata.tokenSymbol.1) "tokenSymbol is not valid UTF8: "
  pure (SortedMap.ofList [("ss58Format", .number properties.tokenMetadata.ss58Format.toNat),
    ("tokenDecimals", .number properties.tokenMetadata.tokenDecimals.toNat),
    ("tokenSymbol", .string tokenSymbol), ("isEthereum", .bool properties.isEthereum)])

structure Extensions where
  relayChain : String
  paraId : UInt32
  deriving DecidableEq, Repr

inductive ChainType where
  | development
  | «local»
  | live
  | custom (name : String)
  deriving DecidableEq, Repr

/-- What `RawChainSpec::from_genesis` keeps; the telemetry endpoints are always `None`. -/
structure RawChainSpec where
  name : String
  id : String
  chainType : ChainType
  bootNodes : List String
  protocolId : Option String
  forkId : Option String
  properties : Option (SortedMap String Json)
  extensions : Extensions
  storageRaw : SortedMap (List UInt8) (List UInt8)

/-- `parseBootNode` parses a `MultiaddrWithPeerId` and gives the text the spec writes for
it, or the `Display` of its error. -/
def chainSpecFromGenesisData (parseBootNode : String → Except String String) (paraId : UInt32)
    (genesisData : ContainerChainGenesisData maxLengthTokenSymbol) (chainType : ChainType)
    (relayChain : String) (bootNodes : List String) : Except String RawChainSpec := do
  let name ← okOr (Str.fromUtf8 genesisData.name) "Invalid name"
  let id ← okOr (Str.fromUtf8 genesisData.id) "Invalid id"
  let storageRaw := SortedMap.ofList (genesisData.storage.map fun x => (x.key, x.value))
  let bootNodes ← bootNodes.mapM parseBootNode
  let protocolId := some ("container-chain-" ++ toString paraId)
  let forkId ← genesisData.forkId.mapM fun forkId => okOr (Str.fromUtf8 forkId) "Invalid fork_id"
  let properties ← (propertiesToMap genesisData.properties).mapError ("Invalid properties: " ++ ·)
  pure ⟨name, id, chainType, bootNodes, protocolId, forkId, some properties, ⟨relayChain, paraId⟩, storageRaw⟩

def ChainType.toJson : ChainType → Json
  | .development => .string "Development"
  | .«local» => .string "Local"
  | .live => .string "Live"
  | .custom name => .object [("Custom", .string name)]

/-- Bytes as `sp_core::bytes` writes them. -/
def hexString (bytes : List UInt8) : String := "0x" ++ Hex.encode bytes

def storageToJson (storageRaw : SortedMap (List UInt8) (List UInt8)) : Json :=
  .object (storageRaw.entries.map fun e => (hexString e.1, .string (hexString e.2)))

/-- The raw spec as `sc_chain_spec` writes it, `forkId` left out when there is none. -/
def RawChainSpec.toJson (spec : RawChainSpec) : Json :=
  .object ([("name", .string spec.name), ("id", .string spec.id), ("chainType", spec.chainType.toJson),
      ("bootNodes", .array (spec.bootNodes.map .string)), ("telemetryEndpoints", .null),
      ("protocolId", (spec.protocolId.map .string).getD .null)] ++
    (spec.forkId.map fun forkId => ("forkId", .string forkId)).toList ++
    [("properties", (spec.properties.map fun p => .object p.entries).getD .null),
      ("relay_chain", .string spec.extensions.relayChain),
      ("para_id", .number spec.extensions.paraId.toNat),
      ("codeSubstitutes", .object []),
      ("genesis", .object [("raw", .object [("top", storageToJson spec.storageRaw),
        ("childrenDefault", .object [])])])])

/-- Where the writer of a raw spec puts the fields the reader looks up. The spec is written by
`sc_chain_spec`, outside this repository; `RawChainSpec.toJson` above is one such writer. -/
structure RawSpecLayout (toJson : RawChainSpec → Json) : Prop where
  paraId : ∀ spec, (toJson spec).index "para_id" = .number spec.extensions.paraId.toNat
  name : ∀ spec, (toJson spec).index "name" = .string spec.name
  id : ∀ spec, (toJson spec).index "id" = .string spec.id
  forkId : ∀ spec, (toJson spec).index "fork_id" = .null
  storage : ∀ spec, (((toJson spec).index "genesis").index "raw").index "top" = storageToJson spec.storageRaw
  properties : ∀ spec, (toJson spec).index "properties" = (spec.properties.map fun p => .object p.entries).getD .null
  bootNodes : ∀ spec, (toJson spec).index "bootNodes" = .array (spec.bootNodes.map .string)

theorem rawChainSpecLayout : RawSpecLayout RawChainSpec.toJson := by
  constructor <;>
  · rintro ⟨_, _, _, _, _, _ | _, _, _, _⟩ <;> simp [RawChainSpec.toJson, List.lookup]

/- The storage comes back. -/

theorem itemLeOfKeyLt {a b : ContainerChainGenesisDataItem} (lt : a.key < b.key) : a ≤ b := by
  show toLex (a.key, a.value) ≤ toLex (b.key, b.value)
  exact Prod.Lex.le_iff.mpr (.inl lt)

theorem storageItemFromJsonHex (k v : List UInt8) :
    storageItemFromJson (hexString k, .string (hexString v)) = .ok ⟨k, v⟩ := by
  simp [storageItemFromJson, hexString, okOr, Hex.decodeEncode, Except.mapError]

theorem storageFromChainspecJsonOfList {storage : List ContainerChainGenesisDataItem}
    (sorted : storage.Pairwise fun a b => a.key < b.key) :
    storageFromChainspecJson (storageToJson (SortedMap.ofList (storage.map fun x => (x.key, x.value)))) =
      .ok storage := by
  have collected : (SortedMap.ofList (storage.map fun x => (x.key, x.value))).entries =
      storage.map fun x => (x.key, x.value) :=
    SortedMap.ofListSorted (List.pairwise_map.mpr sorted)
  have items : storage.mapM (fun x => storageItemFromJson (hexString x.key, .string (hexString x.value))) =
      .ok (storage.map id) :=
    mapMEqOk fun x _ => storageItemFromJsonHex x.key x.value
  have ordered : storage.mergeSort (fun a b => decide (a ≤ b)) = storage :=
    List.mergeSort_eq_self _ (sorted.imp itemLeOfKeyLt)
  simp only [storageFromChainspecJson, storageToJson, collected, Json.asObjectObject, okOr, List.map_map]
  simp [Function.comp_def, items, ordered]

/- The properties come back. -/

theorem propertiesToMapOk {properties : Properties maxLengthTokenSymbol} {map : SortedMap String Json}
    (written : propertiesToMap properties = .ok map) :
    ∃ tokenSymbol, Str.fromUtf8 properties.tokenMetadata.tokenSymbol.1 = some tokenSymbol ∧
      map = SortedMap.ofList [("ss58Format", .number properties.tokenMetadata.ss58Format.toNat),
        ("tokenDecimals", .number properties.tokenMetadata.tokenDecimals.toNat),
        ("tokenSymbol", .string tokenSymbol), ("isEthereum", .bool properties.isEthereum)] := by
  simp only [propertiesToMap, bindEqOk, okOrEqOk, pureEqOk] at written
  obtain ⟨tokenSymbol, valid, rfl⟩ := written
  exact ⟨tokenSymbol, valid, rfl⟩

theorem u32TryFromToNat (x : UInt32) : u32TryFrom x.toNat = some x := by
  rw [u32TryFrom, if_pos x.toNat_lt]
  simp

theorem propertiesFromChainspecJsonOfMap {properties : Properties maxLengthTokenSymbol}
    {map : SortedMap String Json} (written : propertiesToMap properties = .ok map) :
    propertiesFromChainspecJson maxLengthTokenSymbol (.object map.entries) = properties := by
  obtain ⟨tokenSymbol, valid, rfl⟩ := propertiesToMapOk written
  obtain ⟨⟨symbol, ss58Format, tokenDecimals⟩, isEthereum⟩ := properties
  set fields : List (String × Json) := [("ss58Format", .number ss58Format.toNat),
    ("tokenDecimals", .number tokenDecimals.toNat), ("tokenSymbol", .string tokenSymbol),
    ("isEthereum", .bool isEthereum)]
  -- the four keys differ, so each is read where it was written
  have field : ∀ k v, (k, v) ∈ fields → (Json.object (SortedMap.ofList fields).entries).get k = some v := by
    intro k v mem
    rw [Json.getObject, SortedMap.lookupEntries]
    exact SortedMap.getOfList (by simp [fields]) mem
  have ss58 := field "ss58Format" (.number ss58Format.toNat) (by simp [fields])
  have decimals := field "tokenDecimals" (.number tokenDecimals.toNat) (by simp [fields])
  have symbolField := field "tokenSymbol" (.string tokenSymbol) (by simp [fields])
  have ethereum := field "isEthereum" (.bool isEthereum) (by simp [fields])
  have small : ∀ x : UInt32, x.toNat < 2 ^ 64 := fun x => by have := x.toNat_lt; omega
  have bounded : boundedTryFrom maxLengthTokenSymbol (Str.bytes tokenSymbol) = some symbol := by
    rw [Str.bytesOfFromUtf8 valid, boundedTryFrom, dif_pos symbol.2]
  simp only [propertiesFromChainspecJson, ss58, decimals, symbolField, ethereum, Option.bind_some,
    Json.asU64Number (small _), u32TryFromToNat, Json.asStrString, bounded, Json.asBoolBool]

/- The whole spec. -/

variable {parseBootNode : String → Except String String} {paraId : UInt32}
  {genesisData : ContainerChainGenesisData maxLengthTokenSymbol} {chainType : ChainType}
  {relayChain : String} {bootNodes : List String} {spec : RawChainSpec}

theorem chainSpecFromGenesisDataOk
    (written : chainSpecFromGenesisData parseBootNode paraId genesisData chainType relayChain bootNodes = .ok spec) :
    ∃ name id parsed forkId properties,
      Str.fromUtf8 genesisData.name = some name ∧ Str.fromUtf8 genesisData.id = some id ∧
      bootNodes.mapM parseBootNode = .ok parsed ∧
      genesisData.forkId.mapM (fun forkId => okOr (Str.fromUtf8 forkId) "Invalid fork_id") = .ok forkId ∧
      propertiesToMap genesisData.properties = .ok properties ∧
      spec = ⟨name, id, chainType, parsed, some ("container-chain-" ++ toString paraId), forkId, some properties,
        ⟨relayChain, paraId⟩, SortedMap.ofList (genesisData.storage.map fun x => (x.key, x.value))⟩ := by
  simp only [chainSpecFromGenesisData, bindEqOk, okOrEqOk, mapErrorEqOk, pureEqOk] at written
  obtain ⟨name, validName, id, validId, parsed, parsedOk, forkId, forkOk, properties, propertiesOk, rfl⟩ := written
  exact ⟨name, id, parsed, forkId, properties, validName, validId, parsedOk, forkOk, propertiesOk, rfl⟩

theorem genesisDataRoundTrip {toJson : RawChainSpec → Json} (layout : RawSpecLayout toJson)
    (written : chainSpecFromGenesisData parseBootNode paraId genesisData chainType relayChain bootNodes = .ok spec)
    (sorted : genesisData.storage.Pairwise fun a b => a.key < b.key) (noExtensions : genesisData.extensions = []) :
    containerChainGenesisDataFromJson maxLengthTokenSymbol (toJson spec) =
      .ok (paraId, { genesisData with forkId := none }, spec.bootNodes.map Str.bytes) := by
  obtain ⟨name, id, parsed, forkId, properties, validName, validId, -, -, propertiesOk, rfl⟩ :=
    chainSpecFromGenesisDataOk written
  have paraIdSmall : paraId.toNat < 2 ^ 64 := by have := paraId.toNat_lt; omega
  have nameBytes := Str.bytesOfFromUtf8 validName
  have idBytes := Str.bytesOfFromUtf8 validId
  have storage := storageFromChainspecJsonOfList sorted
  have read := propertiesFromChainspecJsonOfMap propertiesOk
  have bootNodesRead : parsed.mapM ((fun x => Str.bytes <$> unwrap x.asStr) ∘ Json.string) =
      .ok (parsed.map Str.bytes) :=
    mapMEqOk fun x _ => rfl
  have noForkId : Json.null.asStr = none := rfl
  simp [containerChainGenesisDataFromJson, layout.paraId, layout.name, layout.id, layout.forkId, layout.storage,
    layout.properties, layout.bootNodes, Json.asU64Number paraIdSmall, u32TryFromToNat, noForkId, nameBytes, idBytes,
    noExtensions, storage, read, bootNodesRead]

/- A genesis with a fork id, written for para 2000 and read back. -/

theorem genesisDataRoundTripDropsForkId {toJson : RawChainSpec → Json} (layout : RawSpecLayout toJson) :
    let genesisData : ContainerChainGenesisData 8 := ⟨[⟨[1], [2]⟩], Str.bytes "container", Str.bytes "container",
      some (Str.bytes "fork"), [], ⟨⟨⟨Str.bytes "UNIT", by decide⟩, 42, 12⟩, false⟩⟩
    ∃ spec, chainSpecFromGenesisData .ok 2000 genesisData .live "rococo" [] = .ok spec ∧
      spec.forkId = some "fork" ∧
      containerChainGenesisDataFromJson 8 (toJson spec) = .ok (2000, { genesisData with forkId := none }, []) ∧
      { genesisData with forkId := none } ≠ genesisData := by
  intro genesisData
  obtain ⟨spec, written, forkId, noBootNodes⟩ : ∃ spec,
      chainSpecFromGenesisData .ok 2000 genesisData .live "rococo" [] = .ok spec ∧
        spec.forkId = some "fork" ∧ spec.bootNodes = [] := by
    simp [genesisData, chainSpecFromGenesisData, propertiesToMap, Except.mapError, Functor.map, Except.map]
  have read := genesisDataRoundTrip layout written (List.pairwise_singleton _ _) rfl
  rw [noBootNodes, List.map_nil] at read
  exact ⟨spec, written, forkId, read, by simp [genesisData]⟩

theorem genesisDataRoundTripDropsForkIdWritten :
    RawSpecLayout RawChainSpec.toJson ∧
      let genesisData : ContainerChainGenesisData 8 := ⟨[⟨[1], [2]⟩], Str.bytes "container", Str.bytes "container",
        some (Str.bytes "fork"), [], ⟨⟨⟨Str.bytes "UNIT", by decide⟩, 42, 12⟩, false⟩⟩
      ∃ spec, chainSpecFromGenesisData .ok 2000 genesisData .live "rococo" [] = .ok spec ∧
        spec.forkId = some "fork" ∧
        containerChainGenesisDataFromJson 8 spec.toJson = .ok (2000, { genesisData with forkId := none }, []) ∧
        { genesisData with forkId := none } ≠ genesisData :=
  ⟨rawChainSpecLayout, genesisDataRoundTripDropsForkId rawChainSpecLayout⟩

end Tanssi.GenesisData

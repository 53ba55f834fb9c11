import Tanssi.SortedMap

/-! The SCALE codec of `parity-scale-codec`, as far as the runtimes read and write it:
little-endian fixed-width integers, `Compact<u32>`, byte vectors, vectors, pairs and
`BTreeMap`s. A decoder reads a value off the front of its input and returns what is left:
`Decode::decode` on a slice reads a prefix and leaves the rest unread. Each encoding reads
back under `RoundTrip`, for the values the Rust type can hold (`Fits`), with anything after
it left in place; the combinators build the round trip of a compound type from those of
its parts. -/

namespace Scale

abbrev Decoder (α : Type) := List UInt8 → Option (α × List UInt8)

variable {α β κ : Type}

/-- `decode` reads back what `encode` wrote of every value `Fits` admits, and leaves what follows. -/
def RoundTrip (encode : α → List UInt8) (decode : Decoder α) (Fits : α → Prop) : Prop :=
  ∀ a, Fits a → ∀ rest, decode (encode a ++ rest) = some (a, rest)

/-! ### Fixed width -/

/-- `n` bytes of `v`, least significant first. -/
def leBytes : Nat → Nat → List UInt8
  | 0, _ => []
  | n + 1, v => (v % 256).toUInt8 :: leBytes n (v / 256)

def leNat : List UInt8 → Nat
  | [] => 0
  | b :: bs => b.toNat + 256 * leNat bs

/-- `n` bytes off the input (`Input::read`), which fails when fewer are left. -/
def takeBytes (n : Nat) : Decoder (List UInt8) := fun input =>
  if n ≤ input.length then some (input.take n, input.drop n) else none

/-- An unsigned integer of `n` bytes: `u16`, `u32`, `u64`. -/
def decodeFixed (n : Nat) : Decoder Nat := fun input =>
  (takeBytes n input).map fun r => (leNat r.1, r.2)

def encodeU32 (v : Nat) : List UInt8 := leBytes 4 v

def decodeU32 : Decoder Nat := decodeFixed 4

def encodeU64 (v : Nat) : List UInt8 := leBytes 8 v

def decodeU64 : Decoder Nat := decodeFixed 8

@[simp] theorem leBytesLength (n v : Nat) : (leBytes n v).length = n := by
  induction n generalizing v with
  | zero => rfl
  | succ n ih => simp [leBytes, ih]

theorem leNatLeBytes (n v : Nat) : leNat (leBytes n v) = v % 256 ^ n := by
  induction n generalizing v with
  | zero => simp [leBytes, leNat, Nat.mod_one]
  | succ n ih =>
    rw [leBytes, leNat, ih, pow_succ', Nat.mod_mul]
    simp

theorem takeBytesAppend (bytes rest : List UInt8) : takeBytes bytes.length (bytes ++ rest) = some (bytes, rest) := by
  simp [takeBytes]

theorem roundTripTake (n : Nat) : RoundTrip (fun bytes => bytes) (takeBytes n) (·.length = n) := by
  intro bytes fits rest
  rw [← fits]
  exact takeBytesAppend bytes rest

theorem decodeFixedLeBytes (n v : Nat) (rest : List UInt8) :
    decodeFixed n (leBytes n v ++ rest) = some (v % 256 ^ n, rest) := by
  have taken := takeBytesAppend (leBytes n v) rest
  rw [leBytesLength] at taken
  simp [decodeFixed, taken, leNatLeBytes]

theorem roundTripFixed (n : Nat) : RoundTrip (leBytes n) (decodeFixed n) (· < 256 ^ n) := by
  intro v fits rest
  rw [decodeFixedLeBytes, Nat.mod_eq_of_lt fits]

theorem roundTripU32 : RoundTrip encodeU32 decodeU32 (· < 2 ^ 32) := roundTripFixed 4

theorem roundTripU64 : RoundTrip encodeU64 decodeU64 (· < 2 ^ 64) := roundTripFixed 8

/-! ### `Compact<u32>`

The two low bits of the first byte give the mode: one byte for values below `2 ^ 6`, two
below `2 ^ 14`, four below `2 ^ 30`, and otherwise the prefix `0b11` followed by the four
bytes of the `u32`. Decoding refuses a value written in a longer mode than it needs. -/

def encodeCompact (v : Nat) : List UInt8 :=
  if v < 2 ^ 6 then leBytes 1 (v * 4)
  else if v < 2 ^ 14 then leBytes 2 (v * 4 + 1)
  else if v < 2 ^ 30 then leBytes 4 (v * 4 + 2)
  else 3 :: leBytes 4 v

def decodeCompact : Decoder Nat
  | [] => none
  | pre :: rest =>
    match pre.toNat % 4 with
    | 0 => some (pre.toNat / 4, rest)
    | 1 => do
      -- the prefix is the low byte of the `u16`
      let (x, r) ← decodeFixed 2 (pre :: rest)
      if 2 ^ 6 ≤ x / 4 ∧ x / 4 < 2 ^ 14 then some (x / 4, r) else none
    | 2 => do
      let (x, r) ← decodeFixed 4 (pre :: rest)
      if 2 ^ 14 ≤ x / 4 ∧ x / 4 < 2 ^ 30 then some (x / 4, r) else none
    | _ =>
      -- a `u32` needs no more than four bytes after the prefix
      if pre.toNat / 4 = 0 then do
        let (x, r) ← decodeFixed 4 rest
        if 2 ^ 30 ≤ x then some (x, r) else none
      else none

theorem decodeCompactMode {n x : Nat} (rest : List UInt8) :
    decodeCompact (leBytes (n + 1) x ++ rest) =
      match (x % 256).toUInt8.toNat % 4 with
      | 0 => some ((x % 256).toUInt8.toNat / 4, leBytes n (x / 256) ++ rest)
      | 1 => (decodeFixed 2 (leBytes (n + 1) x ++ rest)).bind fun r =>
          if 2 ^ 6 ≤ r.1 / 4 ∧ r.1 / 4 < 2 ^ 14 then some (r.1 / 4, r.2) else none
      | 2 => (decodeFixed 4 (leBytes (n + 1) x ++ rest)).bind fun r =>
          if 2 ^ 14 ≤ r.1 / 4 ∧ r.1 / 4 < 2 ^ 30 then some (r.1 / 4, r.2) else none
      | _ =>
        if (x % 256).toUInt8.toNat / 4 = 0 then
          (decodeFixed 4 (leBytes n (x / 256) ++ rest)).bind fun r => if 2 ^ 30 ≤ r.1 then some (r.1, r.2) else none
        else none := by
  rfl

theorem roundTripCompact : RoundTrip encodeCompact decodeCompact (· < 2 ^ 32) := by
  intro v fits rest
  have low : ∀ x, (x % 256).toUInt8.toNat = x % 256 := by simp
  unfold encodeCompact
  split
  · rename_i single
    rw [decodeCompactMode, low]
    have mode : v * 4 % 256 % 4 = 0 := by omega
    simp only [mode]
    simp only [leBytes, List.nil_append, Option.some.injEq, Prod.mk.injEq, and_true]
    omega
  split
  · rename_i _ double
    rw [decodeCompactMode, low]
    have mode : (v * 4 + 1) % 256 % 4 = 1 := by omega
    simp only [mode, decodeFixedLeBytes, Option.bind_some]
    have read : (v * 4 + 1) % 256 ^ 2 / 4 = v := by omega
    rw [read, if_pos (by omega)]
  split
  · rename_i _ _ quad
    rw [decodeCompactMode, low]
    have mode : (v * 4 + 2) % 256 % 4 = 2 := by omega
    simp only [mode, decodeFixedLeBytes, Option.bind_some]
    have read : (v * 4 + 2) % 256 ^ 4 / 4 = v := by omega
    rw [read, if_pos (by omega)]
  · rename_i _ _ big
    have prefixByte : (3 : UInt8).toNat = 3 := rfl
    simp only [List.cons_append, decodeCompact, prefixByte, Nat.reduceMod, Nat.reduceDiv, if_true,
      decodeFixedLeBytes, Nat.mod_eq_of_lt (show v < 256 ^ 4 by omega)]
    show (if 2 ^ 30 ≤ v then some (v, rest) else none) = _
    rw [if_pos (by omega)]

example : encodeCompact 64 = [1, 1] := by decide

/-! ### Vectors, pairs and maps -/

/-- `n` values, one after another. -/
def decodeMany (decode : Decoder α) : Nat → Decoder (List α)
  | 0, input => some ([], input)
  | n + 1, input => do
    let (a, r) ← decode input
    let (as, r') ← decodeMany decode n r
    pure (a :: as, r')

/-- `Vec<T>`: the length as a `Compact<u32>`, then the elements. -/
def encodeVec (encode : α → List UInt8) (xs : List α) : List UInt8 :=
  encodeCompact xs.length ++ xs.flatMap encode

def decodeVec (decode : Decoder α) : Decoder (List α) := fun input => do
  let (n, r) ← decodeCompact input
  decodeMany decode n r

/-- `Vec<u8>`, read as the bytes of the length given. -/
def encodeBytes (bytes : List UInt8) : List UInt8 := encodeCompact bytes.length ++ bytes

def decodeBytes : Decoder (List UInt8) := fun input => do
  let (n, r) ← decodeCompact input
  takeBytes n r

def encodePair (encodeA : α → List UInt8) (encodeB : β → List UInt8) (p : α × β) : List UInt8 :=
  encodeA p.1 ++ encodeB p.2

def decodePair (decodeA : Decoder α) (decodeB : Decoder β) : Decoder (α × β) := fun input => do
  let (a, r) ← decodeA input
  let (b, r') ← decodeB r
  pure ((a, b), r')

def VecFits (Fits : α → Prop) (xs : List α) : Prop := xs.length < 2 ^ 32 ∧ ∀ x ∈ xs, Fits x

instance {Fits : α → Prop} [DecidablePred Fits] : DecidablePred (VecFits Fits) := fun xs =>
  inferInstanceAs (Decidable (xs.length < 2 ^ 32 ∧ ∀ x ∈ xs, Fits x))

section RoundTrips
variable {encode : α → List UInt8} {decode : Decoder α} {Fits : α → Prop}

theorem RoundTrip.many (trip : RoundTrip encode decode Fits) :
    ∀ (xs : List α), (∀ x ∈ xs, Fits x) → ∀ rest, decodeMany decode xs.length (xs.flatMap encode ++ rest) = some (xs, rest)
  | [], _, rest => rfl
  | x :: xs, fits, rest => by
    have head := trip x (fits x List.mem_cons_self) (xs.flatMap encode ++ rest)
    have tail := RoundTrip.many trip xs (fun y mem => fits y (List.mem_cons_of_mem x mem)) rest
    simp [decodeMany, head, tail]

theorem RoundTrip.vec (trip : RoundTrip encode decode Fits) : RoundTrip (encodeVec encode) (decodeVec decode) (VecFits Fits) := by
  intro xs fits rest
  have length := roundTripCompact xs.length fits.1 (xs.flatMap encode ++ rest)
  simp only [encodeVec, decodeVec, List.append_assoc, length]
  exact trip.many xs fits.2 rest

theorem roundTripBytes : RoundTrip encodeBytes decodeBytes (·.length < 2 ^ 32) := by
  intro bytes fits rest
  have length := roundTripCompact bytes.length fits (bytes ++ rest)
  simp only [encodeBytes, decodeBytes, List.append_assoc, length]
  exact takeBytesAppend bytes rest

theorem RoundTrip.pair {encodeB : β → List UInt8} {decodeB : Decoder β} {FitsB : β → Prop}
    (first : RoundTrip encode decode Fits) (second : RoundTrip encodeB decodeB FitsB) :
    RoundTrip (encodePair encode encodeB) (decodePair decode decodeB) (fun p => Fits p.1 ∧ FitsB p.2) := by
  intro p fits rest
  simp [encodePair, decodePair, first p.1 fits.1, second p.2 fits.2 rest]

end RoundTrips

section Maps
variable [LinearOrder κ] {ν : Type}

/-- `BTreeMap<K, V>`: the entries in key order, as a vector of pairs. -/
def encodeMap (encodeK : κ → List UInt8) (encodeV : ν → List UInt8) (m : SortedMap κ ν) : List UInt8 :=
  encodeVec (encodePair encodeK encodeV) m.entries

def decodeMap (decodeK : Decoder κ) (decodeV : Decoder ν) : Decoder (SortedMap κ ν) := fun input =>
  (decodeVec (decodePair decodeK decodeV) input).map fun r => (SortedMap.ofList r.1, r.2)

def MapFits (FitsK : κ → Prop) (FitsV : ν → Prop) (m : SortedMap κ ν) : Prop :=
  VecFits (fun e => FitsK e.1 ∧ FitsV e.2) m.entries

instance {FitsK : κ → Prop} {FitsV : ν → Prop} [DecidablePred FitsK] [DecidablePred FitsV] :
    DecidablePred (MapFits FitsK FitsV) := fun m =>
  inferInstanceAs (Decidable (VecFits (fun e => FitsK e.1 ∧ FitsV e.2) m.entries))

theorem RoundTrip.map {encodeK : κ → List UInt8} {decodeK : Decoder κ} {FitsK : κ → Prop}
    {encodeV : ν → List UInt8} {decodeV : Decoder ν} {FitsV : ν → Prop}
    (keys : RoundTrip encodeK decodeK FitsK) (values : RoundTrip encodeV decodeV FitsV) :
    RoundTrip (encodeMap encodeK encodeV) (decodeMap decodeK decodeV) (MapFits FitsK FitsV) := by
  intro m fits rest
  have entries := (keys.pair values).vec m.entries fits rest
  -- the entries come back in key order, so collecting them rebuilds the map
  have rebuilt : SortedMap.ofList m.entries = m := SortedMap.ext' (SortedMap.ofListSorted m.sorted)
  simp only [encodeMap, decodeMap, entries, Option.map_some, rebuilt]

end Maps

end Scale

import Tanssi.Json

/-! The `hex` crate's `decode`, and the lowercase encoding that `sp_core::bytes` writes
after its `0x`. Decoding takes the bytes of its input two at a time, digits of either
case, and stops at the first bad one; what the encoding writes decodes back to the bytes
it came from. Bytes are ordered by value, as `u8` is, so byte strings are ordered as
`Vec<u8>` is. -/

instance Hex.uInt8LinearOrder : LinearOrder UInt8 where
  le a b := a ≤ b
  lt a b := a < b
  le_refl := UInt8.le_refl
  le_trans _ _ _ := UInt8.le_trans
  le_antisymm _ _ := UInt8.le_antisymm
  le_total := UInt8.le_total
  lt_iff_le_not_ge a b := by simp only [UInt8.le_iff_toNat_le, UInt8.lt_iff_toNat_lt]; omega
  toDecidableLE := inferInstance
  toDecidableLT := inferInstance
  toDecidableEq := inferInstance

namespace Hex

inductive FromHexError where
  | invalidHexCharacter (c : Char) (index : Nat)
  | oddLength
  deriving DecidableEq, Repr

/-- Its `Display`. The character is written as `Debug` writes it, between single quotes;
the escapes `Debug` uses for control characters are left out. -/
def FromHexError.toString : FromHexError → String
  | .invalidHexCharacter c index =>
    "Invalid character " ++ String.ofList [Char.ofNat 39, c, Char.ofNat 39] ++ " at position " ++ Nat.repr index
  | .oddLength => "Odd number of digits"

def val (c : UInt8) (idx : Nat) : Except FromHexError UInt8 :=
  if 65 ≤ c ∧ c ≤ 70 then .ok (c - 65 + 10)
  else if 97 ≤ c ∧ c ≤ 102 then .ok (c - 97 + 10)
  else if 48 ≤ c ∧ c ≤ 57 then .ok (c - 48)
  else .error (.invalidHexCharacter (Char.ofNat c.toNat) idx)

/-- `hex.chunks(2).enumerate().map(..).collect()` from the `i`-th pair on. -/
def decodePairs : Nat → List UInt8 → Except FromHexError (List UInt8)
  | i, high :: low :: rest => do
    let h ← val high (2 * i)
    let l ← val low (2 * i + 1)
    let bytes ← decodePairs (i + 1) rest
    pure ((h <<< 4 ||| l) :: bytes)
  | _, _ => pure []

def decode (hex : List UInt8) : Except FromHexError (List UInt8) :=
  if hex.length % 2 ≠ 0 then throw .oddLength else decodePairs 0 hex

def digit (n : Nat) : Char := if n < 10 then Char.ofNat (48 + n) else Char.ofNat (87 + n)

def digits (bytes : List UInt8) : List Char :=
  bytes.flatMap fun b => [digit (b.toNat / 16), digit (b.toNat % 16)]

def encode (bytes : List UInt8) : String := String.ofList (digits bytes)

/- Reading back what `encode` wrote. -/

theorem digitAscii : ∀ n : Fin 16, (digit n).toNat < 128 := by decide

theorem valDigit (n : Fin 16) (idx : Nat) : val (digit n).toNat.toUInt8 idx = .ok (n : Nat).toUInt8 := by
  fin_cases n <;> rfl

theorem combineHalves (b : UInt8) : ((b.toNat / 16).toUInt8 <<< 4 ||| (b.toNat % 16).toUInt8) = b := by
  have pairs : ∀ h l : Fin 16, ((h : Nat).toUInt8 <<< 4 ||| (l : Nat).toUInt8) = (16 * h + l : Nat).toUInt8 := by
    decide
  have high : b.toNat / 16 < 16 := by have := b.toNat_lt; omega
  have low : b.toNat % 16 < 16 := Nat.mod_lt _ (by decide)
  rw [pairs ⟨_, high⟩ ⟨_, low⟩, Nat.div_add_mod]
  simp

theorem bytesEncode (bytes : List UInt8) :
    Str.bytes (encode bytes) = bytes.flatMap fun b =>
      [(digit (b.toNat / 16)).toNat.toUInt8, (digit (b.toNat % 16)).toNat.toUInt8] := by
  have halves : ∀ b : UInt8, b.toNat / 16 < 16 ∧ b.toNat % 16 < 16 := fun b =>
    ⟨by have := b.toNat_lt; omega, Nat.mod_lt _ (by decide)⟩
  have ascii : ∀ c ∈ digits bytes, c.toNat < 128 := by
    simp only [digits, List.mem_flatMap, List.mem_cons, List.not_mem_nil, or_false]
    rintro c ⟨b, -, rfl | rfl⟩
    · exact digitAscii ⟨_, (halves b).1⟩
    · exact digitAscii ⟨_, (halves b).2⟩
  rw [encode, Str.bytesAscii ascii, digits, List.map_flatMap]
  rfl

theorem decodePairsDigits (i : Nat) (bytes : List UInt8) :
    decodePairs i (bytes.flatMap fun b =>
      [(digit (b.toNat / 16)).toNat.toUInt8, (digit (b.toNat % 16)).toNat.toUInt8]) = .ok bytes := by
  induction bytes generalizing i with
  | nil => rfl
  | cons b rest ih =>
    have high := valDigit ⟨b.toNat / 16, by have := b.toNat_lt; omega⟩ (2 * i)
    have low := valDigit ⟨b.toNat % 16, Nat.mod_lt _ (by decide)⟩ (2 * i + 1)
    simp only [List.flatMap_cons, List.cons_append, List.nil_append, decodePairs] at high low ⊢
    rw [high, low, ih (i + 1)]
    show Except.ok (((b.toNat / 16).toUInt8 <<< 4 ||| (b.toNat % 16).toUInt8) :: rest) = _
    rw [combineHalves]

theorem decodeEncode (bytes : List UInt8) : decode (Str.bytes (encode bytes)) = .ok bytes := by
  have even : (Str.bytes (encode bytes)).length % 2 = 0 := by
    rw [bytesEncode, List.length_flatMap]
    simp
  rw [decode, if_neg (by omega), bytesEncode]
  exact decodePairsDigits 0 bytes

end Hex

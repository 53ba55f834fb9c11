import Mathlib

/-! A JSON value as `serde_json::Value` holds it, with the views a hand-written reader
takes of it: `value[key]`, `Value::get` and the `as_*` conversions. Numbers are the
unsigned integers that a writer of `u32` and `u64` values produces. An object is the list
of its fields in the order its map iterates them, with distinct keys. Beside it, the
`str` operations such a reader uses: `strip_prefix`, the UTF-8 bytes of a string, and
`String::from_utf8`. -/

inductive Json where
  | null
  | bool (b : Bool)
  | number (n : Nat)
  | string (s : String)
  | array (items : List Json)
  | object (fields : List (String × Json))
  deriving Repr, Inhabited

namespace Json

def get : Json → String → Option Json
  | object fields, key => fields.lookup key
  | _, _ => none

/-- `value[key]`, `Null` where `get` finds nothing. -/
def index (v : Json) (key : String) : Json := (v.get key).getD null

def asStr : Json → Option String
  | string s => some s
  | _ => none

def asU64 : Json → Option Nat
  | number n => if n < 2 ^ 64 then some n else none
  | _ => none

def asBool : Json → Option Bool
  | bool b => some b
  | _ => none

def asArray : Json → Option (List Json)
  | array items => some items
  | _ => none

def asObject : Json → Option (List (String × Json))
  | object fields => some fields
  | _ => none

@[simp] theorem getObject (fields : List (String × Json)) (key : String) :
    (object fields).get key = fields.lookup key := rfl

@[simp] theorem indexObject (fields : List (String × Json)) (key : String) :
    (object fields).index key = (fields.lookup key).getD null := rfl

@[simp] theorem asStrString (s : String) : (string s).asStr = some s := rfl

@[simp] theorem asBoolBool (b : Bool) : (bool b).asBool = some b := rfl

@[simp] theorem asArrayArray (items : List Json) : (array items).asArray = some items := rfl

@[simp] theorem asObjectObject (fields : List (String × Json)) : (object fields).asObject = some fields := rfl

@[simp] theorem asU64Number {n : Nat} (small : n < 2 ^ 64) : (number n).asU64 = some n := by
  simp only [asU64]
  rw [if_pos small]

end Json

namespace Str

/-- `str::strip_prefix`. -/
def stripPrefix (s pre : String) : Option String :=
  if pre.toList.isPrefixOf s.toList then some (String.ofList (s.toList.drop pre.toList.length)) else none

/-- `as_bytes`, and `String`'s conversion into `Vec<u8>`. -/
def bytes (s : String) : List UInt8 := s.toByteArray.data.toList

/-- `String::from_utf8`, with its error left out. -/
def fromUtf8 (bytes : List UInt8) : Option String := String.fromUTF8? bytes.toByteArray

@[simp] theorem stripPrefixAppend (pre t : String) : stripPrefix (pre ++ t) pre = some t := by
  simp [stripPrefix, List.isPrefixOf_iff_prefix]

@[simp] theorem fromUtf8Bytes (s : String) : fromUtf8 (bytes s) = some s := by
  have valid : (bytes s).toByteArray = s.toByteArray := by
    apply ByteArray.ext
    simp [bytes]
  simp only [fromUtf8, valid, String.fromUTF8?, s.isValidUTF8, dite_true, Option.some.injEq]
  rfl

theorem bytesOfFromUtf8 {raw : List UInt8} {s : String} (h : fromUtf8 raw = some s) : bytes s = raw := by
  simp only [fromUtf8, String.fromUTF8?] at h
  split at h
  · cases h
    simp [bytes, String.fromUTF8]
  · cases h

theorem bytesAscii {cs : List Char} (ascii : ∀ c ∈ cs, c.toNat < 128) :
    bytes (String.ofList cs) = cs.map (fun c => c.toNat.toUInt8) := by
  have encoded : ∀ c ∈ cs, String.utf8EncodeChar c = [c.toNat.toUInt8] := by
    intro c mem
    have small := ascii c mem
    simp only [String.utf8EncodeChar, Char.toNat] at small ⊢
    rw [if_pos (by omega)]
  simp only [bytes, String.toByteArray_ofList, List.utf8Encode, List.data_toByteArray, List.toList_toArray]
  rw [List.flatMap_congr encoded, ← List.map_eq_flatMap]

end Str

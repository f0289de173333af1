/-!
# JSON documents

The values of the JSON data format, as far as stored tokens and configurations need them.
-/

namespace Lexing

/-- A JSON value. A number is `mantissa / 10 ^ exponent`; it is an integer if it was written
without a fraction, that is if the exponent is zero. -/
inductive Json where
  | null
  | bool (b : Bool)
  | number (mantissa : Int) (exponent : Nat)
  | string (s : String)
  | array (items : List Json)
  | object (fields : List (String × Json))
  deriving Inhabited

namespace Json

/-- The values that an object has under a key. -/
def valuesOf (key : String) (fields : List (String × Json)) : List Json :=
  (fields.filter (·.1 == key)).map (·.2)

/-- The fields of a structure with the given field names. An object has them by name; an array has
them by place, in order, at least the first `least` of them and no item besides. -/
def fieldsOf (names : List String) (least : Nat) : Json → Option (List (String × Json))
  | object fields => some fields
  | array items =>
    if least ≤ items.length ∧ items.length ≤ names.length then some (names.zip items) else none
  | _ => none

/-- Reads the field `key` of a structure, which must not be given twice. A field that is not given
reads as `missing`. -/
def readField {α : Type} (fields : List (String × Json)) (key : String) (missing : Option α)
    (read : Json → Option α) : Option α :=
  match valuesOf key fields with
  | [] => missing
  | [json] => read json
  | _ => none

def readString : Json → Option String
  | string s => some s
  | _ => none

/-- Reads a value that may be null. -/
def readNullable {α : Type} (read : Json → Option α) : Json → Option (Option α)
  | null => some none
  | json => (read json).map some

/-- Reads an integer that fits into 32 bits without a sign. -/
def readUInt32 : Json → Option UInt32
  | number (.ofNat n) 0 => if n < UInt32.size then some (.ofNat n) else none
  | _ => none

/-- Reads a text of one character. -/
def readChar : Json → Option Char
  | string s =>
    match s.toList with
    | [c] => some c
    | _ => none
  | _ => none

/-- Reads a list of which every item can be read. -/
def readArray {α : Type} (read : Json → Option α) : Json → Option (List α)
  | array items => items.mapM read
  | _ => none

/-- Writes a value that may be missing. -/
def ofOption {α : Type} (write : α → Json) : Option α → Json
  | some a => write a
  | none => null

def ofUInt32 (n : UInt32) : Json :=
  number n.toNat 0

/-- The name of a constructor without arguments, written as a text or as the key of an object with
the value null. -/
def readName : Json → Option String
  | string s => some s
  | object [(key, null)] => some key
  | _ => none

end Json

end Lexing

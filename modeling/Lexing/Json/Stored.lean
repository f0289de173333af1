import Lexing.Config
import Lexing.Json
import Lexing.Token

/-!
# Stored forms

How tokens and configurations are stored as JSON. A structure is stored as an object with all its
fields, in the order of their declaration; a choice as its name, or as an object with the name as
its only key if there is something to say.

Reading accepts more than writing produces: other keys are passed over, optional fields may be
left out, and so may all fields of a configuration; a name may stand as a key with null. A
structure may also be an array of its fields, in the same order. There nothing can be passed over,
and only a configuration may break off early.
-/

namespace Lexing

/-! ## Modes and configurations -/

namespace Mode

def toJson (m : Mode) : Json :=
  .string m.name

def ofJson? (json : Json) : Option Mode :=
  json.readName.bind ofName?

end Mode

namespace SpecialChars

def toJson : SpecialChars → Json
  | .none => .string "none"
  | .explicit chars => .object [("explicit", .array (chars.map fun c => .string c.toString))]
  | .fromLexicon => .string "from-lexicon"

def ofJson? (json : Json) : Option SpecialChars :=
  match json with
  | .object [("explicit", payload)] => (payload.readArray Json.readChar).map .explicit
  | _ =>
    match json.readName with
    | some "none" => some .none
    | some "from-lexicon" => some .fromLexicon
    | _ => Option.none

end SpecialChars

namespace Config

def toJson (c : Config) : Json :=
  .object
    [("mode", c.mode.toJson), ("special_chars", c.specialChars.toJson),
      ("file", .ofOption .string c.file?)]

def ofJson? (json : Json) : Option Config := do
  let fields ← json.fieldsOf ["mode", "special_chars", "file"] 0
  let mode ← Json.readField fields "mode" (some .character) Mode.ofJson?
  let specialChars ← Json.readField fields "special_chars" (some .none) SpecialChars.ofJson?
  let file? ← Json.readField fields "file" (some none) (Json.readNullable Json.readString)
  return { mode, specialChars, file? }

end Config

/-! ## Positions -/

namespace Position

def toJson (p : Position) : Json :=
  .object
    [("file", .ofOption .string p.file), ("line", .ofUInt32 p.line), ("column", .ofUInt32 p.column)]

def ofJson? (json : Json) : Option Position := do
  let fields ← json.fieldsOf ["file", "line", "column"] 3
  let file ← Json.readField fields "file" (some none) (Json.readNullable Json.readString)
  let line ← Json.readField fields "line" none Json.readUInt32
  let column ← Json.readField fields "column" none Json.readUInt32
  return { file, line, column }

end Position

/-! ## Values and tokens -/

/-- The stored form of a token whose value is stored as `value`. -/
def Token.jsonOfParts (kind : Tag) (value : Json) (position : Option Position) : Json :=
  .object [("kind", .string kind), ("value", value), ("meta", .ofOption Position.toJson position)]

namespace Value

mutual

def toJson : Value → Json
  | absent => .string "None"
  | text content => .object [("Text", .string content)]
  | token kind value position =>
    .object [("Token", Token.jsonOfParts kind (toJson value) position)]
  | list items => .object [("List", .array (toJsonAll items))]

def toJsonAll : List Value → List Json
  | [] => []
  | v :: vs => toJson v :: toJsonAll vs

end

mutual

def ofJson? : Json → Option Value
  | .string "None" => some absent
  | .object [("None", .null)] => some absent
  | .object [("Text", .string content)] => some (text content)
  | .object [("Token", .object fields)] =>
    match ofJsonFields? fields with
    | some [value] => do
      let kind ← Json.readField fields "kind" none Json.readString
      let position ← Json.readField fields "meta" (some none) (Json.readNullable Position.ofJson?)
      return token kind value position
    | _ => none
  | .object [("Token", .array [kind, value, position])] => do
    let kind ← Json.readString kind
    let value ← ofJson? value
    let position ← Json.readNullable Position.ofJson? position
    return token kind value position
  | .object [("List", .array items)] => (ofJsonAll? items).map list
  | _ => none

/-- The values stored under the key `value`, of which there should be one. -/
def ofJsonFields? : List (String × Json) → Option (List Value)
  | [] => some []
  | (key, json) :: fields =>
    if key = "value" then do
      let value ← ofJson? json
      let values ← ofJsonFields? fields
      return value :: values
    else
      ofJsonFields? fields

def ofJsonAll? : List Json → Option (List Value)
  | [] => some []
  | json :: rest => do
    let value ← ofJson? json
    let values ← ofJsonAll? rest
    return value :: values

end

end Value

namespace Token

def toJson (t : Token) : Json :=
  jsonOfParts t.kind t.value.toJson t.position

def ofJson? (json : Json) : Option Token := do
  let fields ← json.fieldsOf ["kind", "value", "meta"] 3
  let kind ← Json.readField fields "kind" none Json.readString
  let value ← Json.readField fields "value" none Value.ofJson?
  let position ← Json.readField fields "meta" (some none) (Json.readNullable Position.ofJson?)
  return { kind, value, position }

end Token

end Lexing

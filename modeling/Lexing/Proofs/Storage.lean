import Lexing.Proofs.Documents
import Mathlib.Data.Set.List

/-!
# Stored values are read back

For each type that is stored, `StoredAs` says which documents stand for which value, in all the
forms that are accepted: other names for a mode, fields that are left out or stand among others,
arrays in place of objects, names as keys.  Reading decides `StoredAs`, so it never takes one value
for another.  Among these documents one is `Canonical`: there every structure is an object with all
its fields in their order, and every name is a text.

Values nest, since a token may carry a token.  Hence `Value.StoredAs` goes by recursion over the
value, and so do the proofs; each step reads one layer (`Value.Layer`) and leaves the parts to the
recursion (`Value.ofJson?_eq_some_iff`).

What is written is canonical and stands for the value, and it follows that it is read back, and that
reading a document in any form and writing it again puts it into canonical form
(`Json.stored_roundTrips`).
-/

namespace Lexing

/-! ## Round trips -/

namespace Json

variable {α : Type}

/-- Values of a type are stored without loss: by `write`, which makes canonical documents, and
`read`, which accepts the documents that stand for a value. -/
structure RoundTrips (write : α → Json) (read : Json → Option α) (storedAs : α → Json → Prop)
    (canonical : Json → Prop) : Prop where
  read_write : ∀ a, read (write a) = some a
  read_eq_some_iff : ∀ json a, read json = some a ↔ storedAs a json
  /-- Writing again what was read makes a canonical document of it, with the same value, which from
  then on stays as it is. -/
  rewrite : ∀ json a, read json = some a →
    canonical (write a) ∧ read (write a) = some a ∧ (read (write a)).map write = some (write a)
  canonical_iff : ∀ json, canonical json ↔ (read json).map write = some json

/-- It is enough that writing is a special case of what reading accepts. -/
lemma roundTrips_of {write : α → Json} {read : Json → Option α} {storedAs : α → Json → Prop}
    {canonical : Json → Prop} (hread : ∀ json a, read json = some a ↔ storedAs a json)
    (hwrite : ∀ a, storedAs a (write a))
    (hcanonical : ∀ json, canonical json ↔ ∃ a, write a = json) :
    RoundTrips write read storedAs canonical := by
  have hback : ∀ a, read (write a) = some a := by
    intro a
    exact (hread (write a) a).2 (hwrite a)
  refine ⟨hback, hread, ?_, ?_⟩
  · intro json a _
    refine ⟨(hcanonical _).2 ⟨a, rfl⟩, hback a, ?_⟩
    rw [hback a, Option.map_some]
  · intro json
    rw [hcanonical, Option.map_eq_some_iff]
    constructor
    · rintro ⟨a, rfl⟩
      exact ⟨a, hback a, rfl⟩
    · rintro ⟨a, _, hjson⟩
      exact ⟨a, hjson⟩

/-- The document is null or has a certain form. -/
def OrNull (form : Json → Prop) (json : Json) : Prop :=
  json = null ∨ form json

lemma orNull_iff {form : Json → Prop} {write : α → Json}
    (hform : ∀ json, form json ↔ ∃ a, write a = json) (json : Json) :
    json.OrNull form ↔ ∃ o, ofOption write o = json := by
  constructor
  · rintro (rfl | h)
    · exact ⟨none, rfl⟩
    · obtain ⟨a, ha⟩ := (hform json).1 h
      exact ⟨some a, ha⟩
  · rintro ⟨o, rfl⟩
    cases o with
    | none => exact .inl rfl
    | some a => exact .inr ((hform _).2 ⟨a, rfl⟩)

lemma nullable_ofOption {form : α → Json → Prop} {write : α → Json}
    (hwrite : ∀ a, form a (write a)) (o : Option α) : Nullable form o (ofOption write o) := by
  cases o with
  | none => rfl
  | some a => exact hwrite a

/-- An object that gives just the fields of a structure gives each of them. -/
lemma field_object {names : List String} {fields : List (String × Json)} {least : ℕ} {key : String}
    {found : Json} {missing : Prop} {form : Json → Prop} (hnames : names.Nodup)
    (hfields : fields.map Prod.fst = names) (hfound : (key, found) ∈ fields) (hform : form found) :
    Field names least key missing form (object fields) := by
  obtain ⟨before, after, rfl⟩ := List.append_of_mem hfound
  subst hfields
  rw [List.map_append, List.map_cons, List.nodup_middle, List.nodup_cons, List.mem_append,
    not_or] at hnames
  refine .inl ⟨found, .named ?_ ?_, hform⟩
  · rintro field hfield rfl
    exact hnames.1.1 (List.mem_map.2 ⟨field, hfield, rfl⟩)
  · rintro field hfield rfl
    exact hnames.1.2 (List.mem_map.2 ⟨field, hfield, rfl⟩)

/-- The document is a text. -/
def IsText (json : Json) : Prop :=
  ∃ s, string s = json

end Json

open Json (Names Field Nullable OrNull)

/-! ## Modes and configurations -/

namespace Mode

/-- The documents that stand for a mode. -/
def StoredAs : Mode → Json → Prop
  | character, json => Names "character" json ∨ Names "string" json
  | token, json => Names "token" json

def Canonical (json : Json) : Prop :=
  json = .string "character" ∨ json = .string "token"

lemma ofJson?_eq_some_iff (json : Json) (m : Mode) : ofJson? json = some m ↔ m.StoredAs json := by
  rw [ofJson?, Option.bind_eq_some_iff]
  simp only [Json.readName_eq_some_iff]
  constructor
  · rintro ⟨name, hname, hm⟩
    unfold ofName? at hm
    split_ifs at hm with hcharacter htoken
    · obtain rfl := Option.some.inj hm
      rcases hcharacter with rfl | rfl
      · exact .inl hname
      · exact .inr hname
    · obtain rfl := Option.some.inj hm
      subst htoken
      exact hname
  · intro h
    cases m with
    | character =>
      rcases h with h | h
      · exact ⟨_, h, rfl⟩
      · exact ⟨_, h, rfl⟩
    | token => exact ⟨_, h, rfl⟩

lemma storedAs_toJson (m : Mode) : m.StoredAs m.toJson := by
  cases m with
  | character => exact .inl .text
  | token => exact .text

lemma canonical_iff (json : Json) : Canonical json ↔ ∃ m, toJson m = json := by
  constructor
  · rintro (rfl | rfl)
    · exact ⟨.character, rfl⟩
    · exact ⟨.token, rfl⟩
  · rintro ⟨m, rfl⟩
    cases m with
    | character => exact .inl rfl
    | token => exact .inr rfl

end Mode

namespace SpecialChars

/-- The document of a list of characters. -/
def listForm (chars : List Char) : Json :=
  .object [("explicit", .array (chars.map fun c => .string c.toString))]

/-- The documents that stand for a choice of special characters. -/
def StoredAs : SpecialChars → Json → Prop
  | .none, json => Names "none" json
  | .explicit chars, json => json = listForm chars
  | .fromLexicon, json => Names "from-lexicon" json

def Canonical (json : Json) : Prop :=
  json = .string "none" ∨ (∃ chars, json = listForm chars) ∨ json = .string "from-lexicon"

lemma ofJson?_eq_some_iff (json : Json) (s : SpecialChars) :
    ofJson? json = some s ↔ s.StoredAs json := by
  constructor
  · intro h
    unfold ofJson? at h
    split at h
    · obtain ⟨chars, hchars, rfl⟩ := Option.map_eq_some_iff.1 h
      rw [(Json.readArray_eq_some_iff fun _ _ => Json.readChar_eq_some_iff).1 hchars]
      rfl
    · split at h
      · rename_i hname
        obtain rfl := Option.some.inj h
        exact Json.readName_eq_some_iff.1 hname
      · rename_i hname
        obtain rfl := Option.some.inj h
        exact Json.readName_eq_some_iff.1 hname
      · cases h
  · intro h
    cases s with
    | none => cases h <;> rfl
    | explicit chars =>
      have hchars : (Json.array (chars.map fun c => .string c.toString)).readArray Json.readChar =
          some chars :=
        (Json.readArray_eq_some_iff fun _ _ => Json.readChar_eq_some_iff).2 rfl
      obtain rfl : json = listForm chars := h
      exact congrArg (Option.map explicit) hchars
    | fromLexicon => cases h <;> rfl

lemma storedAs_toJson (s : SpecialChars) : s.StoredAs s.toJson := by
  cases s with
  | none => exact .text
  | explicit chars => rfl
  | fromLexicon => exact .text

lemma canonical_iff (json : Json) : Canonical json ↔ ∃ s, toJson s = json := by
  constructor
  · rintro (rfl | ⟨chars, rfl⟩ | rfl)
    · exact ⟨.none, rfl⟩
    · exact ⟨.explicit chars, rfl⟩
    · exact ⟨.fromLexicon, rfl⟩
  · rintro ⟨s, rfl⟩
    cases s with
    | none => exact .inl rfl
    | explicit chars => exact .inr (.inl ⟨chars, rfl⟩)
    | fromLexicon => exact .inr (.inr rfl)

end SpecialChars

/-- A file name that may be missing. -/
def FileStoredAs : Option String → Json → Prop :=
  Nullable fun s json => json = .string s

lemma readFile_eq_some_iff {json : Json} {file? : Option String} :
    json.readNullable Json.readString = some file? ↔ FileStoredAs file? json :=
  Json.readNullable_eq_some_iff (fun _ => Json.readString_eq_some_iff) rfl

lemma fileStoredAs_ofOption (file? : Option String) :
    FileStoredAs file? (.ofOption .string file?) := by
  apply Json.nullable_ofOption
  intro s
  rfl

namespace Config

/-- The documents that stand for a configuration.  Every field may be missing. -/
structure StoredAs (c : Config) (json : Json) : Prop where
  mode : Field ["mode", "special_chars", "file"] 0 "mode" (c.mode = .character) c.mode.StoredAs json
  specialChars : Field ["mode", "special_chars", "file"] 0 "special_chars" (c.specialChars = .none)
    c.specialChars.StoredAs json
  file : Field ["mode", "special_chars", "file"] 0 "file" (c.file? = none)
    (FileStoredAs c.file?) json

def Canonical (json : Json) : Prop :=
  ∃ mode specials file, json =
      .object [("mode", mode), ("special_chars", specials), ("file", file)] ∧
    Mode.Canonical mode ∧ SpecialChars.Canonical specials ∧ file.OrNull Json.IsText

lemma ofJson?_eq_some_iff (json : Json) (c : Config) : ofJson? json = some c ↔ c.StoredAs json := by
  unfold ofJson?
  rw [Json.structure_eq_some_iff (by decide)]
  simp only [Mode.ofJson?_eq_some_iff, SpecialChars.ofJson?_eq_some_iff, readFile_eq_some_iff,
    Option.some.injEq]
  constructor
  · rintro ⟨mode, specialChars, file?, hmode, hspecials, hfile, rfl⟩
    exact ⟨hmode, hspecials, hfile⟩
  · intro h
    exact ⟨c.mode, c.specialChars, c.file?, h.mode, h.specialChars, h.file, rfl⟩

lemma storedAs_toJson (c : Config) : c.StoredAs c.toJson := by
  have hnames : (["mode", "special_chars", "file"] : List String).Nodup := by decide
  refine ⟨?_, ?_, ?_⟩
  · exact Json.field_object hnames rfl (.head _) c.mode.storedAs_toJson
  · exact Json.field_object hnames rfl (.tail _ (.head _)) c.specialChars.storedAs_toJson
  · exact Json.field_object hnames rfl (.tail _ (.tail _ (.head _))) (fileStoredAs_ofOption c.file?)

lemma canonical_iff (json : Json) : Canonical json ↔ ∃ c, toJson c = json := by
  constructor
  · rintro ⟨_, _, _, rfl, hmode, hspecials, hfile⟩
    obtain ⟨mode, rfl⟩ := (Mode.canonical_iff _).1 hmode
    obtain ⟨specialChars, rfl⟩ := (SpecialChars.canonical_iff _).1 hspecials
    obtain ⟨file?, rfl⟩ := (Json.orNull_iff (fun _ => Iff.rfl) _).1 hfile
    exact ⟨{ mode, specialChars, file? }, rfl⟩
  · rintro ⟨c, rfl⟩
    exact ⟨_, _, _, rfl, (Mode.canonical_iff _).2 ⟨_, rfl⟩,
      (SpecialChars.canonical_iff _).2 ⟨_, rfl⟩, (Json.orNull_iff (fun _ => Iff.rfl) _).2 ⟨_, rfl⟩⟩

end Config

/-! ## Positions -/

namespace Position

/-- The documents that stand for a position.  Only the file may be missing. -/
structure StoredAs (p : Position) (json : Json) : Prop where
  file : Field ["file", "line", "column"] 3 "file" (p.file = none) (FileStoredAs p.file) json
  line : Field ["file", "line", "column"] 3 "line" False (· = .ofUInt32 p.line) json
  column : Field ["file", "line", "column"] 3 "column" False (· = .ofUInt32 p.column) json

def Canonical (json : Json) : Prop :=
  ∃ (file : Json) (line column : UInt32), json =
      .object [("file", file), ("line", .ofUInt32 line), ("column", .ofUInt32 column)] ∧
    file.OrNull Json.IsText

lemma ofJson?_eq_some_iff (json : Json) (p : Position) :
    ofJson? json = some p ↔ p.StoredAs json := by
  unfold ofJson?
  rw [Json.structure_eq_some_iff (by decide)]
  simp only [Json.readUInt32_eq_some_iff, readFile_eq_some_iff, Option.some.injEq, reduceCtorEq]
  constructor
  · rintro ⟨file, line, column, hfile, hline, hcolumn, rfl⟩
    exact ⟨hfile, hline, hcolumn⟩
  · intro h
    exact ⟨p.file, p.line, p.column, h.file, h.line, h.column, rfl⟩

lemma storedAs_toJson (p : Position) : p.StoredAs p.toJson := by
  have hnames : (["file", "line", "column"] : List String).Nodup := by decide
  refine ⟨?_, ?_, ?_⟩
  · exact Json.field_object hnames rfl (.head _) (fileStoredAs_ofOption p.file)
  · exact Json.field_object hnames rfl (.tail _ (.head _)) rfl
  · exact Json.field_object hnames rfl (.tail _ (.tail _ (.head _))) rfl

lemma canonical_iff (json : Json) : Canonical json ↔ ∃ p, toJson p = json := by
  constructor
  · rintro ⟨_, line, column, rfl, hfile⟩
    obtain ⟨file, rfl⟩ := (Json.orNull_iff (fun _ => Iff.rfl) _).1 hfile
    exact ⟨{ file, line, column }, rfl⟩
  · rintro ⟨p, rfl⟩
    exact ⟨_, p.line, p.column, rfl, (Json.orNull_iff (fun _ => Iff.rfl) _).2 ⟨_, rfl⟩⟩

lemma readMeta_eq_some_iff {json : Json} {position : Option Position} :
    json.readNullable ofJson? = some position ↔ Nullable StoredAs position json :=
  Json.readNullable_eq_some_iff (fun p => ofJson?_eq_some_iff json p) rfl

end Position

/-! ## Values and tokens -/

/-- The documents that stand for a token of a certain kind at a certain position, the value of which
is stored in a certain form. -/
structure Token.StoredParts (kind : Tag) (value : Json → Prop) (position : Option Position)
    (json : Json) : Prop where
  kind : Field ["kind", "value", "meta"] 3 "kind" False (· = .string kind) json
  value : Field ["kind", "value", "meta"] 3 "value" False value json
  position : Field ["kind", "value", "meta"] 3 "meta" (position = none)
    (Nullable Position.StoredAs position) json

namespace Value

mutual

/-- The documents that stand for a value. -/
def StoredAs : Value → Json → Prop
  | absent, json => Names "None" json
  | text content, json => json = .object [("Text", .string content)]
  | token kind value position, json =>
    ∃ stored, json = .object [("Token", stored)] ∧
      Token.StoredParts kind (StoredAs value) position stored
  | list items, json =>
    ∃ stored, json = .object [("List", .array stored)] ∧ StoredAsAll items stored

def StoredAsAll : List Value → List Json → Prop
  | [], [] => True
  | v :: vs, json :: rest => StoredAs v json ∧ StoredAsAll vs rest
  | _, _ => False

end

end Value

/-- The documents that stand for a token. -/
def Token.StoredAs (t : Token) (json : Json) : Prop :=
  StoredParts t.kind t.value.StoredAs t.position json

/-- An array of another length is no token. -/
lemma Token.ofJson?_array_of_length_ne {items : List Json} (h : items.length ≠ 3) :
    ofJson? (.array items) = none := by
  unfold ofJson?
  rw [Json.fieldsOf, if_neg (by simp only [List.length_cons, List.length_nil]; omega)]
  rfl

namespace Value

inductive Canonical : Json → Prop where
  | absent : Canonical (.string "None")
  | text {content : String} : Canonical (.object [("Text", .string content)])
  | token {kind : Tag} {value position : Json} (hvalue : Canonical value)
      (hposition : position.OrNull Position.Canonical) :
      Canonical
        (.object
          [("Token", .object [("kind", .string kind), ("value", value), ("meta", position)])])
  | list {items : List Json} (hitems : ∀ json ∈ items, Canonical json) :
      Canonical (.object [("List", .array items)])

variable {json : Json} {v : Value} {fields : List (String × Json)}

/-! ### Reading -/

lemma ofJsonAll?_eq (items : List Json) : ofJsonAll? items = items.mapM ofJson? := by
  induction items with
  | nil => rw [ofJsonAll?]; rfl
  | cons json items ih => rw [ofJsonAll?, List.mapM_cons, ih]

lemma ofJsonFields?_eq (fields : List (String × Json)) :
    ofJsonFields? fields = (Json.valuesOf "value" fields).mapM ofJson? := by
  induction fields with
  | nil => rw [ofJsonFields?]; rfl
  | cons field fields ih =>
    rw [ofJsonFields?, Json.valuesOf_cons, ih]
    split_ifs
    · rw [List.mapM_cons]
    · rfl

/-- One value is found if, and only if, the field is read. -/
lemma ofJsonFields?_eq_singleton_iff :
    ofJsonFields? fields = some [v] ↔ Json.readField fields "value" none ofJson? = some v := by
  rw [ofJsonFields?_eq, Json.readField]
  match Json.valuesOf "value" fields with
  | [] => simp
  | [_] | _ :: _ :: _ => simp [List.mapM_cons, Option.bind_eq_some_iff]

lemma ofJson?_token_object (fields : List (String × Json)) :
    ofJson? (.object [("Token", .object fields)]) = do
      let kind ← Json.readField fields "kind" none Json.readString
      let value ← Json.readField fields "value" none ofJson?
      let position ← Json.readField fields "meta" (some none) (Json.readNullable Position.ofJson?)
      return token kind value position := by
  rw [ofJson?]
  cases hvalue : Json.readField fields "value" none ofJson? with
  | none =>
    split
    · rename_i hvalues
      rw [ofJsonFields?_eq_singleton_iff, hvalue] at hvalues
      cases hvalues
    · simp
  | some value =>
    rw [ofJsonFields?_eq_singleton_iff.2 hvalue]
    rfl

/-- A token inside a value is read like a token by itself. -/
lemma ofJson?_token (json : Json) :
    ofJson? (.object [("Token", json)]) = (Token.ofJson? json).map ofToken := by
  cases json with
  | object fields =>
    simp [ofJson?_token_object, Token.ofJson?, Json.fieldsOf, Option.map_bind, Function.comp_def,
      ofToken]
  | array items =>
    rcases items with _ | ⟨kind, _ | ⟨value, _ | ⟨position, _ | ⟨item, rest⟩⟩⟩⟩
    · simp [ofJson?, Token.ofJson?_array_of_length_ne]
    · simp [ofJson?, Token.ofJson?_array_of_length_ne]
    · simp [ofJson?, Token.ofJson?_array_of_length_ne]
    · simp [ofJson?, Token.ofJson?, Json.fieldsOf, Json.readField, Json.valuesOf, Option.map_bind,
        Function.comp_def, ofToken]
    · simp [ofJson?, Token.ofJson?_array_of_length_ne]
  | null | bool _ | number _ _ | string _ => simp [ofJson?, Token.ofJson?, Json.fieldsOf]

/-- One layer of what a document is read as.  What is inside a token or a list has been read. -/
inductive Layer : Json → Value → Prop where
  | absent {json : Json} (hnames : Names "None" json) : Layer json absent
  | text {content : String} : Layer (.object [("Text", .string content)]) (text content)
  | token {stored : Json} {t : Token} (hread : Token.ofJson? stored = some t) :
      Layer (.object [("Token", stored)]) (token t.kind t.value t.position)
  | list {stored : List Json} {items : List Value} (hread : stored.mapM ofJson? = some items) :
      Layer (.object [("List", .array stored)]) (list items)

lemma ofJson?_iff_layer : ofJson? json = some v ↔ Layer json v := by
  constructor
  · intro h
    have hcopy := h
    rw [ofJson?.eq_def] at h
    split at h
    · obtain rfl := Option.some.inj h
      exact .absent .text
    · obtain rfl := Option.some.inj h
      exact .absent .key
    · obtain rfl := Option.some.inj h
      exact .text
    · rw [ofJson?_token] at hcopy
      obtain ⟨t, ht, rfl⟩ := Option.map_eq_some_iff.1 hcopy
      exact .token ht
    · rw [ofJson?_token] at hcopy
      obtain ⟨t, ht, rfl⟩ := Option.map_eq_some_iff.1 hcopy
      exact .token ht
    · obtain ⟨items, hitems, rfl⟩ := Option.map_eq_some_iff.1 h
      rw [ofJsonAll?_eq] at hitems
      exact .list hitems
    · cases h
  · intro h
    cases h with
    | absent hnames => cases hnames <;> rw [ofJson?]
    | text => rw [ofJson?]
    | token hread =>
      rw [ofJson?_token, hread]
      rfl
    | list hread =>
      rw [ofJson?, ofJsonAll?_eq, hread]
      rfl

end Value

/-- A token is read as soon as its value is. -/
lemma Token.ofJson?_eq_some_iff_of {t : Token}
    (hvalue : ∀ json, Value.ofJson? json = some t.value ↔ t.value.StoredAs json) (json : Json) :
    ofJson? json = some t ↔ t.StoredAs json := by
  unfold ofJson?
  rw [Json.structure_eq_some_iff (by decide)]
  simp only [Json.readString_eq_some_iff, Position.readMeta_eq_some_iff, Option.some.injEq,
    reduceCtorEq]
  constructor
  · rintro ⟨kind, value, position, hkind, hread, hposition, rfl⟩
    simp only [hvalue] at hread
    exact ⟨hkind, hread, hposition⟩
  · intro h
    refine ⟨t.kind, t.value, t.position, h.kind, ?_, h.position, rfl⟩
    simpa only [hvalue] using h.value

namespace Value

mutual

/-- **Values.**  A value is read from the documents that stand for it and from no other. -/
theorem ofJson?_eq_some_iff : ∀ (v : Value) (json : Json),
    ofJson? json = some v ↔ v.StoredAs json
  | absent, json => by
    rw [ofJson?_iff_layer, StoredAs]
    constructor
    · intro h
      cases h with
      | absent hnames => exact hnames
    · exact .absent
  | text content, json => by
    rw [ofJson?_iff_layer, StoredAs]
    constructor
    · intro h
      cases h with
      | text => rfl
    · rintro rfl
      exact .text
  | token kind value position, json => by
    have htoken := fun stored => Token.ofJson?_eq_some_iff_of (t := ⟨kind, value, position⟩)
      (ofJson?_eq_some_iff value) stored
    rw [ofJson?_iff_layer, StoredAs]
    constructor
    · intro h
      cases h with
      | token hread => exact ⟨_, rfl, (htoken _).1 hread⟩
    · rintro ⟨stored, rfl, hstored⟩
      exact .token ((htoken stored).2 hstored)
  | list items, json => by
    rw [ofJson?_iff_layer, StoredAs]
    constructor
    · intro h
      cases h with
      | list hread => exact ⟨_, rfl, (mapM_ofJson?_eq_some_iff items _).1 hread⟩
    · rintro ⟨stored, rfl, hstored⟩
      exact .list ((mapM_ofJson?_eq_some_iff items stored).2 hstored)

theorem mapM_ofJson?_eq_some_iff : ∀ (vs : List Value) (items : List Json),
    items.mapM ofJson? = some vs ↔ StoredAsAll vs items
  | [], [] => by simp [StoredAsAll]
  | [], json :: items => by simp [StoredAsAll, List.mapM_cons, Option.bind_eq_some_iff]
  | v :: vs, [] => by simp [StoredAsAll]
  | v :: vs, json :: items => by
    simp [StoredAsAll, List.mapM_cons, Option.bind_eq_some_iff, ofJson?_eq_some_iff v,
      mapM_ofJson?_eq_some_iff vs]

end

end Value

namespace Token

def Canonical (json : Json) : Prop :=
  ∃ (kind : Tag) (value position : Json),
    json = .object [("kind", .string kind), ("value", value), ("meta", position)] ∧
      Value.Canonical value ∧ position.OrNull Position.Canonical

lemma ofJson?_eq_some_iff (json : Json) (t : Token) : ofJson? json = some t ↔ t.StoredAs json :=
  ofJson?_eq_some_iff_of (Value.ofJson?_eq_some_iff t.value) json

lemma storedParts_jsonOfParts {form : Json → Prop} {value : Json} (hvalue : form value) (kind : Tag)
    (position : Option Position) :
    StoredParts kind form position (jsonOfParts kind value position) := by
  have hnames : (["kind", "value", "meta"] : List String).Nodup := by decide
  refine ⟨?_, ?_, ?_⟩
  · exact Json.field_object hnames rfl (.head _) rfl
  · exact Json.field_object hnames rfl (.tail _ (.head _)) hvalue
  · exact Json.field_object hnames rfl (.tail _ (.tail _ (.head _)))
      (Json.nullable_ofOption Position.storedAs_toJson position)

end Token

/-! ### Writing -/

namespace Value

mutual

lemma storedAs_toJson : ∀ v : Value, v.StoredAs v.toJson
  | absent => by
    rw [StoredAs, toJson]
    exact .text
  | text content => by rw [StoredAs, toJson]
  | token kind value position => by
    rw [StoredAs, toJson]
    exact ⟨_, rfl, Token.storedParts_jsonOfParts (storedAs_toJson value) kind position⟩
  | list items => by
    rw [StoredAs, toJson]
    exact ⟨_, rfl, storedAsAll_toJsonAll items⟩

lemma storedAsAll_toJsonAll : ∀ vs : List Value, StoredAsAll vs (toJsonAll vs)
  | [] => trivial
  | v :: vs => ⟨storedAs_toJson v, storedAsAll_toJsonAll vs⟩

end

lemma toJsonAll_eq (vs : List Value) : toJsonAll vs = vs.map toJson := by
  induction vs with
  | nil => rfl
  | cons v vs ih => rw [toJsonAll, ih, List.map_cons]

/-- Every canonical document is written. -/
lemma Canonical.exists_toJson {json : Json} (h : Canonical json) : ∃ v, toJson v = json := by
  induction h with
  | absent => exact ⟨.absent, rfl⟩
  | @text content => exact ⟨.text content, rfl⟩
  | @token kind _ _ _ hposition ih =>
    obtain ⟨value, rfl⟩ := ih
    obtain ⟨position, rfl⟩ := (Json.orNull_iff Position.canonical_iff _).1 hposition
    exact ⟨.token kind value position, rfl⟩
  | @list items _ ih =>
    have hitems : items ∈ Set.range (List.map toJson) := by
      rw [Set.range_list_map]
      exact ih
    obtain ⟨vs, rfl⟩ := hitems
    exact ⟨.list vs, by rw [toJson, toJsonAll_eq]⟩

mutual

/-- Everything that is written is canonical. -/
lemma canonical_toJson : ∀ v : Value, Canonical v.toJson
  | absent => .absent
  | text _ => .text
  | token _ value _ =>
    .token (canonical_toJson value) ((Json.orNull_iff Position.canonical_iff _).2 ⟨_, rfl⟩)
  | list items => .list (canonical_of_mem_toJsonAll items)

lemma canonical_of_mem_toJsonAll : ∀ (vs : List Value), ∀ json ∈ toJsonAll vs, Canonical json
  | [], _, h => by cases h
  | v :: vs, json, h => by
    rcases List.mem_cons.1 h with rfl | h
    · exact canonical_toJson v
    · exact canonical_of_mem_toJsonAll vs json h

end

lemma canonical_iff (json : Json) : Canonical json ↔ ∃ v, toJson v = json := by
  constructor
  · exact Canonical.exists_toJson
  · rintro ⟨v, rfl⟩
    exact canonical_toJson v

end Value

namespace Token

lemma storedAs_toJson (t : Token) : t.StoredAs t.toJson :=
  storedParts_jsonOfParts t.value.storedAs_toJson t.kind t.position

lemma canonical_iff (json : Json) : Canonical json ↔ ∃ t, toJson t = json := by
  constructor
  · rintro ⟨kind, _, _, rfl, hvalue, hposition⟩
    obtain ⟨value, rfl⟩ := (Value.canonical_iff _).1 hvalue
    obtain ⟨position, rfl⟩ := (Json.orNull_iff Position.canonical_iff _).1 hposition
    exact ⟨{ kind, value, position }, rfl⟩
  · rintro ⟨t, rfl⟩
    exact ⟨t.kind, _, _, rfl, (Value.canonical_iff _).2 ⟨_, rfl⟩,
      (Json.orNull_iff Position.canonical_iff _).2 ⟨_, rfl⟩⟩

end Token

/-! ## Everything that is stored -/

/-- **Round trips.**  Whatever is stored is read back, and documents in any accepted form are put
into canonical form without changing what they stand for. -/
theorem Json.stored_roundTrips :
    RoundTrips Token.toJson Token.ofJson? Token.StoredAs Token.Canonical ∧
      RoundTrips Value.toJson Value.ofJson? Value.StoredAs Value.Canonical ∧
      RoundTrips Position.toJson Position.ofJson? Position.StoredAs Position.Canonical ∧
      RoundTrips Mode.toJson Mode.ofJson? Mode.StoredAs Mode.Canonical ∧
      RoundTrips SpecialChars.toJson SpecialChars.ofJson? SpecialChars.StoredAs
        SpecialChars.Canonical ∧
      RoundTrips Config.toJson Config.ofJson? Config.StoredAs Config.Canonical := by
  refine ⟨?_, ?_, ?_, ?_, ?_, ?_⟩
  · exact roundTrips_of Token.ofJson?_eq_some_iff Token.storedAs_toJson Token.canonical_iff
  · exact roundTrips_of (fun json v => Value.ofJson?_eq_some_iff v json) Value.storedAs_toJson
      Value.canonical_iff
  · exact roundTrips_of Position.ofJson?_eq_some_iff Position.storedAs_toJson Position.canonical_iff
  · exact roundTrips_of Mode.ofJson?_eq_some_iff Mode.storedAs_toJson Mode.canonical_iff
  · exact roundTrips_of SpecialChars.ofJson?_eq_some_iff SpecialChars.storedAs_toJson
      SpecialChars.canonical_iff
  · exact roundTrips_of Config.ofJson?_eq_some_iff Config.storedAs_toJson Config.canonical_iff

/-- A mode by another name, as a key with null, beside a field that nobody asks for. -/
example :
    (Config.ofJson? (.object [("comment", .bool true), ("mode", .object [("string", .null)])])).map
        Config.toJson =
      some (.object
        [("mode", .string "character"), ("special_chars", .string "none"), ("file", .null)]) :=
  rfl

end Lexing

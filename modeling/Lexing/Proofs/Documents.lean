import Lexing.Json.Stored
import Mathlib.Data.List.Nodup
import Mathlib.Tactic.Lemma

/-!
# What a document says

A structure is read field by field, and a document can say what a field is in more than one way: an
object by name, among fields that nobody asks for, and an array by place.  It can also leave a field
out.  `Json.Says` lists the ways without reading anything.

Reading finds out what a document says and nothing else.  Since all structures that are stored have
three fields, this is shown once for all of them (`Json.structure_eq_some_iff`): a structure is read
from a document if, and only if, the document says of each field what can be read, or leaves out a
field that may be missing.  What remains are the leaves, that is texts, numbers, characters and
names.
-/

namespace Lexing

namespace Json

variable {α β γ δ : Type} {names : List String} {least : ℕ} {key : String} {json found : Json}
  {fields : List (String × Json)}

/-! ## Fields -/

/-- What a document says about a field of a structure with the given field names: the value that it
gives, or that it gives none.  An array must be neither shorter than `least` nor longer than the
structure. -/
inductive Says (names : List String) (least : ℕ) (key : String) : Json → Option Json → Prop where
  /-- An object gives a field by name, and only once. -/
  | named {before after : List (String × Json)} {found : Json}
      (hbefore : ∀ field ∈ before, field.1 ≠ key) (hafter : ∀ field ∈ after, field.1 ≠ key) :
      Says names least key (object (before ++ (key, found) :: after)) (some found)
  | leftOut {fields : List (String × Json)} (h : ∀ field ∈ fields, field.1 ≠ key) :
      Says names least key (object fields) none
  /-- An array gives a field by place, unless it breaks off before. -/
  | placed {items : List Json} {i : ℕ} (hleast : least ≤ items.length)
      (hmost : items.length ≤ names.length) (hkey : names[i]? = some key) :
      Says names least key (array items) items[i]?

/-- The document gives the field with a value of a certain form, or it leaves the field out and the
field may be missing. -/
def Field (names : List String) (least : ℕ) (key : String) (missing : Prop) (form : Json → Prop)
    (json : Json) : Prop :=
  (∃ found, Says names least key json (some found) ∧ form found) ∨
    Says names least key json none ∧ missing

lemma valuesOf_cons (field : String × Json) :
    valuesOf key (field :: fields) =
      if field.1 = key then field.2 :: valuesOf key fields else valuesOf key fields := by
  by_cases h : field.1 = key <;> simp [valuesOf, h]

lemma valuesOf_eq_nil_iff : valuesOf key fields = [] ↔ ∀ field ∈ fields, field.1 ≠ key := by
  simp [valuesOf, List.filter_eq_nil_iff]

lemma valuesOf_eq_singleton_iff : valuesOf key fields = [found] ↔
    ∃ before after, fields = before ++ (key, found) :: after ∧
      (∀ field ∈ before, field.1 ≠ key) ∧ ∀ field ∈ after, field.1 ≠ key := by
  induction fields with
  | nil => simp [valuesOf]
  | cons field fields ih =>
    rw [valuesOf_cons]
    split_ifs with hkey
    · rw [List.cons.injEq, valuesOf_eq_nil_iff]
      constructor
      · rintro ⟨rfl, hafter⟩
        exact ⟨[], fields, by rw [← hkey]; rfl, by simp, hafter⟩
      · rintro ⟨before, after, hfields, hbefore, hafter⟩
        match before with
        | [] =>
          cases hfields
          exact ⟨rfl, hafter⟩
        | first :: before =>
          cases hfields
          exact absurd hkey (hbefore field List.mem_cons_self)
    · rw [ih]
      constructor
      · rintro ⟨before, after, rfl, hbefore, hafter⟩
        exact ⟨field :: before, after, rfl, List.forall_mem_cons.2 ⟨hkey, hbefore⟩, hafter⟩
      · rintro ⟨before, after, hfields, hbefore, hafter⟩
        match before with
        | [] =>
          cases hfields
          exact absurd rfl hkey
        | first :: before =>
          cases hfields
          exact ⟨before, after, rfl, (List.forall_mem_cons.1 hbefore).2, hafter⟩

/-- Field names that differ are found at one place. -/
lemma valuesOf_zip {i : ℕ} (hnames : names.Nodup) (hkey : names[i]? = some key)
    (items : List Json) : valuesOf key (names.zip items) = items[i]?.toList := by
  induction names generalizing i items with
  | nil => simp at hkey
  | cons name names ih =>
    obtain ⟨hname, hnames⟩ := List.nodup_cons.1 hnames
    match items with
    | [] => simp [valuesOf]
    | item :: items =>
      rw [List.zip_cons_cons, valuesOf_cons]
      cases i with
      | zero =>
        obtain rfl : name = key := by simpa using hkey
        have hnone : valuesOf name (names.zip items) = [] := by
          rw [valuesOf_eq_nil_iff]
          rintro field hfield rfl
          exact hname (List.of_mem_zip hfield).1
        simp [hnone]
      | succ i =>
        rw [List.getElem?_cons_succ] at hkey ⊢
        have hne : name ≠ key := by
          rintro rfl
          exact hname (List.mem_of_getElem? hkey)
        rw [if_neg hne, ih hnames hkey]

/-- **What is found is what is said.** -/
lemma says_iff {o : Option Json} (hnames : names.Nodup) (hkey : key ∈ names) :
    Says names least key json o ↔
      ∃ fields, json.fieldsOf names least = some fields ∧ valuesOf key fields = o.toList := by
  obtain ⟨i, hi⟩ := List.mem_iff_getElem?.1 hkey
  constructor
  · intro h
    cases h with
    | named hbefore hafter =>
      exact ⟨_, rfl, valuesOf_eq_singleton_iff.2 ⟨_, _, rfl, hbefore, hafter⟩⟩
    | leftOut h => exact ⟨_, rfl, valuesOf_eq_nil_iff.2 h⟩
    | placed hleast hmost hplace =>
      exact ⟨_, if_pos ⟨hleast, hmost⟩, valuesOf_zip hnames hplace _⟩
  · rintro ⟨fields, hfields, hvalues⟩
    cases json with
    | object own =>
      obtain rfl : own = fields := Option.some.inj hfields
      cases o with
      | none => exact .leftOut (valuesOf_eq_nil_iff.1 hvalues)
      | some found =>
        obtain ⟨before, after, rfl, hbefore, hafter⟩ := valuesOf_eq_singleton_iff.1 hvalues
        exact .named hbefore hafter
    | array items =>
      rw [fieldsOf] at hfields
      split_ifs at hfields with hlength
      obtain rfl := Option.some.inj hfields
      rw [valuesOf_zip hnames hi] at hvalues
      have hfound : items[i]? = o := by simpa using congrArg List.head? hvalues
      rw [← hfound]
      exact .placed hlength.1 hlength.2 hi
    | null | bool _ | number _ _ | string _ => cases hfields

lemma readField_eq_some_iff {missing : Option α} {read : Json → Option α} {a : α} :
    readField fields key missing read = some a ↔
      (∃ found, valuesOf key fields = [found] ∧ read found = some a) ∨
        valuesOf key fields = [] ∧ some a = missing := by
  unfold readField
  split
  · rename_i hnone
    simp [hnone, eq_comm]
  · rename_i hone
    simp [hone]
  · rename_i hnone hone
    constructor
    · intro h
      cases h
    · rintro (⟨found, hfound, _⟩ | ⟨hnil, _⟩)
      · exact absurd hfound (hone found)
      · exact absurd hnil hnone

/-- Reading a field that is said. -/
lemma field_iff {missing : Option α} {read : Json → Option α} {a : α} (hnames : names.Nodup)
    (hkey : key ∈ names) :
    Field names least key (some a = missing) (read · = some a) json ↔
      ∃ fields, json.fieldsOf names least = some fields ∧
        readField fields key missing read = some a := by
  simp only [Field, says_iff hnames hkey, readField_eq_some_iff, Option.toList_some,
    Option.toList_none]
  constructor
  · rintro (⟨found, ⟨fields, hfields, hvalues⟩, hread⟩ | ⟨⟨fields, hfields, hvalues⟩, hmissing⟩)
    · exact ⟨fields, hfields, .inl ⟨found, hvalues, hread⟩⟩
    · exact ⟨fields, hfields, .inr ⟨hvalues, hmissing⟩⟩
  · rintro ⟨fields, hfields, ⟨found, hvalues, hread⟩ | ⟨hvalues, hmissing⟩⟩
    · exact .inl ⟨found, ⟨fields, hfields, hvalues⟩, hread⟩
    · exact .inr ⟨⟨fields, hfields, hvalues⟩, hmissing⟩

/-! ## Structures -/

section Structures

variable {k₁ k₂ k₃ : String}

/-- **Structures.**  The three fields of a structure are read independently of each other. -/
lemma structure_eq_some_iff (hnames : [k₁, k₂, k₃].Nodup) {m₁ : Option α} {m₂ : Option β}
    {m₃ : Option γ} {r₁ : Json → Option α} {r₂ : Json → Option β} {r₃ : Json → Option γ}
    {make : α → β → γ → δ} {d : δ} :
    (do
      let fields ← json.fieldsOf [k₁, k₂, k₃] least
      let a ← readField fields k₁ m₁ r₁
      let b ← readField fields k₂ m₂ r₂
      let c ← readField fields k₃ m₃ r₃
      return make a b c) = some d ↔
      ∃ a b c, Field [k₁, k₂, k₃] least k₁ (some a = m₁) (r₁ · = some a) json ∧
        Field [k₁, k₂, k₃] least k₂ (some b = m₂) (r₂ · = some b) json ∧
        Field [k₁, k₂, k₃] least k₃ (some c = m₃) (r₃ · = some c) json ∧ make a b c = d := by
  simp only [field_iff hnames (List.mem_cons_self (a := k₁)),
    field_iff hnames (List.mem_cons_of_mem k₁ (List.mem_cons_self (a := k₂))),
    field_iff hnames
      (List.mem_cons_of_mem k₁ (List.mem_cons_of_mem k₂ (List.mem_cons_self (a := k₃)))),
    Option.bind_eq_bind, Option.bind_eq_some_iff, Option.pure_def, Option.some.injEq]
  constructor
  · rintro ⟨fields, hfields, a, ha, b, hb, c, hc, hmake⟩
    exact ⟨a, b, c, ⟨fields, hfields, ha⟩, ⟨fields, hfields, hb⟩, ⟨fields, hfields, hc⟩, hmake⟩
  · rintro ⟨a, b, c, ⟨fields, hfields, ha⟩, ⟨fields₂, hfields₂, hb⟩, ⟨fields₃, hfields₃, hc⟩, hmake⟩
    obtain rfl := Option.some.inj (hfields.symm.trans hfields₂)
    obtain rfl := Option.some.inj (hfields.symm.trans hfields₃)
    exact ⟨fields, hfields, a, ha, b, hb, c, hc, hmake⟩

end Structures

/-! ## Leaves -/

/-- A name is a text, or the only key of an object, with null. -/
inductive Names (name : String) : Json → Prop where
  | text : Names name (string name)
  | key : Names name (object [(name, null)])

/-- The value is there in a certain form, or null says that there is none. -/
def Nullable (form : α → Json → Prop) : Option α → Json → Prop
  | none, json => json = null
  | some a, json => form a json

/-- The list of the forms of several values. -/
def IsList (write : α → Json) (as : List α) (json : Json) : Prop :=
  json = array (as.map write)

lemma readName_eq_some_iff {name : String} : json.readName = some name ↔ Names name json := by
  constructor
  · intro h
    unfold readName at h
    split at h
    · obtain rfl := Option.some.inj h
      exact .text
    · obtain rfl := Option.some.inj h
      exact .key
    · cases h
  · intro h
    cases h <;> rfl

lemma readString_eq_some_iff {s : String} : json.readString = some s ↔ json = string s := by
  cases json <;> simp [readString]

lemma readChar_eq_some_iff {c : Char} : json.readChar = some c ↔ json = string c.toString := by
  constructor
  · intro h
    cases json with
    | string s =>
      match hlist : s.toList with
      | [] | _ :: _ :: _ => simp [readChar, hlist] at h
      | [d] =>
        obtain rfl : d = c := by simpa [readChar, hlist] using h
        have hs : s = d.toString := by
          rw [← String.toList_inj, hlist]
          simp
        rw [hs]
    | null | bool _ | number _ _ | array _ | object _ => cases h
  · rintro rfl
    simp [readChar]

lemma readUInt32_eq_some_iff {n : UInt32} : json.readUInt32 = some n ↔ json = ofUInt32 n := by
  constructor
  · intro h
    unfold readUInt32 at h
    split at h
    · split_ifs at h with hlt
      obtain rfl := Option.some.inj h
      rw [ofUInt32, UInt32.toNat_ofNat_of_lt' hlt]
      rfl
    · cases h
  · rintro rfl
    have hlt : n.toNat < UInt32.size := n.toNat_lt_size
    show (if n.toNat < UInt32.size then some (UInt32.ofNat n.toNat) else none) = some n
    rw [if_pos hlt, UInt32.ofNat_toNat]

lemma readNullable_eq_some_iff {read : Json → Option α} {form : α → Json → Prop} {o : Option α}
    (hread : ∀ a, read json = some a ↔ form a json) (hnull : read null = none) :
    json.readNullable read = some o ↔ Nullable form o json := by
  by_cases hjson : json = null
  · subst hjson
    cases o with
    | none => exact iff_of_true rfl rfl
    | some a =>
      have hform : ¬ form a null := by
        rw [← hread a, hnull]
        simp
      exact iff_of_false (by simp [readNullable]) hform
  · have hsome : json.readNullable read = (read json).map some := by
      unfold readNullable
      split
      · exact absurd rfl hjson
      · rfl
    rw [hsome, Option.map_eq_some_iff]
    cases o with
    | none => simp [Nullable, hjson]
    | some a => simp [Nullable, hread]

lemma mapM_eq_some_iff {read : Json → Option α} {write : α → Json}
    (hread : ∀ json a, read json = some a ↔ json = write a) {items : List Json} {as : List α} :
    items.mapM read = some as ↔ items = as.map write := by
  induction items generalizing as with
  | nil => cases as <;> simp
  | cons item items ih =>
    cases as with
    | nil => simp [List.mapM_cons, Option.bind_eq_some_iff]
    | cons a as => simp [List.mapM_cons, Option.bind_eq_some_iff, hread, ih]

lemma readArray_eq_some_iff {read : Json → Option α} {write : α → Json}
    (hread : ∀ json a, read json = some a ↔ json = write a) {as : List α} :
    json.readArray read = some as ↔ json.IsList write as := by
  cases json <;> simp [readArray, IsList, mapM_eq_some_iff hread]

end Json

end Lexing

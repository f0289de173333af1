import Lexing.Text.Quoted
import Mathlib.Data.Nat.Init
import Mathlib.Tactic.Lemma
import Mathlib.Tactic.SplitIfs

/-!
# Reading numbers and quotations

Numbers and quoted texts are written into lines without a mark of how long they are.  A number ends
where its digits end, and a quotation with the first delimiter that is not part of an escape.  The
readers below find these ends by going from character to character, knowing nothing of what was
written.

They find the text that was quoted and leave the rest of the line untouched, whatever characters
there are in either (`Text.readQuoted_quote`).  And no quotation breaks the line that it stands on
(`Text.newline_notMem_quote`).
-/

namespace Lexing.Text

/-! ## Numbers -/

/-- The value of a digit, up to the digits of base sixteen. -/
def digitValue? (c : Char) : Option ℕ :=
  if c.isDigit then some (c.toNat - '0'.toNat)
  else if 'a' ≤ c ∧ c ≤ 'f' then some (c.toNat - 'a'.toNat + 10)
  else none

/-- Goes on with a number of which `n` has been read. -/
def readDigits : ℕ → List Char → ℕ × List Char
  | n, [] => (n, [])
  | n, c :: cs => if c.isDigit then readDigits (10 * n + (c.toNat - '0'.toNat)) cs else (n, c :: cs)

/-- A number, and what comes after it. -/
def readNumber : List Char → Option (ℕ × List Char)
  | [] => none
  | c :: cs => if c.isDigit then some (readDigits 0 (c :: cs)) else none

/-- **Digits one by one.**  What takes up the digits of a number one after the other, each time
multiplying what it has by the base, has taken up the number in the end. -/
lemma feed_toDigits {α : Type} {base : ℕ} (hbase : 1 < base) {f : ℕ → List Char → α}
    (hdigit : ∀ n d cs, d < base → f n (d.digitChar :: cs) = f (base * n + d) cs)
    (n : ℕ) (cs : List Char) : f 0 (Nat.toDigits base n ++ cs) = f n cs := by
  induction n using Nat.strong_induction_on generalizing cs with
  | _ n ih =>
    rw [Nat.toDigits_eq_if hbase]
    split_ifs with hlt
    · rw [List.singleton_append, hdigit 0 n cs hlt, Nat.mul_zero, Nat.zero_add]
    · have hpos : 0 < n := by omega
      rw [List.append_assoc, ih (n / base) (Nat.div_lt_self hpos hbase), List.singleton_append,
        hdigit _ _ _ (Nat.mod_lt n (by omega)), Nat.div_add_mod]

lemma isDigit_digitChar : ∀ d < 10, (Nat.digitChar d).isDigit = true := by
  decide

lemma toNat_digitChar : ∀ d < 10, (Nat.digitChar d).toNat - '0'.toNat = d := by
  decide

lemma digitValue?_digitChar : ∀ d < 16, digitValue? (Nat.digitChar d) = some d := by
  decide

lemma digitChar_ne_brace : ∀ d < 16, Nat.digitChar d ≠ '\x7d' := by
  decide

lemma newline_ne_digitChar : ∀ d < 16, '\n' ≠ Nat.digitChar d := by
  decide

/-- A number is read up to a text that does not begin with a digit. -/
lemma readNumber_toString {s : String} (hs : s.toList.head?.any (!·.isDigit) = true) (n : ℕ)
    (cs : List Char) :
    readNumber ((toString n).toList ++ (s.toList ++ cs)) = some (n, s.toList ++ cs) := by
  have hend : readDigits n (s.toList ++ cs) = (n, s.toList ++ cs) := by
    match hchars : s.toList with
    | [] => simp [hchars] at hs
    | c :: rest =>
      have hc : c.isDigit = false := by simpa [hchars] using hs
      rw [List.cons_append, readDigits, if_neg (by simp [hc])]
  have hread : readDigits 0 (Nat.toDigits 10 n ++ (s.toList ++ cs)) = (n, s.toList ++ cs) := by
    rw [← hend]
    apply feed_toDigits (by decide)
    intro n d cs hd
    rw [readDigits, if_pos (isDigit_digitChar d hd), toNat_digitChar d hd]
  rw [Nat.toString_eq_ofList_toDigits, String.toList_ofList]
  match hdigits : Nat.toDigits 10 n with
  | [] => exact absurd hdigits Nat.toDigits_ne_nil
  | c :: digits =>
    have hc : c.isDigit = true :=
      Nat.isDigit_of_mem_toDigits (by decide) (Nat.le_refl 10) (hdigits ▸ List.mem_cons_self)
    rw [← hread, hdigits, List.cons_append, readNumber, if_pos hc]

lemma newline_notMem_toDigits {base : ℕ} (hbase : 1 < base) (hle : base ≤ 16) (n : ℕ) :
    '\n' ∉ Nat.toDigits base n := by
  -- Being free of new lines is a property that no digit changes.
  have hfree : ('\n' ∉ Nat.toDigits base n ++ []) = ('\n' ∉ ([] : List Char)) := by
    apply feed_toDigits (f := fun _ cs => '\n' ∉ cs) hbase
    intro n d cs hd
    simp [newline_ne_digitChar d (by omega)]
  rw [List.append_nil] at hfree
  simp [hfree]

/-! ## Quotations -/

/-- How far an escape has been read. -/
inductive Escape where
  | outside
  | started
  /-- The code point of a character is to follow. -/
  | announced
  | within (code : ℕ)

/-- The character for which a letter stands in an escape. -/
def escaped? (c : Char) : Option Char :=
  if c = '0' then some '\x00'
  else if c = 't' then some '\t'
  else if c = 'r' then some '\r'
  else if c = 'n' then some '\n'
  else if c = '\\' ∨ c = '"' then some c
  else none

/-- What is quoted from here to the end of the quotation, and what comes after it. -/
def readQuotation : Escape → List Char → Option (List Char × List Char)
  | _, [] => none
  | .outside, c :: cs =>
    if c = '"' then some ([], cs)
    else if c = '\\' then readQuotation .started cs
    else (readQuotation .outside cs).map (Prod.map (c :: ·) id)
  | .started, c :: cs =>
    if c = 'u' then readQuotation .announced cs
    else
      match escaped? c with
      | some d => (readQuotation .outside cs).map (Prod.map (d :: ·) id)
      | none => none
  | .announced, c :: cs => if c = '\x7b' then readQuotation (.within 0) cs else none
  | .within code, c :: cs =>
    if c = '\x7d' then (readQuotation .outside cs).map (Prod.map (Char.ofNat code :: ·) id)
    else
      match digitValue? c with
      | some d => readQuotation (.within (16 * code + d)) cs
      | none => none

/-- A text in double quotes, and what comes after it. -/
def readQuoted : List Char → Option (String × List Char)
  | [] => none
  | c :: cs =>
    if c = '"' then (readQuotation .outside cs).map (Prod.map String.ofList id) else none

lemma readQuotation_escapeCode (c : Char) (cs : List Char) :
    readQuotation .outside (escapeCode c ++ cs) =
      (readQuotation .outside cs).map (Prod.map (c :: ·) id) := by
  have hcode : readQuotation (.within 0) (Nat.toDigits 16 c.toNat ++ '\x7d' :: cs) =
      readQuotation (.within c.toNat) ('\x7d' :: cs) := by
    apply feed_toDigits (f := fun code => readQuotation (.within code)) (by decide)
    intro n d cs hd
    rw [readQuotation, if_neg (digitChar_ne_brace d hd), digitValue?_digitChar d hd]
  calc
    _ = readQuotation (.within 0) (Nat.toDigits 16 c.toNat ++ '\x7d' :: cs) := by
      simp [escapeCode, readQuotation]
    _ = _ := by rw [hcode, readQuotation, if_pos rfl, Char.ofNat_toNat]

/-- **Characters.**  However a character is written, it is read. -/
lemma readQuotation_escape (c : Char) (cs : List Char) :
    readQuotation .outside (escape '"' c ++ cs) =
      (readQuotation .outside cs).map (Prod.map (c :: ·) id) := by
  unfold escape
  split_ifs with hzero htab hreturn hnewline hself hhidden
  · subst hzero
    rfl
  · subst htab
    rfl
  · subst hreturn
    rfl
  · subst hnewline
    rfl
  · rcases hself with rfl | rfl
    · rfl
    · rfl
  · exact readQuotation_escapeCode c cs
  · rw [not_or] at hself
    rw [List.singleton_append, readQuotation, if_neg hself.2, if_neg hself.1]

/-- **Quotations.**  A quoted text is read back, and nothing beyond it is touched. -/
lemma readQuoted_quote (s : String) (cs : List Char) :
    readQuoted ((quote s).toList ++ cs) = some (s, cs) := by
  have hread : ∀ chars : List Char,
      readQuotation .outside (chars.flatMap (escape '"') ++ '"' :: cs) = some (chars, cs) := by
    intro chars
    induction chars with
    | nil => rfl
    | cons c chars ih =>
      rw [List.flatMap_cons, List.append_assoc, readQuotation_escape, ih]
      rfl
  rw [quote, String.toList_ofList, List.cons_append, List.append_assoc, List.singleton_append,
    readQuoted, if_pos rfl, hread, Option.map_some, Prod.map_apply, String.ofList_toList]
  rfl

/-- Reading ends with the first quotation mark that is not part of an escape. -/
example :
    readQuoted "\"a\\\"\\\\\\u\x7b7f\x7d\", \"b\"".toList =
      some ("a\"\\\x7f", ", \"b\"".toList) := by
  decide

lemma newline_notMem_escape (c : Char) : '\n' ∉ escape '"' c := by
  unfold escape
  split_ifs with hzero htab hreturn hnewline hself hhidden
  · decide
  · decide
  · decide
  · decide
  · rcases hself with rfl | rfl <;> decide
  · simp [escapeCode, newline_notMem_toDigits]
  · simpa [eq_comm] using hnewline

/-- A quotation stays on its line. -/
lemma newline_notMem_quote (s : String) : '\n' ∉ (quote s).toList := by
  simp [quote, newline_notMem_escape]

end Lexing.Text

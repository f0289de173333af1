import Lexing.Proofs.Lines
import Lexing.Proofs.Texts
import Mathlib.Algebra.GroupWithZero.Nat
import Mathlib.Data.List.Chain

/-!
# There is one way to cut a text

A text is cut into special characters and runs of plain text, and no two runs are next to each other.
This leaves no choice: `Segment.IsSplit` says what is asked of the pieces, and there is exactly one
list of pieces that answers to it.  A run that is put before what does not begin with a run is kept
as it is (`foldr_prependChar_content`), so pieces that answer to it are what the text is cut into.

A reader need not take a text character by character.  It may keep a byte offset, look for the next
special character and slice out what lies before it (`Segment.next?`).  A slice at an offset that
falls within a character is no text at all, and then the reader stops short.  It does not: it hands
out the same pieces and stops at the end (`Segment.yields_split`), since its offset is always the
length of the pieces that it has handed out.
-/

namespace Lexing

/-! ## Bytes of a text -/

/-- The characters before a byte offset and those after it, if it falls between two characters. -/
def cutAt? : List Char → Nat → Option (List Char × List Char)
  | cs, 0 => some ([], cs)
  | [], _ + 1 => none
  | c :: cs, n + 1 =>
    if c.utf8Size ≤ n + 1 then
      (cutAt? cs (n + 1 - c.utf8Size)).map fun cut => (c :: cut.1, cut.2)
    else
      none

lemma cutAt?_append (cs ds : List Char) : cutAt? (cs ++ ds) (utf8Length cs) = some (cs, ds) := by
  induction cs with
  | nil => simp [utf8Length, cutAt?]
  | cons c cs ih =>
    obtain ⟨n, hn⟩ := Nat.exists_eq_succ_of_ne_zero c.utf8Size_pos.ne'
    have hrest : n + utf8Length cs + 1 - c.utf8Size = utf8Length cs := by omega
    have hlength : utf8Length (c :: cs) = n + utf8Length cs + 1 := by
      rw [utf8Length]
      omega
    rw [List.cons_append, hlength, cutAt?, if_pos (by omega), hrest, ih]
    rfl

namespace Segment

variable {specials : List Char} {text : String} {segments : List Segment}

/-! ## Pieces -/

/-- The piece is a special character, or a run of plain text that is not empty. -/
def IsPiece (specials : List Char) : Segment → Prop
  | .text run => run ≠ "" ∧ ∀ c ∈ run.toList, c ∉ specials
  | special c => c ∈ specials

/-- At most one of the two is a run. -/
def Apart : Segment → Segment → Prop
  | .text _, .text _ => False
  | _, _ => True

/-- The pieces make up the text, and the runs among them are as long as they can be. -/
structure IsSplit (specials : List Char) (text : String) (segments : List Segment) : Prop where
  join_eq : String.join (segments.map content) = text
  isPiece : ∀ s ∈ segments, s.IsPiece specials
  apart : segments.IsChain Apart

lemma IsSplit.flatMap_toList (h : IsSplit specials text segments) :
    segments.flatMap (·.content.toList) = text.toList := by
  rw [← h.join_eq, String.toList_join, List.flatMap_map]

/-- Which run it is makes no difference. -/
lemma isChain_run {run : String} (run' : String)
    (h : (Segment.text run :: segments).IsChain Apart) :
    (Segment.text run' :: segments).IsChain Apart :=
  List.isChain_cons.2 ⟨fun
    | .text _, hnext => (List.isChain_cons.1 h).1 _ hnext
    | special _, _ => trivial, h.tail⟩

lemma prependChar_of_mem {c : Char} (h : c ∈ specials) :
    prependChar specials c segments = special c :: segments :=
  if_pos (by simpa using h)

lemma prependChar_of_notMem {c : Char} {run : String} (h : c ∉ specials)
    (hapart : (Segment.text run :: segments).IsChain Apart) :
    prependChar specials c segments = Segment.text c.toString :: segments := by
  unfold prependChar
  rw [if_neg (by simpa using h)]
  match segments with
  | [] | special d :: rest => rfl
  | .text run :: rest => exact absurd (List.isChain_cons_cons.1 hapart).1 id

lemma prependChar_run {c : Char} (h : c ∉ specials) (run : String) :
    prependChar specials c (Segment.text run :: segments) =
      Segment.text (c.toString ++ run) :: segments := by
  unfold prependChar
  rw [if_neg (by simpa using h)]

/-- A character before pieces makes them one piece longer, or the first of them one character. -/
lemma pieces_prependChar (c : Char) (hpieces : ∀ s ∈ segments, s.IsPiece specials)
    (hapart : segments.IsChain Apart) :
    (∀ s ∈ prependChar specials c segments, s.IsPiece specials) ∧
      (prependChar specials c segments).IsChain Apart := by
  by_cases hc : c ∈ specials
  · rw [prependChar_of_mem hc]
    exact ⟨List.forall_mem_cons.2 ⟨hc, hpieces⟩, hapart.cons fun _ _ => trivial⟩
  · have hone : IsPiece specials (.text c.toString) := by simpa [IsPiece] using hc
    match segments with
    | .text run :: rest =>
      obtain ⟨⟨_, hrun⟩, hpieces⟩ := List.forall_mem_cons.1 hpieces
      rw [prependChar_run hc]
      refine ⟨List.forall_mem_cons.2 ⟨?_, hpieces⟩, ?_⟩
      · simp_all [IsPiece]
      · exact isChain_run _ hapart
    | [] =>
      rw [prependChar_of_notMem hc (.singleton (Segment.text ""))]
      exact ⟨List.forall_mem_cons.2 ⟨hone, hpieces⟩, .singleton _⟩
    | special d :: rest =>
      have hnext : (Segment.text "" :: special d :: rest).IsChain Apart :=
        .cons_cons trivial hapart
      rw [prependChar_of_notMem hc hnext]
      exact ⟨List.forall_mem_cons.2 ⟨hone, hpieces⟩, .cons_cons trivial hapart⟩

lemma isSplit_split (specials : List Char) (text : String) :
    IsSplit specials text (split specials text) := by
  have hpieces : (∀ s ∈ split specials text, s.IsPiece specials) ∧
      (split specials text).IsChain Apart := by
    unfold split
    induction text.toList with
    | nil => exact ⟨by simp, .nil⟩
    | cons c cs ih => exact pieces_prependChar c ih.1 ih.2
  refine ⟨?_, hpieces.1, hpieces.2⟩
  rw [← String.toList_inj, String.toList_join, List.flatMap_map]
  exact flatMap_toList_split specials text

/-- **A piece stays whole.**  It is what its characters become before the other pieces. -/
lemma foldr_prependChar_content {s : Segment} (h : s.IsPiece specials)
    (hapart : (s :: segments).IsChain Apart) :
    s.content.toList.foldr (Segment.prependChar specials) segments = s :: segments := by
  cases s with
  | special c => simpa [content] using prependChar_of_mem h
  | text run =>
    obtain ⟨hne, hplain⟩ := h
    have hlist : ∀ cs : List Char, cs ≠ [] → (∀ c ∈ cs, c ∉ specials) →
        cs.foldr (Segment.prependChar specials) segments = .text (.ofList cs) :: segments := by
      intro cs hcs hcs'
      induction cs with
      | nil => exact absurd rfl hcs
      | cons c cs ih =>
        obtain ⟨hc, hrest⟩ := List.forall_mem_cons.1 hcs'
        rw [List.foldr_cons]
        cases cs with
        | nil => simpa using prependChar_of_notMem hc hapart
        | cons d ds =>
          rw [ih (List.cons_ne_nil d ds) hrest, prependChar_run hc]
          simp [String.ofList_cons]
    have hrun := hlist run.toList (by simpa using hne) hplain
    simpa [content] using hrun

/-- **No choice.**  Pieces that are all that is asked of them are what the text is cut into. -/
lemma IsSplit.eq_split (h : IsSplit specials text segments) : segments = split specials text := by
  unfold split
  rw [← h.flatMap_toList]
  obtain ⟨-, hpieces, hapart⟩ := h
  induction segments with
  | nil => rfl
  | cons s segments ih =>
    obtain ⟨hs, hpieces⟩ := List.forall_mem_cons.1 hpieces
    rw [List.flatMap_cons, List.foldr_append, ← ih hpieces hapart.tail,
      foldr_prependChar_content hs hapart]

/-! ## Reading by offsets -/

/-- The byte offset of the first special character, or the length if there is none. -/
def specialOffset (specials : List Char) : List Char → Nat
  | [] => 0
  | c :: cs => if specials.contains c then 0 else c.utf8Size + specialOffset specials cs

/-- The piece that begins at a byte offset, and the offset after it.  There is none at the end of
the text, and none where a slice would begin or end within a character. -/
def next? (specials : List Char) (text : String) (offset : Nat) : Option (Segment × Nat) := do
  let (_, rest) ← cutAt? text.toList offset
  let c ← rest.head?
  if specials.contains c then
    return (special c, offset + c.utf8Size)
  else
    let (run, _) ← cutAt? rest (specialOffset specials rest)
    return (.text (.ofList run), offset + specialOffset specials rest)

/-- The pieces that are handed out from an offset on, and the offset at which there is no other. -/
inductive Yields (specials : List Char) (text : String) : Nat → List Segment → Nat → Prop
  | stop {offset : Nat} (h : next? specials text offset = none) :
      Yields specials text offset [] offset
  | next {offset offset' last : Nat} {s : Segment} {segments : List Segment}
      (h : next? specials text offset = some (s, offset'))
      (hrest : Yields specials text offset' segments last) :
      Yields specials text offset (s :: segments) last

lemma Yields.unique {offset last last' : Nat} {segments' : List Segment}
    (h : Yields specials text offset segments last)
    (h' : Yields specials text offset segments' last') : segments = segments' ∧ last = last' := by
  induction h generalizing segments' with
  | stop hstop =>
    cases h' with
    | stop _ => exact ⟨rfl, rfl⟩
    | next hnext _ => cases hstop.symm.trans hnext
  | next hnext _ ih =>
    cases h' with
    | stop hstop => cases hstop.symm.trans hnext
    | next hnext' hrest =>
      cases hnext.symm.trans hnext'
      obtain ⟨rfl, rfl⟩ := ih hrest
      exact ⟨rfl, rfl⟩

lemma specialOffset_append {run rest : List Char} (hrun : ∀ c ∈ run, c ∉ specials)
    (hrest : ∀ c ∈ rest.head?, c ∈ specials) :
    specialOffset specials (run ++ rest) = Lexing.utf8Length run := by
  induction run with
  | nil =>
    cases rest with
    | nil => rfl
    | cons c rest =>
      have hc : c ∈ specials := hrest c rfl
      simp [specialOffset, Lexing.utf8Length, hc]
  | cons c run ih =>
    obtain ⟨hc, hrun⟩ := List.forall_mem_cons.1 hrun
    rw [List.cons_append, specialOffset, if_neg (by simpa using hc), ih hrun, Lexing.utf8Length]

/-- What follows a run begins with a special character. -/
lemma head?_mem_of_apart {run : String} (hpieces : ∀ s ∈ segments, s.IsPiece specials)
    (hapart : (Segment.text run :: segments).IsChain Apart) :
    ∀ c ∈ (segments.flatMap (·.content.toList)).head?, c ∈ specials := by
  match segments with
  | [] => simp
  | .text run :: rest => exact absurd (List.isChain_cons_cons.1 hapart).1 id
  | special d :: rest => simpa [content, IsPiece] using (List.forall_mem_cons.1 hpieces).1

/-- **One round.**  After some of the pieces the next one is handed out. -/
lemma next?_eq {before : List Char} {s : Segment}
    (htext : before ++ (s :: segments).flatMap (·.content.toList) = text.toList)
    (hpieces : ∀ p ∈ s :: segments, p.IsPiece specials) (hapart : (s :: segments).IsChain Apart) :
    next? specials text (Lexing.utf8Length before) =
      some (s, Lexing.utf8Length before + s.utf8Length) := by
  obtain ⟨hs, hlater⟩ := List.forall_mem_cons.1 hpieces
  rw [next?, ← htext, cutAt?_append]
  cases s with
  | special c =>
    have hc : c ∈ specials := hs
    simp [content, utf8Length, hc]
  | text run =>
    have hoffset := specialOffset_append hs.2 (head?_mem_of_apart hlater hapart)
    have hcut := cutAt?_append run.toList (segments.flatMap (·.content.toList))
    rw [Lexing.utf8Length_toList run] at hoffset hcut
    obtain ⟨c, cs, hrun⟩ := List.exists_cons_of_ne_nil (l := run.toList) (by simpa using hs.1)
    have hc : c ∉ specials := hs.2 c (by simp [hrun])
    have hhead : (run.toList ++ segments.flatMap (·.content.toList)).head? = some c := by
      simp [hrun]
    have hall : (Segment.text run :: segments).flatMap (·.content.toList) =
        run.toList ++ segments.flatMap (·.content.toList) := rfl
    simp only [hall, Option.bind_eq_bind, Option.bind_some, hhead, hoffset]
    simp only [List.contains_eq_mem, hc, decide_false, Bool.false_eq_true, if_false, hcut]
    simp [utf8Length, content]

/-- **All rounds.**  The offset is the length of the pieces that have been handed out, so the reader
hands out all of them and stops at the end of the text. -/
lemma yields_split (specials : List Char) (text : String) :
    Yields specials text 0 (split specials text) text.utf8ByteSize := by
  have hsplit := isSplit_split specials text
  have hrest : ∀ (before : List Char) (rest : List Segment),
      before ++ rest.flatMap (·.content.toList) = text.toList →
      (∀ s ∈ rest, s.IsPiece specials) → rest.IsChain Apart →
      Yields specials text (Lexing.utf8Length before) rest text.utf8ByteSize := by
    intro before rest
    induction rest generalizing before with
    | nil =>
      intro htext _ _
      obtain rfl : before = text.toList := by simpa using htext
      have hcut := cutAt?_append text.toList []
      rw [List.append_nil] at hcut
      rw [← Lexing.utf8Length_toList text]
      exact .stop (by simp [next?, hcut])
    | cons s rest ih =>
      intro htext hpieces hapart
      refine .next (next?_eq htext hpieces hapart) ?_
      have hlength : Lexing.utf8Length before + s.utf8Length =
          Lexing.utf8Length (before ++ s.content.toList) := by
        rw [Lexing.utf8Length_append, Lexing.utf8Length_toList, utf8Length]
      rw [hlength]
      refine ih _ ?_ (List.forall_mem_cons.1 hpieces).2 hapart.tail
      rw [← htext, List.flatMap_cons, List.append_assoc]
  exact hrest [] _ hsplit.flatMap_toList hsplit.isPiece hsplit.apart

/-! ## Lengths -/

/-- Pieces are as long as what they make up. -/
lemma sum_utf8Length (segments : List Segment) :
    (segments.map utf8Length).sum = (String.join (segments.map content)).utf8ByteSize := by
  induction segments with
  | nil => rfl
  | cons s segments ih => simp [ih, utf8Length, String.utf8ByteSize_append]

/-- **One way to cut a text.**  For any text and any special characters: a reader that goes by byte
offsets hands out the segments of the text, one after the other, and stops at its end; the segments
are the only split of the text; they are as long as the text; and however many of them are taken,
they end between two characters of it. -/
theorem splits_uniquely (specials : List Char) (text : String) :
    (∀ segments last, Yields specials text 0 segments last ↔
      segments = split specials text ∧ last = text.utf8ByteSize) ∧
    (∀ segments, IsSplit specials text segments ↔ segments = split specials text) ∧
    ((split specials text).map utf8Length).sum = text.utf8ByteSize ∧
    ∀ n, String.Pos.Raw.IsValid text ⟨(((split specials text).take n).map utf8Length).sum⟩ := by
  have hsplit := isSplit_split specials text
  refine ⟨fun segments last => ?_, fun segments => ?_, ?_, fun n => ?_⟩
  · constructor
    · intro h
      exact h.unique (yields_split specials text)
    · rintro ⟨rfl, rfl⟩
      exact yields_split specials text
  · constructor
    · exact IsSplit.eq_split
    · rintro rfl
      exact hsplit
  · rw [sum_utf8Length, hsplit.join_eq]
  · refine String.Pos.Raw.isValid_iff_exists_append.2
      ⟨.join (((split specials text).take n).map content),
        .join (((split specials text).drop n).map content), ?_, ?_⟩
    · rw [← String.join_append, ← List.map_append, List.take_append_drop, hsplit.join_eq]
    · rw [sum_utf8Length]
      rfl

example : (split ['é', '_'] "caféx_").map (fun s => (s, s.utf8Length)) =
    [(.text "caf", 3), (special 'é', 2), (.text "x", 1), (special '_', 1)] := by
  decide

end Segment

end Lexing

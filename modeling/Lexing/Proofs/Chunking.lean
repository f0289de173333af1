import Lexing.Proofs.Chains
import Lexing.Proofs.Completeness

/-!
# Where a text is cut does not matter

A text may reach a pipeline in pieces.  If no cut parts a run of plain text, the tokens are those of
the whole text, with the same values and positions, and the pipeline is left in the same state.

Three things are carried over a cut: the segments before it (`Segment.split_append`), the cursor
(`Cursor.place_append`) and the automaton (`Automaton.driveAll_append`).  Together they make two
chunks of text one (`Tokenizer.At.exists_consume_text_append`), and by induction several.  A chain
passes on what its first pass hands out, which is the same, so the main result
`Pipeline.exists_readAll_texts` follows by composition.
-/

namespace Lexing

variable {specials : List Char}

/-! ## Segments -/

namespace Segment

/-- A character joins what follows it only if both are plain. -/
lemma prependChar_append {c : Char} {segments more : List Segment}
    (h : segments = [] → c ∈ specials ∨ ∀ run rest, more ≠ text run :: rest) :
    prependChar specials c (segments ++ more) = prependChar specials c segments ++ more := by
  unfold prependChar
  by_cases hc : specials.contains c = true
  · rw [if_pos hc, if_pos hc, List.cons_append]
  · rw [if_neg hc, if_neg hc]
    have hplain : c ∉ specials := by simpa using hc
    match segments with
    | text run :: rest => rfl
    | special d :: rest => rfl
    | [] =>
      have hmore := (h rfl).resolve_left hplain
      match more with
      | [] => rfl
      | special d :: rest => rfl
      | text run :: rest => exact absurd rfl (hmore run rest)

lemma prependChar_ne_nil (specials : List Char) (c : Char) (segments : List Segment) :
    prependChar specials c segments ≠ [] := by
  unfold prependChar
  split
  · simp
  · split <;> simp

lemma foldr_prependChar_append {cs : List Char} {more : List Segment}
    (h : ∀ c ∈ cs.getLast?, c ∈ specials ∨ ∀ run rest, more ≠ text run :: rest) :
    cs.foldr (prependChar specials) more = cs.foldr (prependChar specials) [] ++ more := by
  induction cs with
  | nil => rfl
  | cons c cs ih =>
    have htail : cs.foldr (prependChar specials) more =
        cs.foldr (prependChar specials) [] ++ more := by
      apply ih
      intro last hlast
      apply h last
      rw [List.getLast?_cons, Option.mem_def.1 hlast]
      rfl
    rw [List.foldr_cons, List.foldr_cons, htail]
    apply prependChar_append
    intro hnil
    match cs with
    | [] => exact h c rfl
    | d :: ds => exact absurd hnil (prependChar_ne_nil specials d _)

/-- A cut next to a special character parts no segment. -/
theorem split_append {s t : String}
    (h : ∀ a ∈ s.toList.getLast?, ∀ b ∈ t.toList.head?, a ∈ specials ∨ b ∈ specials) :
    split specials (s ++ t) = split specials s ++ split specials t := by
  unfold split
  rw [String.toList_append, List.foldr_append]
  apply foldr_prependChar_append
  intro a ha
  match ht : t.toList with
  | [] => exact .inr (by simp)
  | b :: bs =>
    apply (h a ha b (by rw [ht]; rfl)).imp_right
    intro hb run rest hmore
    have hcontains : specials.contains b = true := by simpa using hb
    unfold List.foldr prependChar at hmore
    rw [if_pos hcontains] at hmore
    cases hmore

end Segment

/-! ## Cuts -/

/-- The text that the pieces make up is cut nowhere between two plain characters. -/
def KeepsRuns (specials : List Char) (texts : List String) : Prop :=
  ∀ before after, texts = before ++ after →
    ∀ a ∈ (String.join before).toList.getLast?, ∀ b ∈ (String.join after).toList.head?,
      a ∈ specials ∨ b ∈ specials

namespace KeepsRuns

variable {text : String} {texts : List String}

lemma nil : KeepsRuns specials [] := by
  intro before after h a ha
  obtain ⟨rfl, _⟩ := List.nil_eq_append_iff.1 h
  cases ha

lemma first_cut (h : KeepsRuns specials (text :: texts)) :
    ∀ a ∈ text.toList.getLast?, ∀ b ∈ (String.join texts).toList.head?,
      a ∈ specials ∨ b ∈ specials := by
  intro a ha
  apply h [text] texts rfl a
  simpa using ha

lemma tail (h : KeepsRuns specials (text :: texts)) : KeepsRuns specials texts := by
  intro before after hcut a ha
  apply h (text :: before) after (by rw [hcut, List.cons_append]) a
  rw [String.join_cons, String.toList_append, List.getLast?_append, Option.mem_def.1 ha]
  rfl

/-- The first cut and the others. -/
lemma cons (hfirst : ∀ a ∈ text.toList.getLast?, ∀ b ∈ (String.join texts).toList.head?,
      a ∈ specials ∨ b ∈ specials) (htail : KeepsRuns specials texts) :
    KeepsRuns specials (text :: texts) := by
  intro before after hcut a ha b hb
  match before with
  | [] => cases ha
  | first :: before =>
    obtain ⟨rfl, rfl⟩ := List.cons.inj hcut
    rw [String.join_cons, String.toList_append, List.getLast?_append] at ha
    by_cases hlast : (String.join before).toList.getLast? = none
    · -- only empty pieces are between the first one and the cut
      have hempty : String.join before = "" :=
        String.toList_eq_nil_iff.1 (List.getLast?_eq_none_iff.1 hlast)
      rw [hlast] at ha
      apply hfirst a ha b
      show b ∈ (String.join (before ++ after)).toList.head?
      rwa [String.join_append, hempty, String.empty_append]
    · obtain ⟨last, hlast⟩ := Option.ne_none_iff_exists'.1 hlast
      rw [hlast] at ha
      exact htail before after rfl a (hlast.trans ha) b hb

end KeepsRuns

/-! ## Several chunks of text -/

lemma Cursor.place_append (file? : Option String) (c : Cursor) (segments more : List Segment) :
    c.place file? (segments ++ more) =
      ((c.place file? segments).1 ++ ((c.place file? segments).2.place file? more).1,
        ((c.place file? segments).2.place file? more).2) := by
  induction segments generalizing c with
  | nil => rfl
  | cons segment segments ih => simp only [List.cons_append, place, ih]

namespace Tokenizer

variable {t : Tokenizer} {l : Lexicon} {w : Walker} {text more : String}

lemma symbols_text (hmode : t.config.mode = .character) (specials : List Char) :
    t.symbols specials (.text text) =
      .ok (t.cursor.place t.config.file? (Segment.split specials text)) := by
  simp only [symbols, hmode]

/-- **One cut.**  Two chunks of text are read like one, if the cut between them parts no segment. -/
lemma At.exists_consume_text_append (h : t.At l w) (hopen : t.status = .accepting)
    (hmode : t.config.mode = .character)
    (hcut : Segment.split (t.config.specialChars.resolve l) (text ++ more) =
      Segment.split (t.config.specialChars.resolve l) text ++
        Segment.split (t.config.specialChars.resolve l) more) :
    ∃ tokens t' w' rest t'', t.consume (.text text) = (.ok tokens, t') ∧
      t'.At l w' ∧ t'.config = t.config ∧ t'.status = .accepting ∧
      t'.phase = .compiled (w'.machine t'.config l) ∧
      t'.consume (.text more) = (.ok rest, t'') ∧
      t.consume (.text (text ++ more)) = (.ok (tokens ++ rest), t'') := by
  have hsuits : ∀ content, (Chunk.text content).Suits t.config.mode := fun _ => hmode
  obtain ⟨ss, cursor, _, tokens, w', hss, hrun, hconsume, hat, _⟩ :=
    h.exists_consume hopen (hsuits text)
  obtain ⟨us, cursor', _, rest, w'', hus, hrun', hconsume', _⟩ :=
    hat.exists_consume hopen (hsuits more)
  have hplace := Except.ok.inj ((symbols_text hmode _).symm.trans hss)
  have hplace' : cursor.place t.config.file?
      (Segment.split (t.config.specialChars.resolve l) more) = (us, cursor') := by
    simpa only [symbols, hmode, Except.ok.injEq] using hus
  have hsymbols : t.symbols (t.config.specialChars.resolve l) (.text (text ++ more)) =
      .ok (ss ++ us, cursor') := by
    rw [symbols_text hmode, hcut, Cursor.place_append, hplace]
    exact congrArg (fun r => Except.ok (ss ++ r.1, r.2)) hplace'
  exact ⟨tokens, _, w', rest, _, hconsume, hat, rfl, hopen, rfl, hconsume',
    h.consume_eq hopen hsymbols (Automaton.driveAll_append hrun hrun')⟩

/-- An empty text changes nothing, once the lexicon is compiled. -/
lemma At.consume_text_empty (h : t.At l w) (hopen : t.status = .accepting)
    (hmode : t.config.mode = .character)
    (hphase : t.phase = .compiled (w.machine t.config l)) :
    t.consume (.text "") = (.ok [], t) := by
  have hsymbols : t.symbols (t.config.specialChars.resolve l) (.text "") = .ok ([], t.cursor) := by
    rw [symbols_text hmode]
    rfl
  have hrun : (w.automaton (.ofLexicon l) l).driveAll [] =
      .ok ([], w.automaton (.ofLexicon l) l) := rfl
  rw [h.consume_eq hopen hsymbols hrun, ← hphase]

/-- **Several cuts.**  Induction over the pieces. -/
lemma At.exists_consumeAll_texts (h : t.At l w) (hopen : t.status = .accepting)
    (hmode : t.config.mode = .character) (hphase : t.phase = .compiled (w.machine t.config l))
    {texts : List String} (hcuts : KeepsRuns (t.config.specialChars.resolve l) texts) :
    ∃ tokens t', (Pipeline.single t).consumeAll (texts.map .text) = (.ok tokens, .single t') ∧
      t.consume (.text (String.join texts)) = (.ok tokens, t') := by
  induction texts generalizing t w with
  | nil => exact ⟨[], t, rfl, h.consume_text_empty hopen hmode hphase⟩
  | cons text texts ih =>
    obtain ⟨tokens, t₁, w', rest, t₂, hconsume, hat, hconfig, hopen', hphase', hmore, hboth⟩ :=
      h.exists_consume_text_append hopen hmode (Segment.split_append hcuts.first_cut)
    rw [← hconfig] at hcuts hmode
    obtain ⟨rest', t', hall, hjoin⟩ := ih hat hopen' hmode hphase' hcuts.tail
    cases hmore.symm.trans hjoin
    have hone := Pipeline.consume_single_eq_iff.2 ⟨t₁, hconsume, rfl⟩
    refine ⟨tokens ++ rest, t₂, ?_, ?_⟩
    · exact Pipeline.consumeAll_cons_eq_ok_iff.2 ⟨tokens, _, rest, hone, hall, rfl⟩
    · rwa [String.join_cons]

end Tokenizer

/-! ## Pipelines -/

namespace Pipeline

variable {s : Shape} {p : Pipeline s} {machine : Machine} {texts : List String}

/-- A run over the pieces has the result that a run over the whole has. -/
lemma Takes.readAll_texts_eq_ok_iff (h : p.Takes) (hmode : p.head.config.mode = .character)
    (hphase : p.head.phase = .compiled machine) (hcuts : KeepsRuns machine.specials texts)
    {out : List Token} {q : Pipeline s} :
    p.readAll (texts.map .text) = (.ok out, q) ↔
      p.readAll [.text (String.join texts)] = (.ok out, q) := by
  induction p generalizing out with
  | single t =>
    obtain ⟨l, w, hat⟩ := h.every.exists_at
    have hmachine := (Tokenizer.machine_of_compiled hphase).symm.trans hat.machine_eq
    cases hmachine
    obtain ⟨tokens, t', hall, hjoin⟩ :=
      hat.exists_consumeAll_texts h.every.accepting hmode hphase hcuts
    have hone : (single t).consumeAll [.text (String.join texts)] = (.ok tokens, single t') := by
      simp only [consumeAll, consume, hjoin, List.append_nil]
    rw [readAll, readAll, hall, hone]
  | chain first second ih _ =>
    simp only [readAll_chain_eq_ok_iff, ih (takes_chain_iff.1 h).1 hmode hphase]

/-- **Where a text is cut does not matter.**  Take a pipeline of any shape whose passes take chunks,
whatever they have read before and whatever is pending, and of which the first reads text and has
compiled its lexicon.  The tokens for the pieces of a text and at the end are those for the whole
text, if no cut parts a run of plain text. -/
theorem exists_readAll_texts (h : p.Takes) (hmode : p.head.config.mode = .character)
    (hphase : p.head.phase = .compiled machine) (hcuts : KeepsRuns machine.specials texts) :
    ∃ tokens p', p.readAll (texts.map .text) = (.ok tokens, p') ∧
      p.tokenize (String.join texts) = (.ok tokens, p') := by
  have hchunks : ∀ chunk ∈ [Chunk.text (String.join texts)], chunk.Suits p.mode := by
    simpa [Chunk.Suits, mode_eq_head] using hmode
  obtain ⟨tokens, p', hwhole⟩ := h.exists_readAll hchunks
  refine ⟨tokens, p', (h.readAll_texts_eq_ok_iff hmode hphase hcuts).2 hwhole, ?_⟩
  rw [tokenize_eq_readAll, hwhole]

/-- Four pieces, one of them empty, that part a run of marks but no text. -/
theorem exists_readAll_texts_outline :
    ∃ t tokens p', Tokenizer.marker.prepare = .ok t ∧
      (chain (single t) (single .outliner)).readAll
          [.text "so#", .text "#one", .text "", .text "##"] = (.ok tokens, p') ∧
      (chain (single t) (single .outliner)).tokenize "so##one##" = (.ok tokens, p') := by
  obtain ⟨machine, hprepare, hspecials⟩ : ∃ machine,
      Tokenizer.marker.prepare = .ok { Tokenizer.marker with phase := .compiled machine } ∧
        machine.specials = ['#'] := ⟨_, rfl, by decide⟩
  have hfirst := takes_single_iff.2 (Tokenizer.ready_marker.takes.prepare hprepare)
  have hsecond := takes_single_iff.2 Tokenizer.ready_outliner.takes
  have hcuts : KeepsRuns machine.specials ["so#", "#one", "", "##"] := by
    rw [hspecials]
    refine .cons ?_ (.cons ?_ (.cons ?_ (.cons ?_ .nil))) <;> simp
  obtain ⟨tokens, p', hpieces, hwhole⟩ :=
    exists_readAll_texts (takes_chain_iff.2 ⟨hfirst, hsecond, rfl⟩) rfl rfl hcuts
  exact ⟨_, tokens, p', hprepare, hpieces, hwhole⟩

end Pipeline

end Lexing

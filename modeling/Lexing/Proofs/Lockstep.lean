import Lexing.Proofs.Conservation

/-!
# Walkers in lockstep

Two lexicons may differ and still run alike.  What there is to see of an automaton is what its steps
show, one by one, and the tokens that come out when symbols are driven through it
(`Automaton.AgreeOn`).

Both are settled on the tries.  It is enough to pair the walkers on one with walkers on the other in
such a way that a step shows the same on both sides and leads to a pair again (`Walker.Lockstep`).
Runs then agree by induction (`Walker.Lockstep.agreeOn`); a symbol that is asked for again is the
same on both sides, and finds both walkers at their start.
-/

namespace Lexing

open StateTable

/-- The two automata cannot be told apart by the symbols, and neither of them fails on them. -/
structure Automaton.AgreeOn (a b : Automaton) (ss : List Symbol) : Prop where
  /-- When the symbols are presented, each step shows the same. -/
  exists_outcomes : ∃ shown, a.outcomes ss = .ok shown ∧ b.outcomes ss = .ok shown
  /-- When they are driven through, the same tokens come out. -/
  exists_tokens : ∃ tokens a' b',
    a.driveAll ss = .ok (tokens, a') ∧ b.driveAll ss = .ok (tokens, b')

namespace Walker

/-- Walkers on two tries that form a pair see the same on every symbol of a kind, and form a pair
again after it. -/
structure Lockstep (t : Trie) (l : Lexicon) (t' : Trie) (l' : Lexicon) (along : Symbol → Prop)
    (paired : Walker → Walker → Prop) : Prop where
  start : paired start start
  step : ∀ {w w' : Walker} {s : Symbol}, paired w w' → w.Sound t → w'.Sound t' → along s →
    (w.step t l s).1 = (w'.step t' l' s).1 ∧ paired (w.step t l s).2 (w'.step t' l' s).2

namespace Lockstep

variable {t t' : Trie} {l l' : Lexicon} {along : Symbol → Prop}
  {paired : Walker → Walker → Prop} {w w' : Walker} {s : Symbol} {ss : List Symbol}

lemma outcomes_eq (h : Lockstep t l t' l' along paired) (ht : t.Fits l) (ht' : t'.Fits l')
    (hpaired : paired w w') (hw : w.Sound t) (hw' : w'.Sound t') (hss : ∀ s ∈ ss, along s) :
    w.outcomes t l ss = w'.outcomes t' l' ss := by
  induction ss generalizing w w' with
  | nil => rfl
  | cons s ss ih =>
    rw [List.forall_mem_cons] at hss
    obtain ⟨hshown, hnext⟩ := h.step hpaired hw hw' hss.1
    rw [outcomes, outcomes, hshown, ih hnext (hw.step ht s) (hw'.step ht' s) hss.2]

/-- **One symbol.**  If it is asked for again, it is so on both sides. -/
lemma exists_drive (h : Lockstep t l t' l' along paired) (ht : t.Fits l) (ht' : t'.Fits l')
    (hpaired : paired w w') (hw : w.Sound t) (hw' : w'.Sound t') (hs : along s) :
    ∃ (tokens : List Token) (v v' : Walker),
      (w.automaton t l).drive s = .ok (tokens, v.automaton t l) ∧
      (w'.automaton t' l').drive s = .ok (tokens, v'.automaton t' l') ∧
      paired v v' ∧ v.Sound t ∧ v'.Sound t' := by
  have hstep := step_automaton ht hw s
  have hstep' := step_automaton ht' hw' s
  obtain ⟨hshown, hnext⟩ := h.step hpaired hw hw' hs
  by_cases hsignal : (w.step t l s).1.signal = .replay
  · have hsignal' : (w'.step t' l' s).1.signal = .replay := hshown ▸ hsignal
    have hagain := step_image_of_replay ht hsignal
    have hagain' := step_image_of_replay ht' hsignal'
    obtain ⟨hshown₂, hnext₂⟩ := h.step h.start (sound_start ht) (sound_start ht') hs
    refine ⟨_, _, _, Automaton.drive_of_replay hstep hsignal hagain, ?_, hnext₂,
      (sound_start ht).step ht s, (sound_start ht').step ht' s⟩
    rw [Automaton.drive_of_replay hstep' hsignal' hagain']
    simp only [image, hshown, hshown₂]
  · have hsignal' : (w'.step t' l' s).1.signal ≠ .replay := hshown ▸ hsignal
    refine ⟨_, _, _, Automaton.drive_of_ne_replay hstep hsignal, ?_, hnext, hw.step ht s,
      hw'.step ht' s⟩
    rw [Automaton.drive_of_ne_replay hstep' hsignal']
    simp only [image, hshown]

lemma exists_driveAll (h : Lockstep t l t' l' along paired) (ht : t.Fits l) (ht' : t'.Fits l')
    (hpaired : paired w w') (hw : w.Sound t) (hw' : w'.Sound t') (hss : ∀ s ∈ ss, along s) :
    ∃ (tokens : List Token) (v v' : Walker),
      (w.automaton t l).driveAll ss = .ok (tokens, v.automaton t l) ∧
      (w'.automaton t' l').driveAll ss = .ok (tokens, v'.automaton t' l') := by
  induction ss generalizing w w' with
  | nil => exact ⟨[], w, w', rfl, rfl⟩
  | cons s ss ih =>
    rw [List.forall_mem_cons] at hss
    obtain ⟨tokens, v, v', hdrive, hdrive', hnext, hv, hv'⟩ :=
      h.exists_drive ht ht' hpaired hw hw' hss.1
    obtain ⟨more, u, u', hrest, hrest'⟩ := ih hnext hv hv' hss.2
    refine ⟨tokens ++ more, u, u', ?_, ?_⟩
    · simp only [Automaton.driveAll, hdrive, hrest]
    · simp only [Automaton.driveAll, hdrive', hrest']

/-- **Runs agree.** -/
theorem agreeOn (h : Lockstep t l t' l' along paired) (ht : t.Fits l) (ht' : t'.Fits l')
    (hss : ∀ s ∈ ss, along s) :
    (Automaton.new (ofTrie t l)).AgreeOn (.new (ofTrie t' l')) ss := by
  have hw := sound_start ht
  have hw' := sound_start ht'
  rw [← automaton_start ht, ← automaton_start ht']
  obtain ⟨tokens, v, v', hdrive, hdrive'⟩ := h.exists_driveAll ht ht' h.start hw hw' hss
  refine ⟨⟨Walker.start.outcomes t l ss, outcomes_automaton ht hw ss, ?_⟩,
    ⟨tokens, _, _, hdrive, hdrive'⟩⟩
  rw [h.outcomes_eq ht ht' h.start hw hw' hss]
  exact outcomes_automaton ht' hw' ss

end Lockstep

end Walker

end Lexing

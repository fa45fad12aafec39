import Understudy.Proofs.ParsedLengths
import Understudy.Proofs.RespacedTokens

/-!
# Lexemes with an end mark

Block comments and the three forms of quoted literals have one thing in common: they go on to their
own end mark, over whatever stands in between. They are the only lexemes with a line end inside
(`Lexeme.StandsBefore.newline_cases`), so they are all that a change of the blanks around line ends
can reach.
-/

set_option autoImplicit false

namespace Understudy.Source

open Text

/-! ## Lexemes with an end mark -/

namespace Enclosed

variable {e : Enclosed} {m : List Char}

/-- No blank stands at the front of such a lexeme. -/
theorem start_graphic (e : Enclosed) : e.start ≠ [] ∧ ∀ c ∈ e.start, isBlank c = false := by
  have hgraphic : ∀ c ∈ e.start, 0x20 < c.toNat ∧ c.toNat < 0x7f := by
    cases e <;> simp [start]
  refine ⟨?_, fun c hc => isBlank_of_graphic (hgraphic c hc)⟩
  cases e <;> exact List.cons_ne_nil _ _

/-- **Such a lexeme stands before anything.** -/
theorem stands (h : e.Closes m) (rest : List Char) :
    (e.make (e.start ++ m)).StandsBefore rest := by
  obtain ⟨c, cs, hstart⟩ := List.exists_cons_of_ne_nil e.start_graphic.1
  have hcs : c :: (cs ++ (m ++ rest)) = e.start ++ (m ++ rest) := by rw [hstart]; rfl
  refine ⟨c, cs ++ (m ++ rest), ?_, (IsFirst.enclosed e h hcs rfl).next_eq⟩
  rw [make_text, List.append_assoc, hcs]

end Enclosed

/-- **A lexeme with a line end in it** is the line end, or goes on to an end mark. -/
theorem Lexeme.StandsBefore.newline_cases {x : Lexeme} {rest : List Char} (h : x.StandsBefore rest)
    (hg : x.isBad = false) (hn : '\n' ∈ x.text) :
    x = .layout ['\n'] ∨ ∃ e : Enclosed, ∃ m, x = e.make (e.start ++ m) ∧ e.Closes m := by
  obtain ⟨c, cs, -, hnext⟩ := h
  have hsign : operatorOrBad c cs ≠ (x, rest) := by
    intro ho
    cases x with
    | layout text => exact absurd ho operatorOrBad_ne_layout
    | bad text => cases hg
    | token k text =>
      obtain ⟨p, hp, -, rfl⟩ := operatorOrBad_token ho
      exact absurd ((operators_not_blank p hp).2 '\n' hn) (by decide)
  have hnumber : ∀ {start : List Char} {last : Char} {cs : List Char},
      (∀ d ∈ start, isNumberChar d = true) → number start last cs ≠ (x, rest) := by
    intro start last cs hstart h
    rw [← (Prod.mk.inj h).1, Lexeme.text_token] at hn
    have hall := List.forall_mem_append.2 ⟨hstart, numberTail_chars _ _ _⟩ '\n' hn
    exact absurd hall (by decide)
  cases isFirst_of_next hnext hg with
  | blank _ h =>
    obtain rfl := (Prod.mk.inj h).1
    exact Or.inl (by rw [List.mem_singleton.1 hn])
  | word hc h =>
    cases x with
    | layout text => cases h
    | bad text => cases hg
    | token k text =>
      have hword := mem_of_isWord (word_text hc h) '\n' (by simpa using hn)
      exact absurd hword (by decide +kernel)
  | number hd h => exact absurd h (hnumber (by simpa using isNumberChar_of_isDigit hd))
  | point _ _ hd h =>
    exact absurd h (hnumber (by simpa using ⟨by decide, isNumberChar_of_isDigit hd⟩))
  | @line us _ _ h =>
    -- A comment to the end of the line ends in front of it.
    rw [← (Prod.mk.inj h).1, Lexeme.text_layout] at hn
    have hline : '\n' ∈ us.takeWhile (· != '\n') := by simpa using hn
    exact absurd (List.mem_takeWhile_imp hline) (by decide)
  | enclosed e hm _ hl => exact Or.inr ⟨e, _, hl, hm⟩
  | sign _ _ _ _ _ h => exact absurd h hsign

/-! ## Blanks in such a lexeme -/

section Tails

variable {c : Char} {t : List Char}

theorem blockComment_closes_cons : blockCommentTail? (c :: t) = some (c :: t, []) ↔
    (c = '*' ∧ t = ['/']) ∨
      (¬ (c = '*' ∧ t.head? = some '/') ∧ blockCommentTail? t = some (t, [])) := by
  by_cases hc : c = '*' ∧ t.head? = some '/'
  · obtain ⟨rfl, ht⟩ := hc
    obtain ⟨u, rfl⟩ := List.head?_eq_some_iff.1 ht
    rw [blockCommentTail?]
    simp
  · have hnext : blockCommentTail? (c :: t) =
        (blockCommentTail? t).map fun r => (c :: r.1, r.2) := by
      refine blockCommentTail?.eq_2 c t fun u hstar ht => hc ⟨hstar, ?_⟩
      rw [ht]
      rfl
    rw [hnext]
    have hno : ¬ (c = '*' ∧ t = ['/']) := fun h => hc ⟨h.1, by rw [h.2]; rfl⟩
    simp [hc, hno, Prod.ext_iff]

theorem rawTail_closes_cons : rawTail? (c :: t) = some (c :: t, []) ↔
    (c = '\x60' ∧ t = []) ∨ (c ≠ '\x60' ∧ rawTail? t = some (t, [])) := by
  rw [rawTail?]
  by_cases hc : c = '\x60' <;> simp [hc, Prod.ext_iff]

theorem quoted_closes_cons {q : Char} (hb : c ≠ '\\') (hn : c ≠ '\n') :
    quotedTail? q (c :: t) = some (c :: t, []) ↔
      (c = q ∧ t = []) ∨ (c ≠ q ∧ quotedTail? q t = some (t, [])) := by
  rw [quotedTail?_cons hb hn]
  by_cases hc : c = q <;> simp [hc, Prod.ext_iff]

theorem quoted_closes_escape {q : Char} : quotedTail? q ('\\' :: c :: t) = some ('\\' :: c :: t, []) ↔
    quotedTail? q t = some (t, []) := by
  rw [quotedTail?]
  simp [Prod.ext_iff]

end Tails

end Understudy.Source

import Understudy.Proofs.JoinedTexts

/-!
# Slices of the source text

What a file keeps of its source is put together from tokens and the gaps in front of them
(`Token.inner`, `Token.spell`). Tokens lie one behind another (`Token.Placed`), so

> **the text between two tokens and the text of a run of tokens are slices of the source**
> (`isSlice_inner`, `isSlice_spell`),

from the end of one token to the start of another, and from the start of the first to the end of the
last. This holds of semicolons without text as well, which have a place of their own in the source.
-/

set_option autoImplicit false

namespace Understudy.Source

open Text

/-! ## Places of tokens -/

/-- Whether tokens lie one behind another from a byte offset on, each behind its gap. -/
def Token.Placed : Nat → List Token → Prop
  | _, [] => True
  | offset, t :: ts => t.start = offset + t.gap.utf8ByteSize ∧ Placed t.stop ts

/-- **The tokens of a text lie one behind another.** -/
theorem Scanner.placed {s : Scanner} {ls : List Lexeme} {offset : Nat}
    (hgood : ∀ l ∈ ls, l.isBad = false) (hs : s.offset = offset + byteSize s.gap) :
    Token.Placed offset (s.tokensToEnd ls) := by
  have hgap : s.offset = offset + (String.ofList s.gap).utf8ByteSize := by
    rw [utf8ByteSize_eq, String.toList_ofList, hs]
  induction ls generalizing s offset with
  | nil =>
    rw [tokensToEnd_nil, finish]
    split
    · exact ⟨hgap, trivial⟩
    · trivial
  | cons l ls ih =>
    obtain ⟨hl, hrest⟩ := List.forall_mem_cons.1 hgood
    have ih := fun {s : Scanner} {offset : Nat} (hs : s.offset = offset + byteSize s.gap) =>
      @ih s offset hrest hs (by rw [utf8ByteSize_eq, String.toList_ofList, hs])
    cases l with
    | bad text => exact absurd hl (by simp [Lexeme.isBad])
    | token kind text =>
      rw [tokensToEnd_token]
      refine ⟨hgap, ih ?_⟩
      rw [Token.stop_eq, token_text, String.toList_ofList]
      rfl
    | layout text =>
      rw [tokensToEnd_layout, step]
      split
      · -- The semicolon ends where it starts, in front of the layout.
        exact ⟨hgap, ih rfl⟩
      · refine ih ?_
        rw [byteSize_append, ← Nat.add_assoc, ← hs]

namespace Token

theorem Placed.start_eq {offset : Nat} {pre post : List Token} {t : Token}
    (h : Placed offset (pre ++ t :: post)) :
    t.start = offset + (spellAll pre ++ t.gap).utf8ByteSize := by
  induction pre generalizing offset with
  | nil => rw [h.1, spellAll, String.empty_append]
  | cons u pre ih =>
    rw [ih h.2, stop, h.1]
    simp only [spellAll, String.utf8ByteSize_append, Nat.add_assoc]

end Token

/-! ## Slices -/

theorem IsSlice.le {source text : String} {start stop : Nat} (h : IsSlice source start stop text) :
    start ≤ stop := by
  obtain ⟨before, -, -, rfl, rfl⟩ := h
  rw [String.utf8ByteSize_append]
  exact Nat.le_add_right _ _

/-- A text is its tokens with their gaps, and what is left behind the last of them. -/
theorem tokenize_spelled {source : String} {ts : List Token} (h : tokenize source = .ok ts) :
    (∃ layout, source = Token.spellAll ts ++ layout) ∧ Token.Placed 0 ts := by
  obtain ⟨hgood, rfl⟩ := tokenize_ok h
  constructor
  · refine ⟨_, Eq.trans ?_ (Scanner.start.spellAll_tokensToEnd hgood).symm⟩
    simp [spellLexemes_lexemes, Scanner.start]
  · exact Scanner.placed hgood rfl

section Tokens

variable {source : String} {pre run post : List Token}

/-- **The text between two tokens** is what stands between them in the source. -/
theorem isSlice_inner {opening close : Token}
    (h : tokenize source = .ok (pre ++ opening :: (run ++ close :: post))) :
    IsSlice source opening.stop close.start (Token.inner run close) := by
  obtain ⟨⟨layout, hsource⟩, hplaced⟩ := tokenize_spelled h
  have hopen := hplaced.start_eq
  have hall : Token.Placed 0 ((pre ++ opening :: run) ++ close :: post) := by simpa using hplaced
  have hclose := hall.start_eq
  refine ⟨Token.spellAll pre ++ opening.gap ++ opening.text,
    close.text ++ Token.spellAll post ++ layout, ?_, ?_, ?_⟩
  · rw [hsource, Token.inner]
    simp only [Token.spellAll_append, Token.spellAll, String.append_assoc]
  · rw [Token.stop, hopen, Nat.zero_add, ← String.utf8ByteSize_append]
  · rw [hclose, Nat.zero_add, Token.inner]
    simp only [Token.spellAll_append, Token.spellAll, String.append_assoc]

/-- **The text of a run of tokens** is what stands there in the source, from the start of the first
to the end of the last. -/
theorem isSlice_spell {first last : Token} (h : tokenize source = .ok (pre ++ (run ++ post)))
    (hfirst : run.head? = some first) (hlast : run.getLast? = some last) :
    IsSlice source first.start last.stop (Token.spell run) := by
  obtain ⟨⟨layout, hsource⟩, hplaced⟩ := tokenize_spelled h
  obtain ⟨tail, rfl⟩ := List.head?_eq_some_iff.1 hfirst
  obtain ⟨init, hinit⟩ := List.getLast?_eq_some_iff.1 hlast
  have hbegin := hplaced.start_eq
  have hall : Token.Placed 0 ((pre ++ init) ++ last :: post) := by
    rw [hinit] at hplaced
    simpa using hplaced
  have hend := hall.start_eq
  have hspell : Token.spellAll pre ++ first.gap ++ Token.spell (first :: tail) =
      Token.spellAll pre ++ Token.spellAll init ++ last.gap ++ last.text := by
    have hall := congrArg (fun ts => Token.spellAll pre ++ Token.spellAll ts) hinit
    simp only [Token.spellAll_append, Token.spellAll, String.append_empty] at hall
    rw [Token.spell]
    simpa only [String.append_assoc] using hall
  refine ⟨Token.spellAll pre ++ first.gap, Token.spellAll post ++ layout, ?_, ?_, ?_⟩
  · rw [hsource, Token.spell]
    simp only [Token.spellAll_append, Token.spellAll, String.append_assoc]
  · rw [hbegin, Nat.zero_add]
  · rw [hspell, Token.stop, hend, Nat.zero_add, Token.spellAll_append,
      ← String.utf8ByteSize_append]

/-- **The text in front of the first token** is its gap. -/
theorem isSlice_header {t : Token} (h : tokenize source = .ok (t :: post)) :
    IsSlice source 0 t.start t.gap := by
  obtain ⟨⟨layout, hsource⟩, hplaced⟩ := tokenize_spelled h
  refine ⟨"", t.text ++ Token.spellAll post ++ layout, ?_, rfl, ?_⟩
  · rw [hsource, Token.spellAll, String.empty_append]
    simp only [String.append_assoc]
  · rw [hplaced.1, Nat.zero_add, String.empty_append]

end Tokens

end Understudy.Source

import Understudy.Proofs.TokenSpans

/-!
# Texts joined by a line end

A stub is put together from pieces that are rendered one by one, and its tokens should be known from
the tokens of the pieces. They are, because nothing reaches over a line end between two pieces:

> **two texts joined by a line end have the tokens of the one and then those of the other**
> (`tokenize_joined`).

The line end takes the place of the end of the first text. Where that ended a statement, the line
end does, at the same offset; where it did not, the line end is one more blank before the first
token of the second text.
-/

set_option autoImplicit false

namespace Understudy.Source

open Text

/-- **The lexemes of two texts joined by a line end.** -/
theorem lexemes_joined {a : List Char} (ha : ∀ l ∈ lexemes a, l.isBad = false) (b : List Char) :
    lexemes (a ++ '\n' :: b) = lexemes a ++ .layout ['\n'] :: lexemes b := by
  have hl := lexemes_spell_append ((standBefore_lexemes a).before_newline ha b)
  rw [spellLexemes_lexemes] at hl
  have hline := lexemes_of_standsBefore
    (Lexeme.standsBefore_of_isFree (l := .layout ['\n']) (by decide) b)
  rw [hl, ← hline]
  rfl

/-! ## A text further on -/

/-- The token as it is where `k` more bytes stand before it. -/
def Token.shift (k : Nat) (t : Token) : Token := { t with start := t.start + k }

theorem Token.spellAll_append (ts us : List Token) :
    spellAll (ts ++ us) = spellAll ts ++ spellAll us := by
  induction ts with
  | nil => simp [spellAll]
  | cons t ts ih => simp [spellAll, ih, String.append_assoc]

namespace Scanner

/-- The scanner as it is where `k` more bytes stand before it, the last of which are layout. -/
def behind (s : Scanner) (k : Nat) (layout : List Char) : Scanner :=
  { offset := s.offset + k, pending := s.pending, gap := layout ++ s.gap }

variable (s : Scanner) (k : Nat) (layout : List Char)

@[simp] theorem behind_pending : (s.behind k layout).pending = s.pending := rfl

theorem step_behind_token (kind : Kind) (text : List Char) :
    (s.behind k layout).step (.token kind text) = (s.step (.token kind text)).behind k [] := by
  simp [step, behind, Nat.add_right_comm]

/-- A line end that ends a statement ends the layout before it. -/
theorem step_behind_layout (text : List Char) :
    (s.behind k layout).step (.layout text) =
      (s.step (.layout text)).behind k (if s.pending && text.contains '\n' then [] else layout) := by
  rw [step, step, behind_pending]
  split <;> simp [behind, Nat.add_right_comm]

theorem lineEnd_behind (ts : List Token) :
    (s.behind k layout).lineEnd :: ts.map (Token.shift k) =
      Token.afterLayout layout ((s.lineEnd :: ts).map (Token.shift k)) := by
  simp [Token.afterLayout, Token.shift, lineEnd, behind]

theorem token_behind (kind : Kind) (text : List Char) (ts : List Token) :
    (s.behind k layout).token kind text :: ts.map (Token.shift k) =
      Token.afterLayout layout ((s.token kind text :: ts).map (Token.shift k)) := by
  simp [Token.afterLayout, Token.shift, token, behind]

/-- **Further on in a text there are the same tokens**, and the first of them has the layout before
it. -/
theorem tokensToEnd_behind {ls : List Lexeme} (h : ∀ l ∈ ls, l.isBad = false) :
    (s.behind k layout).tokensToEnd ls =
      Token.afterLayout layout ((s.tokensToEnd ls).map (Token.shift k)) := by
  induction ls generalizing s layout with
  | nil =>
    rw [tokensToEnd_nil, tokensToEnd_nil, finish, finish, behind_pending]
    split
    · exact s.lineEnd_behind k layout []
    · rfl
  | cons l ls ih =>
    obtain ⟨hl, hrest⟩ := List.forall_mem_cons.1 h
    cases l with
    | bad text => exact absurd hl (by simp [Lexeme.isBad])
    | token kind text =>
      rw [tokensToEnd_token, tokensToEnd_token, step_behind_token, ih _ _ hrest,
        Token.afterLayout_nil, token_behind]
    | layout text =>
      rw [tokensToEnd_layout, tokensToEnd_layout, behind_pending, step_behind_layout,
        ih _ _ hrest]
      split
      · rw [Token.afterLayout_nil, lineEnd_behind]
      · rfl

/-! ## The line end -/

theorem offset_after {ls : List Lexeme} (h : ∀ l ∈ ls, l.isBad = false) :
    (s.after ls).offset = s.offset + byteSize (spellLexemes ls) := by
  induction ls generalizing s with
  | nil => rfl
  | cons l ls ih =>
    obtain ⟨hl, hrest⟩ := List.forall_mem_cons.1 h
    have hstep : (s.step l).offset = s.offset + byteSize l.text := by
      cases l with
      | bad text => exact absurd hl (by simp [Lexeme.isBad])
      | token kind text => rfl
      | layout text =>
        rw [step]
        split <;> rfl
    rw [after_cons, ih _ hrest, hstep, spellLexemes_cons, byteSize_append, Nat.add_assoc]

/-- The layout behind the last token, the semicolon at the end included. -/
def rest (s : Scanner) : List Char := if s.pending then [] else s.gap

/-- A line end ends what the end of the text would end. -/
theorem emit_newline : s.emit (.layout ['\n']) = s.finish := by
  simp [emit, finish]

theorem step_newline : s.step (.layout ['\n']) = start.behind (s.offset + 1) (s.rest ++ ['\n']) := by
  have hsize : byteSize ['\n'] = 1 := rfl
  rw [step, rest]
  cases hp : s.pending <;> simp [behind, start, hsize]

/-- The tokens of a text, spelled out, and the layout at its end. -/
theorem spellAll_tokensToEnd {ls : List Lexeme} (h : ∀ l ∈ ls, l.isBad = false) :
    Token.spellAll (s.tokensToEnd ls) ++ String.ofList (s.after ls).rest =
      String.ofList (s.gap ++ spellLexemes ls) := by
  rw [← spellAll_tokens s h, tokensToEnd, Token.spellAll_append, finish, rest]
  cases hp : (s.after ls).pending <;> simp [Token.spellAll, lineEnd]

end Scanner

/-! ## Tokens of joined texts -/

/-- What a token is and where it stands. -/
def Token.place (t : Token) : Kind × String × Nat × Nat := (t.kind, t.text, t.start, t.stop)

theorem Token.place_shift (k : Nat) (t : Token) :
    (t.shift k).place = (t.kind, t.text, t.start + k, t.stop + k) := by
  simp [place, shift, stop, Nat.add_right_comm]

theorem Token.map_place_afterLayout (layout : List Char) (ts : List Token) :
    (afterLayout layout ts).map place = ts.map place := by
  cases ts <;> rfl

/-- **Two texts joined by a line end have the tokens of the one and then those of the other**, which
stand further on by the first text and the line end. The layout at the end of the first text and the
line end stand before the first of them. -/
theorem tokenize_joined {a b : String} {ts us : List Token} (ha : tokenize a = .ok ts)
    (hb : tokenize b = .ok us) : ∃ vs layout, tokenize (a ++ "\n" ++ b) = .ok (ts ++ vs) ∧
      vs.map Token.place = us.map (fun u =>
        (u.kind, u.text, u.start + (a.utf8ByteSize + 1), u.stop + (a.utf8ByteSize + 1))) ∧
      vs = Token.afterLayout (layout ++ ['\n']) (us.map (Token.shift (a.utf8ByteSize + 1))) ∧
      Token.spellAll ts ++ String.ofList layout = a := by
  obtain ⟨hga, rfl⟩ := tokenize_ok ha
  obtain ⟨hgb, rfl⟩ := tokenize_ok hb
  have hjoined : (a ++ "\n" ++ b).toList = a.toList ++ '\n' :: b.toList := by simp
  have hlex := lexemes_joined hga b.toList
  have hgood : ∀ l ∈ lexemes (a ++ "\n" ++ b).toList, l.isBad = false := by
    rw [hjoined, hlex]
    exact List.forall_mem_append.2 ⟨hga, List.forall_mem_cons.2 ⟨rfl, hgb⟩⟩
  have hoffset : (Scanner.start.after (lexemes a.toList)).offset = a.utf8ByteSize := by
    rw [Scanner.offset_after _ hga, spellLexemes_lexemes, utf8ByteSize_eq]
    exact Nat.zero_add _
  refine ⟨_, (Scanner.start.after (lexemes a.toList)).rest, ?_, ?_, rfl, ?_⟩
  · rw [tokenize_eq hgood, hjoined, hlex, Scanner.tokens_append, Scanner.after_append,
      Scanner.tokens, Scanner.after_cons, Scanner.emit_newline, Scanner.step_newline, hoffset,
      List.append_assoc, List.append_assoc, List.append_assoc]
    exact congrArg _ (congrArg _ (congrArg _ (Scanner.tokensToEnd_behind _ _ _ hgb)))
  · rw [Token.map_place_afterLayout, List.map_map]
    exact List.map_congr_left fun u _ => u.place_shift _
  · refine (Scanner.spellAll_tokensToEnd _ hga).trans ?_
    simp [spellLexemes_lexemes, Scanner.start]

/-- A comment with a line end in it ends the statement, and one that goes on to the end of the text
ends where the texts are joined. -/
theorem tokenize_joined_comments : ∃ vs layout,
    tokenize ("x /*\n*/ // y" ++ "\n" ++ "z") =
      .ok ([⟨.ident, "", "x", 0⟩, ⟨.semi, " ", "", 2⟩] ++ vs) ∧
    vs.map Token.place = [Token.mk .ident "" "z" 0, ⟨.semi, "", "", 1⟩].map (fun u =>
      (u.kind, u.text, u.start + ("x /*\n*/ // y".utf8ByteSize + 1),
        u.stop + ("x /*\n*/ // y".utf8ByteSize + 1))) ∧
    vs = Token.afterLayout (layout ++ ['\n'])
      ([Token.mk .ident "" "z" 0, ⟨.semi, "", "", 1⟩].map
        (Token.shift ("x /*\n*/ // y".utf8ByteSize + 1))) ∧
    Token.spellAll [⟨.ident, "", "x", 0⟩, ⟨.semi, " ", "", 2⟩] ++ String.ofList layout =
      "x /*\n*/ // y" :=
  tokenize_joined (by cbv) (by cbv)

end Understudy.Source

import Understudy.Proofs.CutTexts
import Understudy.Proofs.DottedNames
import Understudy.Proofs.RelaidLines

/-!
# The tokens of laid out bodies

A body is kept as text, and printing it works on the lines of that text. The tokens of a text are
those of its lexemes (`tokenize_written`), so what was shown of lexemes gives:

> **The tokens of a body that is laid out are those of the body** (`tokenize_layoutBody`).

Line ends that end statements are kept as well, and so are the names before dots
(`lexemeNames_layoutInner`).
-/

set_option autoImplicit false

namespace Understudy.Source

open Text

/-! ## Written tokens -/

/-- The kinds and texts of the tokens that are written, which a line end that ends a statement is
not. -/
def Token.written (ts : List Token) : List (Kind × String) :=
  (ts.filter fun t => !t.text.isEmpty).map Token.form

theorem Scanner.written_emit (s : Scanner) {l : Lexeme} (h : l.text ≠ []) :
    Token.written (s.emit l) = tokenForms [l] := by
  cases l with
  | bad text => rfl
  | layout text =>
    show Token.written (if _ then [s.lineEnd] else []) = []
    split
    · rfl
    · rfl
  | token kind text =>
    have hne : (String.ofList text).isEmpty = false := by
      rw [String.isEmpty_eq_false_iff]
      simpa using h
    simp [emit, Token.written, hne, Token.form, tokenForms, Lexeme.form?]

theorem Token.written_append (ts us : List Token) :
    written (ts ++ us) = written ts ++ written us := by
  simp [written]

theorem Scanner.written_tokensToEnd (s : Scanner) {ls : List Lexeme} (h : ∀ l ∈ ls, l.text ≠ []) :
    Token.written (s.tokensToEnd ls) = tokenForms ls := by
  induction ls generalizing s with
  | nil =>
    rw [tokensToEnd_nil, finish]
    split
    · rfl
    · rfl
  | cons l ls ih =>
    obtain ⟨hl, h⟩ := List.forall_mem_cons.1 h
    show Token.written (s.tokensToEnd ([l] ++ ls)) = tokenForms ([l] ++ ls)
    rw [tokensToEnd_append, Token.written_append, tokenForms_append, ih _ h, tokens, tokens_nil,
      List.append_nil, s.written_emit hl]

theorem text_ne_nil_of_stand {ls : List Lexeme} {rest : List Char} (h : StandBefore ls rest) :
    ∀ l ∈ ls, l.text ≠ [] := by
  induction ls with
  | nil => simp
  | cons l ls ih => exact List.forall_mem_cons.2 ⟨h.1.text_ne_nil, ih h.2⟩

/-- **A text without faults has the tokens of its lexemes.** -/
theorem tokenize_written {s : String} (h : ∀ l ∈ lexemes s.toList, l.isBad = false) :
    ∃ ts, tokenize s = .ok ts ∧ Token.written ts = tokenForms (lexemes s.toList) :=
  ⟨_, tokenize_eq h, Scanner.written_tokensToEnd _ (text_ne_nil_of_stand (standBefore_lexemes _))⟩

theorem Respells.tokenize {s t : String} (h : Respells s.toList t.toList)
    (hs : ∀ l ∈ lexemes s.toList, l.isBad = false) : ∃ ts us,
      Source.tokenize s = .ok ts ∧ Source.tokenize t = .ok us ∧
      List.Forall₂ KeepsForm (Token.written ts) (Token.written us) := by
  obtain ⟨ts, hts, hold⟩ := tokenize_written hs
  obtain ⟨us, hus, hnew⟩ := tokenize_written h.good
  refine ⟨ts, us, hts, hus, ?_⟩
  rw [hold, hnew]
  exact h.forms

/-! ## Names -/

/-- Layout without a line end that would end a statement adds nothing. -/
theorem Scanner.layout_idle {s : Scanner} {text : List Char}
    (h : s.pending = true → '\n' ∉ text) (ls : List Lexeme) :
    s.tokens (.layout text :: ls) = (s.step (.layout text)).tokens ls ∧
      (s.step (.layout text)).pending = s.pending := by
  rw [tokens, emit, step_layout_pending]
  cases hp : s.pending with
  | false => exact ⟨rfl, rfl⟩
  | true => simp [h hp]

/-- Two layouts add the same if both have a line end or neither has. -/
theorem Scanner.sameNames_layout {s s' : Scanner} {text text' : List Char}
    (hp : s.pending = s'.pending) (ht : '\n' ∈ text' ↔ '\n' ∈ text) :
    List.Forall₂ Token.SameName (s.emit (.layout text)) (s'.emit (.layout text')) ∧
      (s.step (.layout text)).pending = (s'.step (.layout text')).pending := by
  have hsame : text'.contains '\n' = text.contains '\n' := by
    rw [Bool.eq_iff_iff, List.contains_iff_mem, List.contains_iff_mem]
    exact ht
  rw [emit, emit, step_layout_pending, step_layout_pending, hp, hsame]
  refine ⟨?_, rfl⟩
  split
  · exact .cons ⟨rfl, fun _ => rfl⟩ .nil
  · exact .nil

/-- **Lexemes that are kept give the same names**, from the same state. At the front of a line no
statement is left to end. -/
theorem KeepsLexemes.sameNames {front : Bool} {ls ms : List Lexeme} (h : KeepsLexemes front ls ms)
    (hnames : ∀ text, .token .ident text ∈ ls → '\n' ∉ text) {s s' : Scanner}
    (hp : s.pending = s'.pending) (hf : front = true → s.pending = false) :
    List.Forall₂ Token.SameName (s.tokens ls) (s'.tokens ms) := by
  -- Both scanners agree on whether a statement is open, and at the front of a line it is not: there
  -- layout may come and go.
  induction h generalizing s s' with
  | nil => exact .nil
  | @same front l l' ls ms hl _ ih =>
    have hrest := fun text hm => hnames text (List.mem_cons_of_mem l hm)
    cases l with
    | bad text => cases l' <;> exact hl.elim
    | token kind text =>
      cases l' with
      | layout | bad => exact hl.elim
      | token kind' text' =>
        have hkind : kind' = kind := hl.kind
        subst hkind
        refine .cons ⟨rfl, fun hi => ?_⟩ (ih hrest rfl nofun)
        obtain rfl : kind' = .ident := hi
        have htext : String.ofList text' = String.ofList text :=
          hl.text (by simpa using hnames text List.mem_cons_self)
        exact htext.symm
    | layout text =>
      cases l' with
      | token | bad => exact hl.elim
      | layout text' =>
        obtain ⟨hemit, hstep⟩ := Scanner.sameNames_layout hp hl
        exact List.rel_append hemit (ih hrest hstep nofun)
  | newline _ ih =>
    obtain ⟨hemit, hstep⟩ := Scanner.sameNames_layout hp Iff.rfl
    exact List.rel_append hemit (ih (fun text hm => hnames text (List.mem_cons_of_mem _ hm)) hstep
      fun _ => s.pending_lineEnd)
  | @left front text ls ms hn _ ih =>
    have hidle : s.pending = true → '\n' ∉ text := fun hpending => hn (by
      cases front with
      | false => rfl
      | true => rw [hf rfl] at hpending; cases hpending)
    obtain ⟨htokens, hstep⟩ := Scanner.layout_idle hidle ls
    rw [htokens]
    exact ih (fun text hm => hnames text (List.mem_cons_of_mem _ hm)) (hstep.trans hp)
      fun h => hstep.trans (hf h)
  | @right front text ls ms hn _ ih =>
    obtain ⟨htokens, hstep⟩ := Scanner.layout_idle (fun _ => hn) ms
    rw [htokens]
    exact ih hnames (hp.trans hstep.symm) hf

/-- No name goes over a line end. -/
theorem ident_oneLine {cs text : List Char} (h : .token .ident text ∈ lexemes cs) :
    '\n' ∉ text := by
  intro hn
  obtain ⟨before, after, hl⟩ := List.append_of_mem h
  have hstand := standBefore_lexemes cs
  rw [hl, standBefore_append] at hstand
  obtain hlayout | ⟨e, m, he, -⟩ := hstand.2.1.newline_cases rfl hn
  · cases hlayout
  · cases e <;> cases he

/-! ## Bodies -/

/-- Lexemes between braces. -/
theorem lexemes_braces {ls : List Lexeme} (h : Sound ls) :
    lexemes ('{' :: (spellLexemes ls ++ ['}'])) =
      .token .lbrace ['{'] :: (ls ++ [.token .rbrace ['}']]) := by
  have hfree : Free (.token .lbrace ['{'] :: (ls ++ [.token .rbrace ['}']])) :=
    .cons rfl (h.free rfl (by decide) rfl)
  have hlexemes := lexemes_spell (hfree.stand [])
  simpa using hlexemes

theorem good_braces {ls : List Lexeme} (h : Sound ls) :
    ∀ l ∈ lexemes ('{' :: (spellLexemes ls ++ ['}'])), l.isBad = false := by
  rw [lexemes_braces h]
  exact List.forall_mem_cons.2 ⟨rfl, List.forall_mem_append.2 ⟨h.good,
    List.forall_mem_singleton.2 rfl⟩⟩

theorem respells_braces {ls ms : List Lexeme} (hl : Sound ls) (hm : Sound ms)
    (h : List.Forall₂ KeepsForm (tokenForms ls) (tokenForms ms)) :
    Respells ('{' :: (spellLexemes ls ++ ['}'])) ('{' :: (spellLexemes ms ++ ['}'])) where
  good := good_braces hm
  forms := by
    rw [lexemes_braces hl, lexemes_braces hm, ← List.singleton_append,
      ← List.singleton_append (l := ms ++ _), tokenForms_append, tokenForms_append,
      tokenForms_append, tokenForms_append]
    have hsame : ∀ ls, List.Forall₂ KeepsForm (tokenForms ls) (tokenForms ls) :=
      fun ls => List.forall₂_same.2 fun p _ => KeepsForm.refl p
    exact List.rel_append (hsame _) (List.rel_append h (hsame _))

/-- **A body that is laid out has the tokens of the body.** -/
theorem respells_layoutBody {body : String} {ls : List Lexeme} (h : Sound ls)
    (hb : body.toList = spellLexemes ls) :
    Respells ('{' :: (body.toList ++ ['}'])) (layoutBody body).toList := by
  have hframed : lexemes ('\n' :: (body.toList ++ ['\n'])) =
      .layout ['\n'] :: (ls ++ [.layout ['\n']]) := by
    have hfree : Free (.layout ['\n'] :: (ls ++ [.layout ['\n']])) := .cons rfl h.newline
    have hlexemes := lexemes_spell (hfree.stand [])
    rw [hb]
    simpa using hlexemes
  have hrelaid := (relaid_laidOutLines body.toList).respells (by
    rw [hframed]
    exact List.forall_mem_cons.2 ⟨rfl, List.forall_mem_append.2 ⟨h.good,
      List.forall_mem_singleton.2 rfl⟩⟩)
  have hforms := hrelaid.forms
  have hskip : tokenForms (.layout ['\n'] :: (ls ++ [.layout ['\n']])) = tokenForms ls := by
    rw [← List.singleton_append, tokenForms_append, tokenForms_append]
    exact List.append_nil _
  rw [hframed, hskip] at hforms
  rw [layoutBody, String.toList_ofList]
  rcases layoutInner_eq body.toList with heq | ⟨hnil, hline⟩
  · have hsound := sound_of_newline hrelaid.good (laidOutLines_last body.toList)
    have hbraces := respells_braces h hsound hforms
    rwa [spellLexemes_lexemes, ← heq, ← hb] at hbraces
  · -- Nothing is left of the body, and so it has no tokens.
    have hnone : lexemes ['\n'] = [.layout ['\n']] := by
      rw [lexemes_blank (Or.inl rfl) [], lexemes_nil]
    rw [hline, hnone] at hforms
    rw [hnil, hb]
    exact respells_braces h free_nil.sound hforms

/-- The lexemes of a body are kept where it is laid out. -/
theorem keepsLexemes_layoutInner {cs : List Char} (h : Sound (lexemes cs)) :
    ∃ gap, (∀ l ∈ gap, l.isLayout = true) ∧ KeepsLexemes false
      (.layout ['\n'] :: (lexemes cs ++ [.layout ['\n']])) (lexemes (layoutInner cs) ++ gap) := by
  have hframed : lexemes ('\n' :: (cs ++ ['\n'])) =
      .layout ['\n'] :: (lexemes cs ++ [.layout ['\n']]) := by
    rw [lexemes_blank (Or.inl rfl), lexemes_joined h.good, lexemes_nil]
  have hkeeps := ((relaid_laidOutLines cs).respaces (by
    rw [hframed]
    exact List.forall_mem_cons.2 ⟨rfl, List.forall_mem_append.2 ⟨h.good,
      List.forall_mem_singleton.2 rfl⟩⟩)).lexemes
  rw [hframed] at hkeeps
  rcases layoutInner_eq cs with heq | ⟨hnil, hline⟩
  · exact ⟨[], by simp, by rwa [heq, List.append_nil]⟩
  · refine ⟨[.layout ['\n']], List.forall_mem_singleton.2 rfl, ?_⟩
    rw [hline, lexemes_blank (Or.inl rfl), lexemes_nil] at hkeeps
    rwa [hnil, lexemes_nil]

/-- **A body that is laid out has the names before dots of the body.** -/
theorem lexemeNames_layoutInner {cs : List Char} (h : Sound (lexemes cs)) :
    lexemeNames (lexemes (layoutInner cs)) = lexemeNames (lexemes cs) := by
  obtain ⟨gap, hgap, hkeeps⟩ := keepsLexemes_layoutInner h
  have hnames : ∀ text, .token .ident text ∈
      .layout ['\n'] :: (lexemes cs ++ [.layout ['\n']]) → '\n' ∉ text := by
    intro text hm
    have hm : .token .ident text ∈ lexemes cs := by simpa using hm
    exact ident_oneLine hm
  have hsame : List.Forall₂ Token.SameName (Scanner.start.tokens _) (Scanner.start.tokens _) :=
    hkeeps.sameNames hnames rfl nofun
  have hline : ∀ l ∈ [Lexeme.layout ['\n']], l.isLayout = true := List.forall_mem_singleton.2 rfl
  calc lexemeNames (lexemes (layoutInner cs))
      = lexemeNames (lexemes (layoutInner cs) ++ gap) := (lexemeNames_append_layout hgap).symm
    _ = lexemeNames ([Lexeme.layout ['\n']] ++ (lexemes cs ++ [Lexeme.layout ['\n']])) :=
      (Token.namesBeforeDots_congr hsame false).symm
    _ = lexemeNames (lexemes cs) := by
      rw [lexemeNames_layout hline, lexemeNames_append_layout hline]

theorem tokenKinds_layoutInner {cs : List Char} (h : Sound (lexemes cs)) :
    tokenKinds (lexemes (layoutInner cs)) = tokenKinds (lexemes cs) := by
  obtain ⟨gap, hgap, hkeeps⟩ := keepsLexemes_layoutInner h
  have hkinds := hkeeps.kinds
  rw [tokenKinds_append, tokenKinds_layout hgap, List.append_nil, ← List.singleton_append,
    tokenKinds_append, tokenKinds_append] at hkinds
  rw [← hkinds]
  exact List.append_nil _

/-- The tokens of a body and of the body that is laid out. -/
theorem tokenize_layoutBody {body : String} {ls : List Lexeme} (h : Sound ls)
    (hb : body.toList = spellLexemes ls) : ∃ ts us,
      tokenize ("\x7b" ++ body ++ "\x7d") = .ok ts ∧ tokenize (layoutBody body) = .ok us ∧
      List.Forall₂ KeepsForm (Token.written ts) (Token.written us) := by
  have htext : ("\x7b" ++ body ++ "\x7d").toList = '{' :: (body.toList ++ ['}']) := by simp
  have hrespells := respells_layoutBody h hb
  rw [← htext] at hrespells
  refine hrespells.tokenize ?_
  rw [htext, hb]
  exact good_braces h

end Understudy.Source

import Understudy.Proofs.Scanning

/-!
# Tokens written out again

The parser looks at the kinds and the texts of tokens. Where two tokens stand on a line, how far
they are apart and what comments there are between them should be nothing to it, and so nothing is
lost if the tokens are written out again with a blank behind each, and a line end for each semicolon
that had no text.

Every text that is written so has tokens. They are the old ones with one exception: a keyword
directly before a byte order mark is read as a name, and before a blank it is a keyword again.

> **The tokens that are written are read again if and only if no name among them is spelled like a
> keyword** (`tokenize_respaced`).
-/

set_option autoImplicit false

namespace Understudy.Source

open Text

/-- What a token says wherever it stands. -/
def Token.form (t : Token) : Kind × String := (t.kind, t.text)

/-- The tokens, written out with a blank behind each, and a line end for each semicolon without
text. -/
def Token.respaced : List Token → String
  | [] => ""
  | t :: ts => (if t.kind = .semi ∧ t.text = "" then "\n" else t.text ++ " ") ++ respaced ts

/-! ## The lexemes of the text -/

/-- The kind of a token before a blank. -/
def Token.kindBeforeBlank (t : Token) : Kind :=
  if t.kind = .ident then Kind.ofWord t.text else t.kind

/-- The lexemes of the tokens written out. -/
def Token.respacedLexemes (ts : List Token) : List Lexeme :=
  ts.flatMap fun t =>
    if t.kind = .semi ∧ t.text = "" then [.layout ['\n']]
    else [.token t.kindBeforeBlank t.text.toList, .layout [' ']]

theorem spell_respacedLexemes (ts : List Token) :
    spellLexemes (Token.respacedLexemes ts) = (Token.respaced ts).toList := by
  induction ts with
  | nil => rfl
  | cons t ts ih =>
    rw [Token.respacedLexemes, List.flatMap_cons, spellLexemes_append, Token.respaced,
      String.toList_append]
    refine congrArg₂ _ ?_ ih
    split <;> simp

theorem respacedLexemes_good (ts : List Token) :
    ∀ l ∈ Token.respacedLexemes ts, l.isBad = false := by
  intro l hl
  obtain ⟨t, -, hl⟩ := List.mem_flatMap.1 hl
  split at hl
  · rw [List.mem_singleton.1 hl]
    rfl
  · rcases List.mem_pair.1 hl with rfl | rfl <;> rfl

/-- Whether a token is a semicolon without text or a lexeme of some text. -/
def Token.IsRead (t : Token) : Prop :=
  (t.kind = .semi ∧ t.text = "") ∨
    ∃ rest, (Lexeme.token t.kind t.text.toList).StandsBefore rest

/-- **Before a blank every token stands**, though not always as what it was. -/
theorem Token.IsRead.stands {t : Token} (h : t.IsRead) (ht : ¬ (t.kind = .semi ∧ t.text = ""))
    (new : List Char) :
    (Lexeme.token t.kindBeforeBlank t.text.toList).StandsBefore (' ' :: new) := by
  obtain ⟨rest, hstand⟩ := h.resolve_left ht
  have hnext := hstand
  obtain ⟨c, cs, -, hn⟩ := hnext
  rw [kindBeforeBlank]
  split
  · next hident =>
    rw [hident] at hn
    have hword := next_ident hn
    rw [String.ofList_toList] at hword
    exact word_stands hword (endsWord_of_isBoundary rfl new)
  · next hident =>
    have hstand : (Lexeme.token t.kind t.text.toList).StandsBefore ([] ++ rest) := hstand
    exact hstand.before_boundary rfl (fun _ => settled_of_next hn hident) rfl new

theorem stand_respacedLexemes {ts : List Token} (h : ∀ t ∈ ts, t.IsRead) (rest : List Char) :
    StandBefore (Token.respacedLexemes ts) rest := by
  induction ts with
  | nil => trivial
  | cons t ts ih =>
    obtain ⟨ht, hts⟩ := List.forall_mem_cons.1 h
    rw [Token.respacedLexemes, List.flatMap_cons, standBefore_append]
    refine ⟨?_, ih hts⟩
    split
    · exact ⟨Lexeme.standsBefore_of_isFree (by decide) _, trivial⟩
    · next hsemi => exact ⟨ht.stands hsemi _, Lexeme.standsBefore_of_isFree (by decide) _, trivial⟩

/-- **The lexemes of the tokens written out.** -/
theorem lexemes_respaced {ts : List Token} (h : ∀ t ∈ ts, t.IsRead) :
    lexemes (Token.respaced ts).toList = Token.respacedLexemes ts := by
  rw [← spell_respacedLexemes]
  exact lexemes_spell (stand_respacedLexemes h [])

/-! ## The tokens of a text -/

/-- Every token of a text is an inserted semicolon or comes from a lexeme. -/
theorem Scanner.mem_tokensToEnd (s : Scanner) {ls : List Lexeme} {t : Token}
    (h : t ∈ s.tokensToEnd ls) :
    (t.kind = .semi ∧ t.text = "") ∨ .token t.kind t.text.toList ∈ ls := by
  induction ls generalizing s with
  | nil =>
    rw [tokensToEnd_nil, finish] at h
    split at h
    · rw [List.mem_singleton.1 h]
      exact Or.inl ⟨rfl, rfl⟩
    · cases h
  | cons l ls ih =>
    have hrest : t ∈ (s.step l).tokensToEnd ls →
        (t.kind = .semi ∧ t.text = "") ∨ .token t.kind t.text.toList ∈ l :: ls :=
      fun h => (ih _ h).imp_right (List.mem_cons_of_mem l)
    cases l with
    | bad text => exact hrest h
    | token kind text =>
      rcases List.mem_cons.1 h with rfl | h
      · exact Or.inr (by simp)
      · exact hrest h
    | layout text =>
      rw [tokensToEnd_layout] at h
      split at h
      · rcases List.mem_cons.1 h with rfl | h
        · exact Or.inl ⟨rfl, rfl⟩
        · exact hrest h
      · exact hrest h

theorem StandBefore.mem {ls : List Lexeme} {rest : List Char} (h : StandBefore ls rest)
    {l : Lexeme} (hl : l ∈ ls) : ∃ rest, l.StandsBefore rest := by
  induction ls with
  | nil => cases hl
  | cons m ls ih =>
    rcases List.mem_cons.1 hl with rfl | hl
    · exact ⟨_, h.1⟩
    · exact ih h.2 hl

theorem isRead_of_tokenize {source : String} {ts : List Token} (h : tokenize source = .ok ts) :
    ∀ t ∈ ts, t.IsRead := by
  obtain ⟨-, rfl⟩ := tokenize_ok h
  intro t ht
  exact (Scanner.mem_tokensToEnd _ ht).imp_right (standBefore_lexemes source.toList).mem

/-! ## The tokens written out -/

namespace Scanner

variable (s s' : Scanner)

theorem respacedLexemes_lineEnd (ts : List Token) :
    Token.respacedLexemes (s.lineEnd :: ts) = .layout ['\n'] :: Token.respacedLexemes ts := rfl

theorem respacedLexemes_token (kind : Kind) {text : List Char} (ht : text ≠ [])
    (ts : List Token) : Token.respacedLexemes (s.token kind text :: ts) =
      .token (s.token kind text).kindBeforeBlank text :: .layout [' '] ::
        Token.respacedLexemes ts := by
  have hne : ¬ ((s.token kind text).kind = .semi ∧ (s.token kind text).text = "") :=
    fun h => ht (by simpa using congrArg String.toList h.2)
  rw [Token.respacedLexemes, List.flatMap_cons, if_neg hne, token_text, String.toList_ofList]
  rfl

theorem tokensToEnd_newline (hs : s.pending = true) (ls : List Lexeme) :
    s.tokensToEnd (.layout ['\n'] :: ls) =
      s.lineEnd :: (s.step (.layout ['\n'])).tokensToEnd ls := by
  rw [tokensToEnd_layout, if_pos (by simp [hs])]

/-- **The tokens of some lexemes, written out, are read again**, if no name among them is spelled
like a keyword. The scanner `s` has read what the tokens come from and `s'` what has been written
of them so far; either both wait for the end of a statement or neither does. -/
theorem forms_respaced (hp : s'.pending = s.pending) {ls : List Lexeme}
    (hls : ∀ l ∈ ls, l.text ≠ [] ∧ l.isBad = false)
    (hname : ∀ t ∈ s.tokensToEnd ls, t.kindBeforeBlank = t.kind) :
    (s'.tokensToEnd (Token.respacedLexemes (s.tokensToEnd ls))).map Token.form =
      (s.tokensToEnd ls).map Token.form := by
  -- Both scanners wait for the end of a statement or neither does: they insert the same semicolons.
  induction ls generalizing s s' with
  | nil =>
    rw [tokensToEnd_nil, finish]
    split
    · next hs =>
      rw [respacedLexemes_lineEnd, tokensToEnd_newline _ (hp.trans hs)]
      simp [Token.respacedLexemes, finish, pending_lineEnd, Token.form, lineEnd]
    · next hs =>
      simp [Token.respacedLexemes, finish, hp, hs]
  | cons l ls ih =>
    obtain ⟨⟨hl, hbad⟩, hrest⟩ := List.forall_mem_cons.1 hls
    cases l with
    | bad text => exact absurd hbad (by simp [Lexeme.isBad])
    | token kind text =>
      rw [Lexeme.text_token] at hl
      rw [tokensToEnd_token] at hname ⊢
      obtain ⟨hkind, hname⟩ := List.forall_mem_cons.1 hname
      have ih := ih (s.step (.token kind text))
        ((s'.step (.token kind text)).step (.layout [' '])) (by rw [step_blank_pending]; rfl)
        hrest hname
      rw [respacedLexemes_token _ _ hl, hkind, token_kind, tokensToEnd_token, List.map_cons,
        List.map_cons, tokensToEnd_layout, if_neg (by simp), ih]
      rfl
    | layout text =>
      rw [tokensToEnd_layout] at hname ⊢
      have hstep := s.step_layout_pending text
      split at hname
      · next hends =>
        rw [if_pos hends]
        obtain ⟨hs, hn⟩ := Bool.and_eq_true_iff.1 hends
        obtain ⟨-, hname⟩ := List.forall_mem_cons.1 hname
        have ih := ih (s.step (.layout text)) (s'.step (.layout ['\n']))
          (by rw [pending_lineEnd, hstep, hs, hn]; rfl) hrest hname
        rw [respacedLexemes_lineEnd, tokensToEnd_newline _ (hp.trans hs), List.map_cons,
          List.map_cons, ih]
        rfl
      · next hends =>
        rw [if_neg hends]
        refine ih _ _ ?_ hrest hname
        rw [hp, hstep]
        cases hs : s.pending <;> simp_all

end Scanner

/-- What is written out has no name that is spelled like a keyword. -/
theorem ofWord_of_mem_respacedLexemes {ts : List Token} {text : List Char}
    (h : .token .ident text ∈ Token.respacedLexemes ts) :
    Kind.ofWord (String.ofList text) = .ident := by
  obtain ⟨t, -, h⟩ := List.mem_flatMap.1 h
  split at h
  · cases List.mem_singleton.1 h
  · obtain ⟨hkind, rfl⟩ : .ident = t.kindBeforeBlank ∧ text = t.text.toList := by
      simpa using h
    rw [Token.kindBeforeBlank] at hkind
    rw [String.ofList_toList]
    split at hkind
    · exact hkind.symm
    · next hident => exact absurd hkind.symm hident

/-- **The tokens of a text, written out, are read again, and they are what they were if and only if
no name among them is spelled like a keyword.** -/
theorem tokenize_respaced {source : String} {ts : List Token} (h : tokenize source = .ok ts) :
    ∃ us, tokenize (Token.respaced ts) = .ok us ∧
      (us.map Token.form = ts.map Token.form ↔
        ∀ t ∈ ts, t.kind = .ident → Kind.ofWord t.text = .ident) := by
  have hlex := lexemes_respaced (isRead_of_tokenize h)
  have hgood := respacedLexemes_good ts
  rw [← hlex] at hgood
  refine ⟨_, tokenize_eq hgood, ?_⟩
  rw [hlex]
  -- A name that is written in front of a blank is read as a keyword if it is spelled like one.
  constructor
  · intro hforms t ht hident
    have hmem : t.form ∈ ts.map Token.form := List.mem_map_of_mem ht
    rw [← hforms] at hmem
    obtain ⟨u, hu, he⟩ := List.mem_map.1 hmem
    obtain ⟨hk, htext⟩ := Prod.mk.inj he
    rcases Scanner.mem_tokensToEnd _ hu with ⟨hsemi, -⟩ | hu
    · rw [← hk, hsemi] at hident
      cases hident
    · rw [hk, hident] at hu
      have hword := ofWord_of_mem_respacedLexemes hu
      rwa [String.ofList_toList, htext] at hword
  · intro hname
    have hstand := standBefore_lexemes source.toList
    have hkind : ∀ t ∈ ts, t.kindBeforeBlank = t.kind := by
      intro t ht
      rw [Token.kindBeforeBlank]
      split
      · next hident => rw [hname t ht hident, hident]
      · rfl
    obtain ⟨hsource, rfl⟩ := tokenize_ok h
    refine Scanner.forms_respaced .start .start rfl (fun l hl => ⟨?_, hsource l hl⟩) hkind
    obtain ⟨rest, hstand⟩ := hstand.mem hl
    exact hstand.text_ne_nil

/-- A comment with a line end in it, and a number with a sign in it. -/
theorem tokenize_respaced_sample : ∃ us,
    tokenize (Token.respaced [⟨.ident, "", "x", 0⟩, ⟨.semi, "", "", 1⟩,
      ⟨.number, "/*\n*/", "1e+5", 6⟩, ⟨.semi, "", "", 10⟩]) = .ok us ∧
    (us.map Token.form = [Token.mk .ident "" "x" 0, ⟨.semi, "", "", 1⟩,
        ⟨.number, "/*\n*/", "1e+5", 6⟩, ⟨.semi, "", "", 10⟩].map Token.form ↔
      ∀ t ∈ [Token.mk .ident "" "x" 0, ⟨.semi, "", "", 1⟩,
        ⟨.number, "/*\n*/", "1e+5", 6⟩, ⟨.semi, "", "", 10⟩],
        t.kind = .ident → Kind.ofWord t.text = .ident) :=
  @tokenize_respaced "x/*\n*/1e+5" _ (by cbv)

/-- A keyword before a byte order mark is a name, and before a blank it is a keyword. -/
theorem tokenize_respaced_mark : ∃ ts us, tokenize "return\ufeff" = .ok ts ∧
    tokenize (Token.respaced ts) = .ok us ∧ us.map Token.form ≠ ts.map Token.form := by
  refine ⟨[⟨.ident, "", "return", 0⟩, ⟨.semi, "\ufeff", "", 9⟩],
    [⟨.kwReturn, "", "return", 0⟩, ⟨.semi, " ", "", 7⟩], by decide +kernel, ?_,
    by simp [Token.form]⟩
  have htext : Token.respaced [⟨.ident, "", "return", 0⟩, ⟨.semi, "\ufeff", "", 9⟩] =
      "return \n" := by
    cbv
  rw [htext]
  cbv

end Understudy.Source

import Understudy.Proofs.CutTexts
import Understudy.Proofs.DottedNames
import Understudy.Stub.Imports

/-!
# References of parsed files

The formatter finds the packages that a file refers to by its tokens alone (`qualifiers`). What the
parser keeps of the file says the same: a reference of a type is a segment of its own, and bodies,
initializers and array lengths are kept as text.

> **What the formatter finds are the references of types and the names before dots in the texts that
> are kept** (`qualifiers_eq`).

There is one obstacle. Behind the keyword `import` the search skips everything up to a semicolon, and
it does so wherever the keyword stands, although only the parser knows which texts it will keep
without a look into them. So no such text may have the keyword in it.
-/

set_option autoImplicit false

namespace Understudy.Stub

open Source Source.Parser

/-! ## Skipping tokens -/

section Skipping

variable {t : Token} {ts run specs : List Token} {d : Nat} {after : Bool}

/-- A token that begins no import declaration, and is no name before a dot. -/
theorem qualifiersFrom_cons (hk : t.kind ≠ .kwImport) (ht : t.kind ≠ .dot)
    (hn : t.kind = .ident → ∀ u ∈ ts.head?, u.kind ≠ .dot) :
    qualifiersFrom none after (t :: ts) = qualifiersFrom none false ts := by
  have hdot : (t.kind == .dot) = false := by simpa using ht
  rw [qualifiersFrom, if_neg (by simpa using hk), hdot]
  dsimp only
  split
  · next h =>
    simp only [Bool.and_eq_true, beq_iff_eq, Option.map_eq_some_iff] at h
    obtain ⟨⟨hk, u, hu, hd⟩, -⟩ := h
    exact absurd hd (hn hk u hu)
  · rfl

/-- **In tokens that have no import declaration, the qualifiers are the names before dots.** -/
theorem qualifiersFrom_append (hk : ∀ t ∈ run, t.kind ≠ .kwImport)
    (hnext : ∀ t ∈ ts.head?, t.kind ∉ [.ident, .dot]) :
    qualifiersFrom none after (run ++ ts) =
      Token.namesBeforeDots after run ++ qualifiersFrom none false ts := by
  induction run generalizing after with
  | nil =>
    cases ts with
    | nil => rfl
    | cons t ts =>
      have ht : (t.kind == .ident) = false := by
        have hname := hnext t rfl
        simp only [List.mem_cons, not_or] at hname
        simpa using hname.1
      rw [List.nil_append, qualifiersFrom, qualifiersFrom]
      simp [ht, Token.namesBeforeDots]
  | cons t run ih =>
    obtain ⟨ht, hrun⟩ := List.forall_mem_cons.1 hk
    have hhead : ((run ++ ts).head?.map Token.kind == some .dot) =
        (run.head?.map Token.kind == some .dot) := by
      -- Whether a dot follows the last name of the run is seen in what stands behind it.
      cases run with
      | cons u run => rfl
      | nil =>
        cases ts with
        | nil => rfl
        | cons u ts =>
          have hu := hnext u rfl
          simp only [List.mem_cons, not_or] at hu
          simpa using hu.2.1
    rw [List.cons_append, qualifiersFrom, if_neg (by simpa using ht), Token.namesBeforeDots,
      ih hrun, hhead]
    split <;> rfl

theorem qualifiersFrom_reference {package dot name : Token} (hp : package.kind = .ident)
    (hd : dot.kind = .dot) (hn : name.kind = .ident) :
    qualifiersFrom none false (package :: dot :: name :: ts) =
      package.text :: qualifiersFrom none false ts := by
  have hname : qualifiersFrom none true (name :: ts) = qualifiersFrom none false ts := by
    rw [qualifiersFrom]
    simp [hn]
    rfl
  have hdot : qualifiersFrom none false (dot :: name :: ts) =
      qualifiersFrom none true (name :: ts) := by
    rw [qualifiersFrom]
    simp [hd]
  rw [qualifiersFrom, ← hname, ← hdot]
  simp [hp, hd]
  rfl

/-- Inside an import declaration it does not matter what stands before. -/
theorem qualifiersFrom_some : qualifiersFrom (some d) after ts = qualifiersFrom (some d) false ts := by
  cases ts <;> rfl

/-- The imports of a declaration are skipped. -/
theorem qualifiersFrom_specs (hk : ∀ t ∈ specs,
    t.kind ∈ [Kind.ident, .dot, .string, .rawString] ∨ t.kind = .semi ∧ 0 < d) :
    qualifiersFrom (some d) after (specs ++ ts) = qualifiersFrom (some d) false ts := by
  induction specs generalizing after with
  | nil => exact qualifiersFrom_some
  | cons t specs ih =>
    obtain ⟨ht, hspecs⟩ := List.forall_mem_cons.1 hk
    rw [List.cons_append, qualifiersFrom]
    rcases ht with ht | ⟨ht, hd⟩
    · simp only [List.mem_cons, List.not_mem_nil, or_false] at ht
      rcases ht with ht | ht | ht | ht <;> (rw [ht]; exact ih hspecs)
    · rw [ht]
      simp only [beq_iff_eq, Nat.pos_iff_ne_zero.1 hd, if_false]
      exact ih hspecs

/-- A whole import declaration is skipped. -/
theorem qualifiersFrom_imports (h : IsImportRun run) (hnext : ∀ t ∈ ts.head?, t.kind = .semi) :
    qualifiersFrom none after (run ++ ts) = qualifiersFrom none false ts := by
  have hend : qualifiersFrom (some 0) false ts = qualifiersFrom none false ts := by
    cases ts with
    | nil => rfl
    | cons u ts =>
      have hu : u.kind = .semi := hnext u rfl
      simp [qualifiersFrom, hu]
      rfl
  obtain ⟨keyword, specs, hkeyword, ⟨rfl, hk⟩ | ⟨op, cl, ho, hc, rfl, hk⟩⟩ := h
  · rw [List.cons_append, qualifiersFrom, if_pos (by simp [hkeyword]),
      qualifiersFrom_specs fun t ht => Or.inl (hk t ht), hend]
  · have hspecs : ∀ t ∈ specs,
        t.kind ∈ [Kind.ident, .dot, .string, .rawString] ∨ t.kind = .semi ∧ 0 < 1 := by
      intro t ht
      rcases List.mem_append.1 (show t.kind ∈ [Kind.ident, .dot, .string, .rawString] ++ [.semi]
        from hk t ht) with ht | ht
      · exact Or.inl ht
      · exact Or.inr ⟨List.mem_singleton.1 ht, Nat.one_pos⟩
    have hopen : qualifiersFrom (some 0) false (op :: (specs ++ cl :: ts)) =
        qualifiersFrom (some 1) false (specs ++ cl :: ts) := by
      rw [qualifiersFrom, ho]
    have hclose : qualifiersFrom (some 1) false (cl :: ts) = qualifiersFrom (some 0) false ts := by
      rw [qualifiersFrom, hc]
    have htokens : keyword :: op :: (specs ++ [cl]) ++ ts =
        keyword :: op :: (specs ++ cl :: ts) := by simp
    rw [htokens, qualifiersFrom, if_pos (by simp [hkeyword]), hopen, qualifiersFrom_specs hspecs,
      hclose, hend]

end Skipping

/-! ## Segments -/

/-- The names before dots in a segment. -/
def segmentNames : Segment → List String
  | .token _ | .imports _ => []
  | .reference package _ _ => [package.text]
  | .enclosed _ run _ | .text _ run => Token.namesBeforeDots false run

/-- Whether a segment is read by the formatter as it is by the parser. A type of no known form may
begin with a dot. -/
def IsFollowed : Segment → Prop
  | .token _ | .imports _ | .reference _ _ _ => True
  | .enclosed _ run _ | .text (some _) run => ∀ t ∈ run, t.kind ≠ .kwImport
  | .text none _ => False

section Segments

variable {a b : Nat} {xs : List Segment}

theorem head_ne_dot (h : Spans [] a xs b) (hx : ∀ x ∈ xs, IsFollowed x) :
    ∀ t ∈ (Segment.allTokens xs).head?, t.kind ≠ .dot := by
  intro t ht hk
  cases h with
  | nil => cases ht
  | token hdot _ _ _ =>
    cases ht
    exact hdot hk
  | reference hp _ _ _ =>
    cases ht
    rw [hp] at hk
    cases hk
  | imports hrun _ _ =>
    obtain ⟨keyword, specs, hkeyword, ⟨rfl, -⟩ | ⟨op, cl, -, -, rfl, -⟩⟩ := hrun <;> cases ht <;>
      rw [hkeyword] at hk <;> cases hk
  | enclosed ho _ _ _ =>
    cases ht
    rcases ho with ho | ho <;> rw [ho] at hk <;> cases hk
  | @text _ _ _ sign run xs hsign _ _ _ _ _ =>
    cases sign with
    | none => exact hx _ List.mem_cons_self
    | some sign =>
      cases ht
      rcases hsign _ rfl with ho | ho <;> rw [ho] at hk <;> cases hk

/-- A run that is kept as text, behind a bracket or a sign and in front of what is no name. -/
theorem qualifiersFrom_kept {opening : Token} {run ts : List Token}
    (ho : opening.kind ∈ [.lbrace, .lbrack, .assign, .comma]) (hk : ∀ t ∈ run, t.kind ≠ .kwImport)
    (hnext : ∀ t ∈ ts.head?, t.kind ∉ [.ident, .dot]) :
    qualifiersFrom none false (opening :: (run ++ ts)) =
      Token.namesBeforeDots false run ++ qualifiersFrom none false ts := by
  have hplain : ∀ k ∈ [Kind.lbrace, .lbrack, .assign, .comma],
      k ≠ .kwImport ∧ k ≠ .dot ∧ k ≠ .ident := by decide
  obtain ⟨himport, hdot, hname⟩ := hplain _ ho
  rw [qualifiersFrom_cons himport hdot fun h => absurd h hname, qualifiersFrom_append hk hnext]

/-- **The qualifiers of a file are the names before dots in its segments.** -/
theorem qualifiersFrom_segments (h : Spans [] a xs b) (hx : ∀ x ∈ xs, IsFollowed x) :
    qualifiersFrom none false (Segment.allTokens xs) = xs.flatMap segmentNames := by
  -- Segment by segment: behind each the next begins with no dot, so that no name is seen twice.
  induction h with
  | nil => rfl
  | token hdot himport _ hxs ih =>
    obtain ⟨-, hx⟩ := List.forall_mem_cons.1 hx
    rw [List.flatMap_cons, ← ih hx]
    exact qualifiersFrom_cons himport hdot fun _ => head_ne_dot hxs hx
  | reference hp hd hn _ ih =>
    obtain ⟨-, hx⟩ := List.forall_mem_cons.1 hx
    rw [List.flatMap_cons, ← ih hx]
    exact qualifiersFrom_reference hp hd hn
  | imports hrun hnext _ ih =>
    obtain ⟨-, hx⟩ := List.forall_mem_cons.1 hx
    rw [List.append_nil] at hnext
    rw [List.flatMap_cons, ← ih hx]
    exact qualifiersFrom_imports hrun hnext
  | @enclosed a b opening run close xs ho _ hclose _ ih =>
    obtain ⟨hrun, hx⟩ := List.forall_mem_cons.1 hx
    have hc : ∀ k ∈ [Kind.kwImport, .dot, .ident], close.kind ≠ k := by
      rintro k hm rfl
      revert hclose
      simp only [List.mem_cons, List.not_mem_nil, or_false] at hm
      rcases hm with hk | hk | hk <;> rw [hk] <;> decide
    have htokens : Segment.allTokens (.enclosed opening run close :: xs) =
        opening :: (run ++ close :: Segment.allTokens xs) := by
      simp [Segment.tokens]
    have hnext : ∀ t ∈ (close :: Segment.allTokens xs).head?, t.kind ∉ [.ident, .dot] := by
      intro t ht
      cases ht
      simp [hc .ident (by simp), hc .dot (by simp)]
    rw [htokens, qualifiersFrom_kept (by rcases ho with ho | ho <;> simp [ho]) hrun hnext,
      qualifiersFrom_cons (hc _ (by simp)) (hc _ (by simp)) fun h => absurd h (hc _ (by simp)),
      ih hx]
    rfl
  | @text a b d sign run xs hsign _ _ _ hnext _ ih =>
    obtain ⟨hrun, hrest⟩ := List.forall_mem_cons.1 hx
    cases sign with
    | none => exact hrun.elim
    | some sign =>
      have hs : sign.kind ∈ [.lbrace, .lbrack, .assign, .comma] := by
        rcases hsign _ rfl with hk | hk <;> simp [hk]
      have hbehind : ∀ t ∈ (Segment.allTokens xs).head?, t.kind ∉ [.ident, .dot] := by
        intro t ht hm
        rw [List.append_nil] at hnext
        have hend := hnext t ht
        revert hend
        simp only [List.mem_cons, List.not_mem_nil, or_false] at hm
        rcases hm with hk | hk <;> rw [hk] <;> decide
      have htokens : Segment.allTokens (.text (some sign) run :: xs) =
          sign :: (run ++ Segment.allTokens xs) := by
        simp [Segment.tokens]
      rw [htokens, qualifiersFrom_kept hs hrun hbehind, ih hrest]
      rfl

end Segments

/-! ## Texts -/

/-- Whether some lexemes have the names before dots that a run of tokens has, and the keyword of
imports if the run has it. -/
structure Tells (ls : List Lexeme) (run : List Token) : Prop where
  names : lexemeNames ls = Token.namesBeforeDots false run
  imports : ∀ t ∈ run, t.kind = .kwImport → .kwImport ∈ tokenKinds ls

section Tells

variable {ls init gap pre post : List Lexeme} {l l' : Lexeme} {run ends : List Token}

theorem kind_mem_tokens {s : Scanner} {t : Token} (h : t ∈ s.tokens ls) :
    t.kind = .semi ∨ t.kind ∈ tokenKinds ls := by
  induction ls generalizing s with
  | nil => cases h
  | cons l ls ih =>
    rw [← List.singleton_append, tokenKinds_append, List.mem_append]
    rcases List.mem_append.1 h with h | h
    · cases l with
      | token kind text =>
        rw [List.mem_singleton.1 h]
        exact Or.inr (Or.inl (List.mem_singleton_self _))
      | layout text => exact Or.inl (s.emit_layout rfl t h)
      | bad text => cases h
    · exact (ih h).imp_right Or.inr

/-- Lexemes tell what the tokens are that they give, with line ends behind them. -/
theorem tells_tokens (s : Scanner) (h : ∀ t ∈ ends, t.kind = .semi) :
    Tells ls (s.tokens ls ++ ends) where
  names := by rw [Token.namesBeforeDots_ends h, namesBeforeDots_tokens]
  imports t ht hk := by
    have hsemi : t.kind ≠ .semi := by simp [hk]
    rw [← hk]
    rcases List.mem_append.1 ht with ht | ht
    · exact (kind_mem_tokens ht).resolve_left hsemi
    · exact absurd (h t ht) hsemi

theorem Tells.layout (h : Tells ls run) (hgap : ∀ l ∈ gap, l.isLayout = true) :
    Tells (gap ++ ls) run where
  names := by rw [lexemeNames_layout hgap, h.names]
  imports t ht hk := by
    rw [tokenKinds_append]
    exact List.mem_append_right _ (h.imports t ht hk)

/-- Taking layout off. -/
theorem Tells.core (h : Tells (pre ++ (ls ++ post)) run) (hpre : ∀ l ∈ pre, l.isLayout = true)
    (hpost : ∀ l ∈ post, l.isLayout = true) : Tells ls run where
  names := by rw [← h.names, lexemeNames_layout hpre, lexemeNames_append_layout hpost]
  imports t ht hk := by
    have hm := h.imports t ht hk
    rwa [tokenKinds_append, tokenKinds_append, tokenKinds_layout hpre, tokenKinds_layout hpost,
      List.nil_append, List.append_nil] at hm

/-- At the end of a text, the last lexeme can be another one. -/
theorem Tells.cut {old : List Char} (h : Tells ls run) (hs : StandBefore ls old)
    (hg : ∀ l ∈ ls, l.isBad = false) : Tells (lexemes (spellLexemes ls)) run := by
  rcases List.eq_nil_or_concat' ls with rfl | ⟨init, l, rfl⟩
  · rwa [spellLexemes_nil, lexemes_nil]
  obtain ⟨hinit, hl⟩ := List.forall_mem_append.1 hg
  obtain ⟨l', hlexemes, hcut⟩ := hs.cut hinit (hl l List.mem_cons_self)
  rw [hlexemes]
  obtain rfl | ⟨text, w, rfl, rfl⟩ := hcut
  · exact h
  have hlast : ∀ {kind : Kind} (text : List Char), kind ≠ .dot →
      lexemeNames (init ++ [.token kind text]) = lexemeNames init := by
    intro kind text hk
    rw [lexemeNames, Scanner.tokens_append, Scanner.tokens_token, Scanner.tokens_nil]
    exact Token.namesBeforeDots_concat hk false
  refine ⟨?_, fun t ht hk => ?_⟩
  · rw [← h.names, hlast text (by decide)]
    exact hlast _ (Kind.ofWord_ne_dot w)
  · have hm := h.imports t ht hk
    rw [tokenKinds_append, List.mem_append] at hm ⊢
    refine Or.inl (hm.resolve_right fun hm => ?_)
    cases List.mem_singleton.1 hm

end Tells

section Runs

variable {source : String} {before run after : List Token} {close : Token}

/-- The text of a run tells its tokens. -/
theorem tells_run (h : tokenize source = .ok (before ++ (run ++ after))) (hr : IsTextRun run after) :
    Tells (lexemes (Token.spell run).toList) run := by
  obtain ⟨ls, old, hls⟩ := exists_runLexemes h hr
  obtain ⟨s, ends, htokens, hends⟩ := hls.tokens
  have htells : Tells ls run := by
    rw [htokens]
    exact tells_tokens s hends
  rw [hls.spell]
  exact htells.cut hls.stand hls.good

variable (h : tokenize source = .ok (before ++ (run ++ close :: after)))
  (hk : close.kind.closes = true)
include h hk

theorem tells_inner : ∃ ls old, Tells ls run ∧ StandBefore ls old ∧ (∀ l ∈ ls, l.isBad = false) ∧
    old.head? ≠ some '\ufeff' ∧ (Token.inner run close).toList = spellLexemes ls := by
  obtain ⟨ls, old, hstand, hg, ⟨c, hc, -, hmark⟩, hspell, s, gap, inner, rfl, hgap, rfl⟩ :=
    inner_lexemes h hk
  have htells : Tells inner (s.tokens inner ++ []) := tells_tokens s (by simp)
  rw [List.append_nil] at htells
  refine ⟨_, old, htells.layout hgap, hstand, hg, ?_, hspell⟩
  rw [Option.mem_def.1 hc]
  exact fun h => hmark (Option.some.inj h)

/-- The text of a body tells its tokens. -/
theorem tells_body : Tells (lexemes (Token.inner run close).toList) run := by
  obtain ⟨ls, old, htells, hstand, hg, -, hspell⟩ := tells_inner h hk
  rw [hspell]
  exact htells.cut hstand hg

/-- The text of a length tells its tokens, unless it goes on over the bracket behind it. -/
theorem tells_length
    (hl : (Leaf.length (String.ofList (Text.trim (Token.inner run close).toList))).Lexes) :
    Tells (lexemes (Text.trim (Token.inner run close).toList)) run := by
  obtain ⟨ls, old, htells, hstand, hg, hmark, hspell⟩ := tells_inner h hk
  have hbracket := hl.1 []
  rw [String.toList_ofList] at hbracket
  rw [hspell] at hbracket ⊢
  obtain ⟨pre, post, hls, hpre, hpost⟩ := lexemes_trim hstand hg hmark hbracket
  have hlayout : ∀ l : Lexeme, l.isBlank = true → l.isLayout = true := by
    intro l hl
    cases l <;> first | rfl | cases hl
  rw [hls] at htells
  exact htells.core (fun l hm => hlayout l (hpre l hm)) fun l hm => hlayout l (hpost l hm)

end Runs

/-! ## Files -/

/-- The names before dots in what is kept. -/
def extractNames : Extract → List String
  | .reference package => [package]
  | .length text | .unsupported text | .value text | .body text => lexemeNames (lexemes text.toList)

/-- Whether a text that is kept has the keyword of imports in it. -/
def MentionsImport : Extract → Prop
  | .reference _ => False
  | .length text | .unsupported text | .value text | .body text =>
    .kwImport ∈ tokenKinds (lexemes text.toList)

instance : DecidablePred MentionsImport := fun e =>
  match e with
  | .reference _ => inferInstanceAs (Decidable False)
  | .length text | .unsupported text | .value text | .body text =>
    inferInstanceAs (Decidable (.kwImport ∈ tokenKinds (lexemes text.toList)))

/-- Whether what is kept can be read back: a length must not go on over the bracket behind it, and a
type must have a known form. -/
def IsReadable : Extract → Prop
  | .length text => (Leaf.length text).Lexes
  | .unsupported _ => False
  | .reference _ | .value _ | .body _ => True

/-- **What is kept of a segment tells its tokens.** -/
theorem segment_read {source : String} {a b : Nat} {before after : List Segment} {x : Segment}
    (h : tokenize source =
      .ok (Segment.allTokens before ++ (x.tokens ++ Segment.allTokens after)))
    (hx : Spans [] a (x :: after) b) (hr : ∀ e ∈ x.extract?, IsReadable e)
    (hno : ∀ e ∈ x.extract?, ¬ MentionsImport e) :
    IsFollowed x ∧ segmentNames x = x.extract?.toList.flatMap extractNames := by
  have htells : ∀ {run : List Token} {text : String}, Tells (lexemes text.toList) run →
      .kwImport ∉ tokenKinds (lexemes text.toList) → (∀ t ∈ run, t.kind ≠ .kwImport) ∧
        Token.namesBeforeDots false run = lexemeNames (lexemes text.toList) ++ [] := by
    intro run text ht hm
    rw [List.append_nil]
    exact ⟨fun t hrun hk => hm (ht.imports t hrun hk), ht.names.symm⟩
  cases hx with
  | token | reference | imports => exact ⟨trivial, rfl⟩
  | @enclosed _ _ opening run close _ ho hrun hclose hrest =>
    obtain ⟨-, hk⟩ := (Spans.enclosed ho hrun hclose hrest).enclosed_mem List.mem_cons_self
    have htokens : tokenize source = .ok ((Segment.allTokens before ++ [opening]) ++
        (run ++ close :: Segment.allTokens after)) := by
      simpa [Segment.tokens] using h
    -- In braces a body is kept as it stands, in brackets a length without the blanks around it.
    rw [Segment.extract?] at hr hno ⊢
    split at hr
    · next hbrace =>
      rw [if_pos hbrace] at hno ⊢
      exact htells (tells_body htokens hk) (hno _ rfl)
    · next hbrace =>
      rw [if_neg hbrace] at hno ⊢
      have hlength := tells_length htokens hk (hr _ rfl)
      rw [← String.toList_ofList (l := Text.trim _)] at hlength
      exact htells hlength (hno _ rfl)
  | @text _ _ _ sign run _ _ hrun _ _ _ _ =>
    cases sign with
    | none => exact (hr _ rfl).elim
    | some sign =>
      have htokens : tokenize source = .ok ((Segment.allTokens before ++ [sign]) ++
          (run ++ Segment.allTokens after)) := by
        simpa [Segment.tokens] using h
      rw [List.append_nil] at hrun
      exact htells (tells_run htokens hrun) (hno _ rfl)

/-- **The formatter finds the references of types and the names before dots in the texts that are
kept**, in a file that can be read back and has the keyword of imports in no such text. -/
theorem qualifiers_eq {source : String} {file : SourceFile} {ts : List Token}
    (h : SourceFile.parse source = .ok file) (ht : tokenize source = .ok ts)
    (hr : ∀ e ∈ file.extracts, IsReadable e) (hno : ∀ e ∈ file.extracts, ¬ MentionsImport e) :
    qualifiers ts = file.extracts.flatMap extractNames := by
  obtain ⟨xs, hxs, hspans, he⟩ := parse_segments h
  rw [ht] at hxs
  obtain rfl := Except.ok.inj hxs
  rw [he] at hr hno ⊢
  have hall : ∀ x ∈ xs, IsFollowed x ∧ segmentNames x = x.extract?.toList.flatMap extractNames := by
    intro x hx
    obtain ⟨before, after, rfl⟩ := List.append_of_mem hx
    have hmem : ∀ e ∈ x.extract?, e ∈ Segment.extracts (before ++ x :: after) :=
      fun e he => List.mem_filterMap.2 ⟨x, hx, he⟩
    obtain ⟨c, hsuffix⟩ := hspans.suffix
    rw [Segment.allTokens_append, Segment.allTokens_cons] at ht
    exact segment_read ht hsuffix (fun e he => hr e (hmem e he)) fun e he => hno e (hmem e he)
  rw [qualifiers, qualifiersFrom_segments hspans fun x hx => (hall x hx).1, Segment.extracts,
    List.filterMap_eq_flatMap_toList, List.flatMap_assoc]
  exact List.flatMap_congr fun x hx => (hall x hx).2

end Understudy.Stub

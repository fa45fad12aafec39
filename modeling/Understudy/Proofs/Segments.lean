import Understudy.Proofs.FileShape
import Understudy.Proofs.StatementEnds

/-!
# What the parser reads

The tokens that a parser reads fall into segments: single tokens that it looks at, references to
packages, import declarations, and runs that it keeps as text without looking into them. A run in
brackets ends at the bracket that closes it. A run outside brackets (an initializer, or a type of no
known form) ends in front of the next delimiter or at the end of the file, and only there it can
leave brackets open.

`Covers ts rest a b es` says how the tokens in front of `rest` are read: as segments that lead from
`a` open brackets to `b` and keep `es`, and without going on over the end of the statement. So
`Reads a b owed p g` says of a parser `p` that whatever it reads is read in this way, and that what
is kept of it, behind what is `owed` from before, is what the result `v` keeps, `g v`. Parsers are
put together without a word about segments or statements, and there is one lemma for each parser.
-/

set_option autoImplicit false

namespace Understudy.Source

open Understudy.Source.Parser

/-! ## Segments -/

/-- What a file keeps of its source text. -/
inductive Extract where
  /-- A reference to a package. -/
  | reference (package : String)
  /-- The text of an array length. -/
  | length (text : String)
  /-- The text of a type of no known form. -/
  | unsupported (text : String)
  /-- The text of an initializer. -/
  | value (text : String)
  /-- The text between the braces of a body. -/
  | body (text : String)
  deriving DecidableEq

/-- A part of the tokens that a parser reads. -/
inductive Segment where
  | token (t : Token)
  | reference (package dot name : Token)
  /-- An import declaration, without the semicolon behind it. -/
  | imports (run : List Token)
  /-- A body or the length of an array, with its brackets. -/
  | enclosed (opening : Token) (run : List Token) (close : Token)
  /-- A run outside brackets: an initializer if there is a sign in front of it, or else a type. -/
  | text (sign : Option Token) (run : List Token)

namespace Segment

/-- The tokens of a segment. -/
def tokens : Segment → List Token
  | token t => [t]
  | reference package dot name => [package, dot, name]
  | imports run => run
  | enclosed opening run close => opening :: (run ++ [close])
  | text sign run => sign.toList ++ run

/-- What is kept of a segment. -/
def extract? : Segment → Option Extract
  | token _ | imports _ => none
  | reference package _ _ => some (.reference package.text)
  | enclosed opening run close =>
    if opening.kind = .lbrace then some (.body (Token.inner run close))
    else some (.length (String.ofList (Text.trim (Token.inner run close).toList)))
  | text (some _) run => some (.value (Token.spell run))
  | text none run => some (.unsupported (Token.spell run))

/-- The tokens of some segments. -/
def allTokens (xs : List Segment) : List Token := xs.flatMap tokens

@[simp] theorem allTokens_nil : allTokens [] = [] := rfl

@[simp] theorem allTokens_cons (x : Segment) (xs : List Segment) :
    allTokens (x :: xs) = x.tokens ++ allTokens xs := rfl

@[simp] theorem allTokens_append (xs ys : List Segment) :
    allTokens (xs ++ ys) = allTokens xs ++ allTokens ys := List.flatMap_append

/-- What is kept of some segments. -/
def extracts (xs : List Segment) : List Extract := xs.filterMap extract?

theorem extracts_append (xs ys : List Segment) :
    extracts (xs ++ ys) = extracts xs ++ extracts ys := List.filterMap_append

end Segment

/-- Whether a run of tokens is an import declaration. -/
def IsImportRun (run : List Token) : Prop :=
  ∃ keyword specs, keyword.kind = .kwImport ∧
    ((run = keyword :: specs ∧ ∀ t ∈ specs, t.kind ∈ [Kind.ident, .dot, .string, .rawString]) ∨
      ∃ op cl, op.kind = .lparen ∧ cl.kind = .rparen ∧ run = keyword :: op :: (specs ++ [cl]) ∧
        ∀ t ∈ specs, t.kind ∈ [Kind.ident, .dot, .string, .rawString, .semi])

/-- Whether a run outside brackets begins and ends with a token, but for a run at the end of the
file. -/
structure IsTextRun (run rest : List Token) : Prop where
  first : ∃ t ∈ run.head?, t.kind ≠ .semi
  last : rest = [] ∨ ∃ t ∈ run.getLast?, t.kind ≠ .semi

/-- Whether segments in front of the tokens `rest` lead from one number of open brackets to another.
A run that leaves brackets open is not counted: it can only stand at the end of the file. -/
inductive Spans (rest : List Token) : Nat → List Segment → Nat → Prop
  | nil {a : Nat} : Spans rest a [] a
  /-- A token that the parser looks at. It is no dot and does not begin an import declaration: these
  are in segments of their own. -/
  | token {a b c : Nat} {t : Token} {xs : List Segment} : t.kind ≠ .dot → t.kind ≠ .kwImport →
      t.kind.bracketStep a = some b → Spans rest b xs c → Spans rest a (.token t :: xs) c
  | reference {a b : Nat} {package dot name : Token} {xs : List Segment} : package.kind = .ident →
      dot.kind = .dot → name.kind = .ident → Spans rest a xs b →
      Spans rest a (.reference package dot name :: xs) b
  | imports {a b : Nat} {run : List Token} {xs : List Segment} : IsImportRun run →
      (∀ t ∈ (Segment.allTokens xs ++ rest).head?, t.kind = .semi) → Spans rest a xs b →
      Spans rest a (.imports run :: xs) b
  | enclosed {a b : Nat} {opening : Token} {run : List Token} {close : Token} {xs : List Segment} :
      opening.kind = .lbrace ∨ opening.kind = .lbrack → Token.openAfter 0 run = some 0 →
      close.kind.bracketStep 1 = some 0 → Spans rest a xs b →
      Spans rest a (.enclosed opening run close :: xs) b
  | text {a b d : Nat} {sign : Option Token} {run : List Token} {xs : List Segment} :
      (∀ t ∈ sign, t.kind = .assign ∨ t.kind = .comma) →
      IsTextRun run (Segment.allTokens xs ++ rest) →
      Token.openAfter 0 run = some d → (d = 0 ∨ Segment.allTokens xs ++ rest = []) →
      (∀ t ∈ (Segment.allTokens xs ++ rest).head?,
        t.kind.closes = true ∨ t.kind ∈ [Kind.comma, .semi, .pipe]) →
      Spans rest a xs b → Spans rest a (.text sign run :: xs) b

/-! ## Import declarations -/

section ImportRun

variable {specs ts : List Token}

/-- The tokens of imports are no brackets. -/
theorem openAfter_specs (d : Nat)
    (h : ∀ t ∈ specs, t.kind ∈ [Kind.ident, .dot, .string, .rawString, .semi]) :
    Token.openAfter d specs = some d := by
  have hplain : ∀ k ∈ [Kind.ident, .dot, .string, .rawString, .semi],
      ¬ k.opens = true ∧ ¬ k.closes = true := by decide
  induction specs with
  | nil => rfl
  | cons t specs ih =>
    obtain ⟨ht, h⟩ := List.forall_mem_cons.1 h
    rw [Token.openAfter_cons, bracketStep_plain (hplain _ ht).1 (hplain _ ht).2]
    exact ih h

/-- Imports belong to the statement, and so do semicolons between them if they stand in brackets. -/
theorem statementEnd_specs {a : Nat} (h : ∀ t ∈ specs,
    t.kind ∈ [Kind.ident, .dot, .string, .rawString] ∨ t.kind = .semi ∧ 0 < a) :
    Token.statementEnd a (specs ++ ts) = Token.statementEnd a ts := by
  have hplain : ∀ k ∈ [Kind.ident, .dot, .string, .rawString],
      k ≠ .semi ∧ ¬ k.opens = true ∧ ¬ k.closes = true := by decide
  induction specs with
  | nil => rfl
  | cons t specs ih =>
    obtain ⟨ht, h⟩ := List.forall_mem_cons.1 h
    have hstep : t.kind.innerStep a = some a := by
      rcases ht with ht | ⟨hk, ha⟩
      · obtain ⟨hsemi, ho, hc⟩ := hplain _ ht
        exact innerStep_of_bracketStep (fun h => hsemi h.1) (bracketStep_plain ho hc)
      · refine innerStep_of_bracketStep (fun h => ha.ne' h.2) ?_
        rw [hk]
        rfl
    rw [List.cons_append, Token.statementEnd_cons hstep]
    exact ih h

/-- The brackets of an import declaration are closed. -/
theorem IsImportRun.openAfter {run : List Token} (h : IsImportRun run) :
    Token.openAfter 0 run = some 0 := by
  obtain ⟨keyword, specs, hkeyword, ⟨rfl, hk⟩ | ⟨op, cl, ho, hc, rfl, hk⟩⟩ := h
  · have hk : ∀ t ∈ specs, t.kind ∈ [Kind.ident, .dot, .string, .rawString, .semi] :=
      fun t ht => List.mem_append_left [Kind.semi] (hk t ht)
    rw [Token.openAfter_cons, hkeyword]
    exact openAfter_specs 0 hk
  · have hclose : Token.openAfter 1 [cl] = some 0 := by
      rw [Token.openAfter_cons, hc]
      rfl
    rw [Token.openAfter_cons, hkeyword]
    show Token.openAfter 0 (op :: (specs ++ [cl])) = _
    rw [Token.openAfter_cons, ho]
    exact Token.openAfter_trans (openAfter_specs 1 hk) hclose

/-- An import declaration is read within its statement. -/
theorem IsImportRun.statementEnd {run : List Token} (h : IsImportRun run) (a : Nat) :
    Token.statementEnd a (run ++ ts) = Token.statementEnd a ts := by
  obtain ⟨keyword, specs, hkeyword, ⟨rfl, hk⟩ | ⟨op, cl, ho, hc, rfl, hk⟩⟩ := h
  · rw [List.cons_append, Token.statementEnd_cons (b := a) (by rw [hkeyword]; rfl)]
    exact statementEnd_specs fun t ht => Or.inl (hk t ht)
  · have hspecs : ∀ t ∈ specs,
        t.kind ∈ [Kind.ident, .dot, .string, .rawString] ∨ t.kind = .semi ∧ 0 < a + 1 := by
      intro t ht
      rcases List.mem_append.1 (show t.kind ∈ [Kind.ident, .dot, .string, .rawString] ++ [.semi]
        from hk t ht) with ht | ht
      · exact Or.inl ht
      · exact Or.inr ⟨List.mem_singleton.1 ht, Nat.succ_pos a⟩
    have htokens : keyword :: op :: (specs ++ [cl]) ++ ts =
        keyword :: op :: (specs ++ cl :: ts) := by simp
    rw [htokens, Token.statementEnd_cons (b := a) (by rw [hkeyword]; rfl),
      Token.statementEnd_cons (b := a + 1) (by rw [ho]; rfl), statementEnd_specs hspecs,
      Token.statementEnd_cons (b := a) (by rw [hc]; rfl)]

end ImportRun

namespace Spans

variable {a b c : Nat} {rest : List Token} {xs ys : List Segment}

theorem append (h : Spans (Segment.allTokens ys ++ rest) a xs b) (hy : Spans rest b ys c) :
    Spans rest a (xs ++ ys) c := by
  have hafter : ∀ xs : List Segment, Segment.allTokens (xs ++ ys) ++ rest =
      Segment.allTokens xs ++ (Segment.allTokens ys ++ rest) := by
    intro xs
    rw [Segment.allTokens_append, List.append_assoc]
  induction h with
  | nil => exact hy
  | token hdot himport hstep _ ih => exact .token hdot himport hstep (ih hy)
  | reference hp hd hn _ ih => exact .reference hp hd hn (ih hy)
  | @imports a b run xs hrun hnext _ ih =>
    rw [← hafter] at hnext
    exact .imports hrun hnext (ih hy)
  | enclosed ho hrun hclose _ ih => exact .enclosed ho hrun hclose (ih hy)
  | @text a b d sign run xs hsign hr hrun hend hnext _ ih =>
    rw [← hafter] at hr hend hnext
    exact .text hsign hr hrun hend hnext (ih hy)

theorem suffix (h : Spans rest a (xs ++ ys) b) : ∃ c, Spans rest c ys b := by
  induction xs generalizing a with
  | nil => exact ⟨a, h⟩
  | cons x xs ih =>
    cases h with
    | token _ _ _ h | reference _ _ _ h | imports _ _ h | enclosed _ _ _ h | text _ _ _ _ _ h =>
      exact ih h

/-- Segments without tokens keep nothing. -/
theorem extracts_nil (h : Spans rest a xs b) (hx : Segment.allTokens xs = []) :
    Segment.extracts xs = [] := by
  cases h with
  | nil => rfl
  | token _ _ _ _ | reference _ _ _ _ | enclosed _ _ _ _ => cases hx
  | imports hrun _ _ =>
    obtain ⟨keyword, specs, -, ⟨rfl, -⟩ | ⟨op, cl, -, -, rfl, -⟩⟩ := hrun <;> cases hx
  | @text _ _ _ sign run _ _ hr _ _ _ _ =>
    obtain ⟨hx, -⟩ := List.append_eq_nil_iff.1 hx
    obtain ⟨t, ht, -⟩ := hr.first
    rw [(List.append_eq_nil_iff.1 hx).2] at ht
    cases ht

/-- Whether segments lead from one number of open brackets to another, except that a run at the end
of the file leaves some open. -/
def Closes (rest : List Token) (a : Nat) (xs : List Segment) (b : Nat) : Prop :=
  Token.openAfter a (Segment.allTokens xs) = some b ∨
    rest = [] ∧ ∃ before run d, Segment.allTokens xs = before ++ run ∧
      Token.openAfter a before = some b ∧ Token.openAfter 0 run = some (d + 1) ∧
      (.value (Token.spell run) ∈ Segment.extracts xs ∨
        .unsupported (Token.spell run) ∈ Segment.extracts xs)

theorem closes_cons {x : Segment} (hx : Token.openAfter a x.tokens = some b)
    (h : Closes rest b xs c) : Closes rest a (x :: xs) c := by
  rcases h with h | ⟨hr, before, run, d, he, hbefore, hrun, hm⟩
  · exact Or.inl (Token.openAfter_trans hx h)
  · refine Or.inr ⟨hr, x.tokens ++ before, run, d, ?_, Token.openAfter_trans hx hbefore, hrun, ?_⟩
    · rw [Segment.allTokens_cons, he, List.append_assoc]
    · have hsub : Segment.extracts xs ⊆ Segment.extracts (x :: xs) :=
        (List.sublist_cons_self x xs).filterMap _ |>.subset
      exact hm.imp (@hsub _) (@hsub _)

/-- The sign in front of an initializer is no bracket. -/
theorem openAfter_sign {sign : Option Token} (h : ∀ t ∈ sign, t.kind = .assign ∨ t.kind = .comma)
    (d : Nat) : Token.openAfter d sign.toList = some d := by
  cases sign with
  | none => rfl
  | some t =>
    show Token.openAfter d [t] = some d
    rcases h t rfl with hk | hk <;> (rw [Token.openAfter_cons, hk]; rfl)

/-- **The brackets of segments are closed**, but for a run at the end of the file. -/
theorem closes (h : Spans rest a xs b) : Closes rest a xs b := by
  induction h with
  | nil => exact Or.inl rfl
  | token _ _ hstep _ ih =>
    refine closes_cons ?_ ih
    show Token.openAfter _ [_] = _
    rw [Token.openAfter_cons, hstep]
    rfl
  | reference hp hd hn _ ih =>
    refine closes_cons ?_ ih
    show Token.openAfter _ [_, _, _] = _
    simp [Token.openAfter_cons, hp, hd, hn, Kind.bracketStep, Kind.opens, Kind.closes]
  | @imports a b run xs hrun _ _ ih =>
    have hrun := Token.openAfter_add hrun.openAfter a
    rw [Nat.zero_add] at hrun
    exact closes_cons hrun ih
  | @enclosed a b opening run close xs ho hrun hclose _ ih =>
    refine closes_cons ?_ ih
    have hopening : opening.kind.bracketStep a = some (a + 1) := by
      rcases ho with ho | ho <;> (rw [ho]; rfl)
    have hrun := Token.openAfter_add hrun (a + 1)
    have hclose := bracketStep_add hclose a
    rw [Nat.zero_add] at hrun hclose
    show Token.openAfter a (opening :: (run ++ [close])) = some a
    rw [Token.openAfter_cons, hopening]
    refine Token.openAfter_trans hrun ?_
    rw [Token.openAfter_cons, Nat.add_comm a 1, hclose]
    rfl
  | @text a b d sign run xs hsign _ hrun hend _ _ ih =>
    have hfront := openAfter_sign hsign a
    cases d with
    | zero =>
      have hrun := Token.openAfter_add hrun a
      rw [Nat.zero_add] at hrun
      exact closes_cons (Token.openAfter_trans hfront hrun) ih
    | succ d =>
      -- Nothing follows the run, so the segments behind it have no tokens.
      obtain ⟨hxs, hr⟩ := List.append_eq_nil_iff.1 (hend.resolve_left (Nat.succ_ne_zero d))
      have hdepth : Token.openAfter a [] = some b := by
        rcases ih with ih | ⟨-, before, run', d', he, hbefore, -, -⟩
        · rwa [hxs] at ih
        · rw [hxs] at he
          obtain ⟨rfl, -⟩ := List.append_eq_nil_iff.1 he.symm
          exact hbefore
      cases hdepth
      refine Or.inr ⟨hr, sign.toList, run, d, ?_, hfront, hrun, ?_⟩
      · rw [Segment.allTokens_cons, hxs, List.append_nil]
        rfl
      · cases sign with
        | none => exact Or.inr List.mem_cons_self
        | some t => exact Or.inl List.mem_cons_self

end Spans

/-! ## Tokens that are read -/

/-- The number of open brackets behind a token of a statement that is a segment of its own. -/
def Kind.plainStep (depth : Nat) (k : Kind) : Option Nat :=
  if k = .dot ∨ k = .kwImport then none else k.innerStep depth

theorem plainStep_eq_some {k : Kind} {a b : Nat} (h : k.plainStep a = some b) :
    k ≠ .dot ∧ k ≠ .kwImport ∧ k.innerStep a = some b := by
  unfold Kind.plainStep at h
  split at h
  · cases h
  · next hk =>
    rw [not_or] at hk
    exact ⟨hk.1, hk.2, h⟩

theorem plainStep_semi (a : Nat) : Kind.semi.plainStep (a + 1) = some (a + 1) := by
  simp [Kind.plainStep, Kind.innerStep, Kind.bracketStep, Kind.opens, Kind.closes]

/-- How the tokens in front of `rest` are read: as segments from `a` to `b` open brackets, of which
`kept` is kept, within a statement. -/
structure Covers (ts rest : List Token) (a b : Nat) (kept : List Extract) : Prop where
  segments : ∃ xs, ts = Segment.allTokens xs ++ rest ∧ Spans rest a xs b ∧
    kept = Segment.extracts xs
  statement : Token.statementEnd a ts = Token.statementEnd b rest

namespace Covers

variable {a b c : Nat} {t : Token} {ts mid rest : List Token} {es fs : List Extract}

theorem nil : Covers ts ts a a [] := ⟨⟨[], rfl, .nil, rfl⟩, rfl⟩

theorem append (h : Covers ts mid a b es) (hm : Covers mid rest b c fs) :
    Covers ts rest a c (es ++ fs) := by
  obtain ⟨ys, rfl, hys, rfl⟩ := hm.segments
  obtain ⟨xs, rfl, hxs, rfl⟩ := h.segments
  refine ⟨⟨xs ++ ys, ?_, hxs.append hys, (Segment.extracts_append xs ys).symm⟩,
    h.statement.trans hm.statement⟩
  rw [Segment.allTokens_append, List.append_assoc]

theorem token (hk : t.kind.plainStep a = some b) (h : Covers ts rest b c es) :
    Covers (t :: ts) rest a c es := by
  obtain ⟨hdot, himport, hstep⟩ := plainStep_eq_some hk
  obtain ⟨xs, rfl, hxs, he⟩ := h.segments
  exact ⟨⟨.token t :: xs, rfl, .token hdot himport (innerStep_eq_some hstep).2 hxs, he⟩,
    (Token.statementEnd_cons hstep).trans h.statement⟩

theorem reference {package dot name : Token} (hp : package.kind = .ident) (hd : dot.kind = .dot)
    (hn : name.kind = .ident) (h : Covers ts rest a b es) :
    Covers (package :: dot :: name :: ts) rest a b (.reference package.text :: es) := by
  obtain ⟨xs, rfl, hxs, rfl⟩ := h.segments
  refine ⟨⟨.reference package dot name :: xs, rfl, .reference hp hd hn hxs, rfl⟩, ?_⟩
  rw [Token.statementEnd_cons (b := a) (by rw [hp]; rfl),
    Token.statementEnd_cons (b := a) (by rw [hd]; rfl),
    Token.statementEnd_cons (b := a) (by rw [hn]; rfl)]
  exact h.statement

theorem imports {run : List Token} (hrun : IsImportRun run)
    (hnext : ∀ t ∈ ts.head?, t.kind = .semi) : Covers (run ++ ts) ts a a [] :=
  ⟨⟨[.imports run], by simp [Segment.tokens], .imports hrun hnext .nil, rfl⟩,
    hrun.statementEnd a⟩

/-- A run in brackets. -/
theorem enclosed {opening close : Token} {run : List Token}
    (ho : opening.kind = .lbrace ∨ opening.kind = .lbrack)
    (hs : Token.splitClose? 0 ts = some (run, close, rest)) :
    Covers (opening :: ts) rest a a (Segment.extracts [.enclosed opening run close]) := by
  obtain ⟨hrun, hclose⟩ := Token.openAfter_splitClose? hs
  refine ⟨⟨[.enclosed opening run close], ?_, .enclosed ho hrun hclose .nil, rfl⟩, ?_⟩
  · rw [splitClose?_eq hs]
    simp [Segment.tokens]
  · have hstep : opening.kind.innerStep a = some (a + 1) := by
      rcases ho with ho | ho <;> (rw [ho]; rfl)
    rw [Token.statementEnd_cons hstep]
    exact Token.statementEnd_splitClose? hs

/-- A run outside brackets. -/
theorem text (sign : Option Token) {delimiters : List Kind} {run : List Token}
    (hsign : ∀ t ∈ sign, t.kind = .assign ∨ t.kind = .comma)
    (hs : Token.splitBalanced delimiters 0 ts = (run, rest)) (hne : run ≠ [])
    (hd : ∀ k ∈ delimiters, k ∈ [Kind.comma, .semi, .pipe]) (hsemi : .semi ∈ delimiters) :
    Covers (sign.toList ++ ts) rest a a (Segment.extracts [.text sign run]) := by
  have happend := splitBalanced_append delimiters 0 ts
  rw [hs] at happend
  obtain ⟨d, hrun, hend⟩ := Token.openAfter_splitBalanced hs
  have hnext := fun t ht => (Token.next_splitBalanced hs t ht).imp_right (hd _)
  have hisRun : IsTextRun run rest := by
    have hopens : ∀ k ∈ [Kind.comma, .semi, .pipe], k.opens = false := by decide
    obtain ⟨t, run', rfl⟩ := List.exists_cons_of_ne_nil hne
    refine ⟨⟨t, rfl, fun hk => ?_⟩, ?_⟩
    · rw [← happend] at hs
      refine splitBalanced_first hs hne (fun k hm => hopens k (hd k hm)) ?_
      rwa [hk]
    · exact (Token.ends_splitBalanced hsemi hs).imp_right fun h =>
        h.resolve_left fun hnil => hne hnil.1
  refine ⟨⟨[.text sign run], ?_, .text hsign hisRun hrun hend hnext .nil, rfl⟩, ?_⟩
  · rw [← happend]
    simp [Segment.tokens]
  · have hfront : Token.statementEnd a (sign.toList ++ ts) = Token.statementEnd a ts := by
      cases sign with
      | none => rfl
      | some t =>
        refine Token.statementEnd_cons ?_
        rcases hsign t rfl with hk | hk <;> (rw [hk]; rfl)
    exact hfront.trans (Token.statementEnd_splitBalanced hsemi hs)

end Covers

/-! ## Parsers -/

/-- What a parser reads of some tokens: it goes from `a` to `b` open brackets, and what is kept
behind what is owed is what the result keeps. -/
def ReadsFrom {α : Type} (ts : List Token) (a b : Nat) (owed : List Extract) (p : Parser α)
    (g : α → List Extract) : Prop :=
  ∀ (v : α) (rest : List Token), p ts = .ok (v, rest) →
    ∃ kept, Covers ts rest a b kept ∧ g v = owed ++ kept

@[inherit_doc ReadsFrom]
def Reads {α : Type} (a b : Nat) (owed : List Extract) (p : Parser α)
    (g : α → List Extract) : Prop :=
  ∀ ts, ReadsFrom ts a b owed p g

section Combinators

variable {α β : Type} {a b c : Nat} {owed : List Extract} {ts : List Token} {t : Token}
  {p q : Parser α} {f : α → Parser β} {g : α → List Extract} {h : β → List Extract}

theorem reads_pure {v : α} (hv : owed = g v) : Reads a a owed (pure v) g := by
  intro ts w rest he
  cases he
  exact ⟨[], .nil, by rw [hv, List.append_nil]⟩

theorem reads_fail (message : String) : Reads a b owed (fail message : Parser α) g := by
  intro ts v rest he
  cases he

theorem reads_exhaust : Reads a b owed (exhaust : Parser α) g := by
  intro ts v rest he
  cases he

/-- One parser and then another, whose result keeps what the first one has kept. -/
theorem ReadsFrom.bind (hp : ReadsFrom ts a b [] p g)
    (hf : ∀ v, Reads b c (owed ++ g v) (f v) h) : ReadsFrom ts a c owed (p >>= f) h := by
  intro w rest he
  obtain ⟨v, mid, hr, hrest⟩ := bind_eq_ok he
  obtain ⟨es, hes, hg⟩ := hp _ _ hr
  obtain ⟨fs, hfs, hh⟩ := hf v _ _ _ hrest
  exact ⟨es ++ fs, hes.append hfs, by rw [hh, hg, List.nil_append, List.append_assoc]⟩

theorem Reads.bind (hp : Reads a b [] p g) (hf : ∀ v, Reads b c (owed ++ g v) (f v) h) :
    Reads a c owed (p >>= f) h :=
  fun ts => (hp ts).bind hf

theorem ReadsFrom.map {f : α → β} (hp : ReadsFrom ts a b [] p g)
    (hg : ∀ v, owed ++ g v = h (f v)) : ReadsFrom ts a b owed (f <$> p) h := by
  have hbind : f <$> p = p >>= fun v => pure (f v) := by
    funext ts
    rw [map_apply, bind_apply]
    rfl
  rw [hbind]
  exact hp.bind fun v => reads_pure (hg v)

theorem Reads.map {f : α → β} (hp : Reads a b [] p g) (hg : ∀ v, owed ++ g v = h (f v)) :
    Reads a b owed (f <$> p) h :=
  fun ts => (hp ts).map hg

theorem reads_ite {c : Prop} [Decidable c] (hp : c → Reads a b owed p g)
    (hq : ¬ c → Reads a b owed q g) : Reads a b owed (if c then p else q) g := by
  split
  · next hc => exact hp hc
  · next hc => exact hq hc

theorem Reads.owing {owed' : List Extract} (hp : Reads a b owed p g) (he : owed = owed') :
    Reads a b owed' p g := he ▸ hp

/-! A look at the tokens reads none of them. -/

theorem Reads.remaining {f : List Token → Parser α} (hf : ∀ ts, ReadsFrom ts a b owed (f ts) g) :
    Reads a b owed (Parser.remaining >>= f) g :=
  fun ts v rest he => hf ts v rest he

theorem Reads.peek {f : Option Kind → Parser α} (hnone : Reads a b owed (f none) g)
    (hsome : ∀ t ts k, t.kind = k → ReadsFrom (t :: ts) a b owed (f (some k)) g) :
    Reads a b owed (Parser.peek >>= f) g := by
  intro ts v rest he
  cases ts with
  | nil => exact hnone _ _ _ he
  | cons t ts => exact hsome t ts _ rfl _ _ he

theorem Reads.isAt {f : Bool → Parser α} {kind : Kind}
    (htrue : ∀ t ts, t.kind = kind → ReadsFrom (t :: ts) a b owed (f true) g)
    (hfalse : Reads a b owed (f false) g) :
    Reads a b owed (Parser.isAt kind >>= f) g := by
  intro ts v rest he
  cases ts with
  | nil => exact hfalse _ _ _ he
  | cons t ts =>
    rw [bind_apply, isAt_cons] at he
    cases hk : t.kind == kind with
    | true =>
      rw [hk] at he
      exact htrue t ts (eq_of_beq hk) _ _ he
    | false =>
      rw [hk] at he
      exact hfalse _ _ _ he

/-! A single token. -/

theorem ReadsFrom.cons (hk : t.kind.plainStep a = some b) (hp : ReadsFrom ts b c owed p g)
    {v : α} {rest : List Token} (he : p ts = .ok (v, rest)) :
    ∃ kept, Covers (t :: ts) rest a c kept ∧ g v = owed ++ kept := by
  obtain ⟨kept, hkept, hg⟩ := hp _ _ he
  exact ⟨kept, .token hk hkept, hg⟩

theorem ReadsFrom.advance {f : Unit → Parser α} (hk : t.kind.plainStep a = some b)
    (hf : Reads b c owed (f ()) g) : ReadsFrom (t :: ts) a c owed (Parser.advance >>= f) g :=
  fun _ _ he => ReadsFrom.cons hk (hf ts) he

theorem eat_eq_ok {kind : Kind} {ts rest : List Token} {eaten : Bool}
    (h : Parser.eat kind ts = .ok (eaten, rest)) :
    (eaten = true ∧ ∃ t, ts = t :: rest ∧ t.kind = kind) ∨ (eaten = false ∧ ts = rest) := by
  cases ts with
  | nil =>
    cases h
    exact Or.inr ⟨rfl, rfl⟩
  | cons t ts =>
    rw [Parser.eat] at h
    split at h
    · next heq =>
      cases h
      exact Or.inl ⟨rfl, t, rfl, eq_of_beq heq⟩
    · cases h
      exact Or.inr ⟨rfl, rfl⟩

theorem Reads.eat {f : Bool → Parser α} {kind : Kind} (hk : kind.plainStep a = some b)
    (ht : Reads b c owed (f true) g) (hf : Reads a c owed (f false) g) :
    Reads a c owed (Parser.eat kind >>= f) g := by
  intro ts v rest he
  obtain ⟨eaten, mid, hr, hrest⟩ := bind_eq_ok he
  obtain ⟨rfl, t, rfl, rfl⟩ | ⟨rfl, rfl⟩ := eat_eq_ok hr
  · exact ReadsFrom.cons hk (ht _) hrest
  · exact hf _ _ _ hrest

theorem expect_eq_ok {kind : Kind} {what : String} {ts rest : List Token} {t : Token}
    (h : Parser.expect kind what ts = .ok (t, rest)) : ts = t :: rest ∧ t.kind = kind := by
  cases ts with
  | nil => cases h
  | cons u ts =>
    rw [Parser.expect] at h
    split at h
    · next heq =>
      cases h
      exact ⟨rfl, eq_of_beq heq⟩
    · cases h

theorem ident_eq_ok {ts rest : List Token} {s : String} (h : ident ts = .ok (s, rest)) :
    ∃ t, ts = t :: rest ∧ t.kind = .ident ∧ t.text = s := by
  obtain ⟨t, mid, ht, h⟩ := bind_eq_ok h
  cases h
  obtain ⟨rfl, hk⟩ := expect_eq_ok ht
  exact ⟨t, rfl, hk, rfl⟩

theorem Reads.expect {f : Token → Parser α} {kind : Kind} {what : String}
    (hk : kind.plainStep a = some b) (hf : ∀ t, Reads b c owed (f t) g) :
    Reads a c owed (Parser.expect kind what >>= f) g := by
  intro ts v rest he
  obtain ⟨t, mid, hr, hrest⟩ := bind_eq_ok he
  obtain ⟨rfl, rfl⟩ := expect_eq_ok hr
  exact ReadsFrom.cons hk (hf _ _) hrest

/-- No name is kept. -/
theorem reads_ident : Reads a a [] ident fun _ => [] := by
  unfold ident
  exact .expect rfl fun t => reads_pure rfl

/-- A parser of what stands behind a part that is already read. -/
theorem Reads.behind {us : List Token} (hp : Reads b c owed p g) (hus : Covers us ts a b owed)
    {v : α} {rest : List Token} (he : p ts = .ok (v, rest)) :
    ∃ kept, Covers us rest a c kept ∧ g v = [] ++ kept := by
  obtain ⟨kept, hkept, hg⟩ := hp _ _ _ he
  exact ⟨owed ++ kept, hus.append hkept, hg⟩

/-! ## Lists -/

theorem flatMap_nothing (vs : List α) : (vs.flatMap fun _ => ([] : List Extract)) = [] :=
  List.flatMap_eq_nil_iff.2 fun _ _ => rfl

variable (hi : ∀ a, Reads a a [] p g)
include hi

theorem reads_separatedTail {sep : Kind} (hs : ∀ d, sep.plainStep d = some d) (n a : Nat) :
    Reads a a [] (separatedTail sep p n) fun vs => vs.flatMap g := by
  induction n with
  | zero => exact reads_exhaust
  | succ n ih =>
    rw [separatedTail]
    refine .eat (hs a) ?_ (reads_pure rfl)
    exact (hi a).bind fun v => ih.bind fun vs => reads_pure rfl

theorem reads_separated {sep : Kind} (hs : ∀ d, sep.plainStep d = some d) (a : Nat) :
    Reads a a [] (separated sep p) fun vs => vs.flatMap g := by
  refine (hi a).bind fun v => .remaining fun ts => ?_
  exact ReadsFrom.bind (reads_separatedTail hi hs _ a ts) fun vs => reads_pure rfl

variable {close : Kind} (hc : ∀ d, close.plainStep (d + 1) = some d)
include hc

theorem reads_commaListLoop (what : String) (n a : Nat) :
    Reads (a + 1) a [] (commaListLoop close what p n) fun vs => vs.flatMap g := by
  induction n with
  | zero => exact reads_exhaust
  | succ n ih =>
    rw [commaListLoop]
    refine .eat (hc a) (reads_pure rfl) ?_
    refine (hi (a + 1)).bind fun v => ?_
    have hrest : Reads (a + 1) a (g v) (do return v :: (← commaListLoop close what p n))
        fun vs => vs.flatMap g :=
      ih.bind fun vs => reads_pure rfl
    exact .isAt (fun t ts _ => hrest _) (.expect rfl fun _ => hrest)

theorem reads_commaList (what : String) (a : Nat) :
    Reads (a + 1) a [] (commaList close what p) fun vs => vs.flatMap g :=
  .remaining fun ts => reads_commaListLoop hi hc what _ a ts

theorem reads_semicolonListLoop (what : String) (n a : Nat) :
    Reads (a + 1) a [] (semicolonListLoop close what p n) fun vs => vs.flatMap g := by
  induction n with
  | zero => exact reads_exhaust
  | succ n ih =>
    rw [semicolonListLoop]
    refine .eat (hc a) (reads_pure rfl) (.eat (plainStep_semi a) ih ?_)
    refine (hi (a + 1)).bind fun v => ?_
    have hrest : Reads (a + 1) a (g v) (do return v :: (← semicolonListLoop close what p n))
        fun vs => vs.flatMap g :=
      ih.bind fun vs => reads_pure rfl
    exact .isAt (fun t ts _ => hrest _) (.expect (plainStep_semi a) fun _ => hrest)

theorem reads_semicolonList (what : String) (a : Nat) :
    Reads (a + 1) a [] (semicolonList close what p) fun vs => vs.flatMap g :=
  .remaining fun ts => reads_semicolonListLoop hi hc what _ a ts

end Combinators

end Understudy.Source

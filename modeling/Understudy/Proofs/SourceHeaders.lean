import Understudy.Modules.Target
import Understudy.Proofs.BodyIndentation
import Understudy.Proofs.ParsedFiles
import Understudy.Proofs.ParsedLengths
import Understudy.Proofs.PrintedText

/-!
# Headers of source files

Whether a file belongs to a build is decided by the constraint in front of its package clause. The
search for it goes by lines, and takes a line for the package clause by what it begins with, while the
parser finds the clause by its tokens. If the keyword is the first word of its line and a space follows
it, or nothing more on the line, then the search ends there, or before:

> **Of two files with the same header both belong to a build or neither** (`matchesSource_header`).

Otherwise the search goes on behind the clause, and takes a constraint from there
(`matchesSource_tab`).
-/

set_option autoImplicit false

namespace Understudy.Text

open Source

/-! ## Lines without the blanks around them -/

/-- The lines of a text that have ended, with their ends. -/
def fullLines (cs : List Char) : List Char := (cs.reverse.dropWhile (· != '\n')).reverse

/-- What stands behind the last line end of a text. -/
def lastLine (cs : List Char) : List Char := (cs.reverse.takeWhile (· != '\n')).reverse

variable {l cs : List Char}

theorem fullLines_append_lastLine (cs : List Char) : fullLines cs ++ lastLine cs = cs := by
  rw [fullLines, lastLine, ← List.reverse_append, List.takeWhile_append_dropWhile,
    List.reverse_reverse]

theorem not_mem_lastLine (cs : List Char) : '\n' ∉ lastLine cs := by
  intro h
  exact absurd (List.mem_takeWhile_imp (List.mem_reverse.1 h)) (by decide)

theorem fullLines_last (cs : List Char) : ∀ c ∈ (fullLines cs).getLast?, c = '\n' := by
  intro c hc
  rw [fullLines, List.getLast?_reverse] at hc
  have hnot := List.head?_dropWhile_not (· != '\n') cs.reverse
  rw [Option.mem_def.1 hc] at hnot
  simpa using hnot

theorem trim_return (l : List Char) : trim (l ++ ['\r']) = trim l := by
  obtain ⟨pre, core, post, rfl, hpre, hpost, hfirst, hlast⟩ := exists_core isBlank l
  have hpost' : ∀ c ∈ post ++ ['\r'], isBlank c = true :=
    List.forall_mem_append.2 ⟨hpost, List.forall_mem_singleton.2 (by decide)⟩
  rw [trim_append hpre hpost hfirst hlast, List.append_assoc, List.append_assoc,
    trim_append hpre hpost' hfirst hlast]

/-- **The first line of a text** goes on to its first line end. -/
theorem trim_firstLine (hl : '\n' ∉ l) (hne : l ≠ []) (rest : List Char) :
    ∃ others, (lines (l ++ rest)).map trim = trim (l ++ rest.takeWhile (· != '\n')) :: others := by
  have hline : '\n' ∉ l ++ rest.takeWhile (· != '\n') := by
    rw [List.mem_append, not_or]
    exact ⟨hl, fun h => absurd (List.mem_takeWhile_imp h) (by decide)⟩
  have hsplit : l ++ rest = (l ++ rest.takeWhile (· != '\n')) ++ rest.dropWhile (· != '\n') := by
    rw [List.append_assoc, List.takeWhile_append_dropWhile]
  rw [hsplit]
  cases hrest : rest.dropWhile (· != '\n') with
  | nil =>
    rw [List.append_nil, lines_unended hline (by simp [hne])]
    exact ⟨[], rfl⟩
  | cons c more =>
    have hnot := List.head?_dropWhile_not (· != '\n') rest
    rw [hrest] at hnot
    obtain rfl : c = '\n' := by simpa using hnot
    obtain ⟨m, hm, hl' | hl'⟩ := lines_line hline more
    · exact ⟨(lines more).map trim, by rw [hm, List.map_cons, ← hl']⟩
    · exact ⟨(lines more).map trim, by rw [hm, List.map_cons, hl', trim_return]⟩

theorem lines_ne_nil (h : cs ≠ []) : lines cs ≠ [] := by
  fun_cases lines cs with
  | case1 => exact absurd rfl h
  | _ => exact List.cons_ne_nil _ _

/-- **Lines that have ended** are lines of the text, whatever stands behind them. -/
theorem lines_append (h : ∀ c ∈ cs.getLast?, c = '\n') (rest : List Char) :
    lines (cs ++ rest) = lines cs ++ lines rest := by
  have htail : ∀ {c : Char} {cs : List Char}, (∀ d ∈ (c :: cs).getLast?, d = '\n') →
      ∀ d ∈ cs.getLast?, d = '\n' := by
    intro c cs h d hd
    exact h d (by rw [List.getLast?_cons, Option.mem_def.1 hd]; rfl)
  fun_induction lines cs with
  | case1 => rfl
  | case2 cs ih => rw [List.cons_append, lines, ih (htail h), List.cons_append]
  | case3 cs ih =>
    rw [List.cons_append, List.cons_append, lines, ih (htail (htail h)), List.cons_append]
  | case4 c cs hn _ heq _ =>
    -- A last line that has not ended would be a line of its own.
    have hcs : cs = [] := by
      by_contra hne
      exact lines_ne_nil hne heq
    exact absurd (h c (by simp [hcs])) hn
  | case5 c cs hn hr l ls heq ih =>
    have hnext : c = '\r' → (cs ++ rest).head? ≠ some '\n' := by
      intro hc hd
      cases cs with
      | nil => simp [lines] at heq
      | cons d cs => exact hr cs hc (by rw [Option.some.inj hd])
    rw [List.cons_append, lines_cons hn hnext, ih (htail h), heq]
    rfl

end Understudy.Text

namespace Understudy.Modules.Target

open Text Source

/-! ## The search for the constraint -/

/-- Whether a line ends the search: the package clause, or a constraint. -/
def endsSearch (line : List Char) : Bool := isPackageClause line || (constraintIn? line).isSome

section Search

variable {as bs : List (List Char)}

theorem constraintOf?_cons (l : List Char) (ls : List (List Char)) :
    constraintOf? (l :: ls) =
      if isPackageClause (trim l) then none
      else (constraintIn? (trim l)).or (constraintOf? ls) := by
  rw [constraintOf?, List.map_cons, List.takeWhile_cons]
  split
  · next h =>
    rw [if_neg (by simpa using h), List.findSome?_cons]
    cases constraintIn? (trim l) <;> rfl
  · next h =>
    rw [if_pos (by simpa using h)]
    rfl

/-- **What stands behind a line that ends the search does not matter**, -/
theorem constraintOf?_of_ends (h : ∃ l ∈ as, endsSearch (trim l) = true) :
    constraintOf? (as ++ bs) = constraintOf? as := by
  induction as with
  | nil => simp at h
  | cons l as ih =>
    rw [List.cons_append, constraintOf?_cons, constraintOf?_cons]
    split
    · rfl
    · next hclause =>
      cases hl : constraintIn? (trim l) with
      | some found => rfl
      | none =>
        obtain ⟨m, hm, hends⟩ := h
        rcases List.mem_cons.1 hm with rfl | hm
        · simp [endsSearch, hclause, hl] at hends
        · rw [ih ⟨m, hm, hends⟩]

/-- and neither does what stands in front without ending it. -/
theorem constraintOf?_of_not_ends (h : ∀ l ∈ as, endsSearch (trim l) = false) :
    constraintOf? (as ++ bs) = constraintOf? bs := by
  induction as with
  | nil => rfl
  | cons l as ih =>
    obtain ⟨hl, has⟩ := List.forall_mem_cons.1 h
    rw [endsSearch, Bool.or_eq_false_iff, Option.isSome_eq_false_iff, Option.isNone_iff_eq_none] at hl
    rw [List.cons_append, constraintOf?_cons, if_neg (by simp [hl.1]), hl.2, ih has]
    rfl

end Search

/-- The keyword that a file begins with. -/
def packageWord : List Char := "package".toList

theorem packageWord_eq : packageWord = ['p', 'a', 'c', 'k', 'a', 'g', 'e'] := by decide +kernel

/-- Whether the search ends in the line of the package clause at the latest, when the clause stands
behind the text `header` and `rest` stands behind its keyword: it ends before, or the keyword is the
first word of its line and a space follows, or nothing but blanks. -/
def ShowsClause (header rest : List Char) : Prop :=
  (∃ l ∈ lines (fullLines header), endsSearch (trim l) = true) ∨
    ((∀ c ∈ lastLine header, isBlank c = true) ∧
      (rest.head? = some ' ' ∨ ∀ c ∈ rest.takeWhile (· != '\n'), isBlank c = true))

theorem isPackageClause_line {pre post : List Char} (hpre : ∀ c ∈ pre, isBlank c = true)
    (hpost : post.head? = some ' ' ∨ ∀ c ∈ post, isBlank c = true) :
    isPackageClause (trim (pre ++ packageWord ++ post)) = true := by
  have hgraphic : ∀ c ∈ packageWord, isBlank c = false := by
    have hcodes : ∀ c ∈ packageWord, 0x20 < c.toNat ∧ c.toNat < 0x7f := by simp [packageWord_eq]
    exact fun c hc => isBlank_of_graphic (hcodes c hc)
  have hbare : ∀ post : List Char, (∀ c ∈ post, isBlank c = true) →
      isPackageClause (trim (pre ++ packageWord ++ post)) = true := by
    intro post hpost
    rw [List.append_assoc, trim_append hpre hpost (fun c hc => hgraphic c (List.mem_of_head? hc))
      fun c hc => hgraphic c (List.mem_of_getLast? hc)]
    decide
  rcases hpost with hpost | hpost
  · obtain ⟨tail, rfl⟩ := List.head?_eq_some_iff.1 hpost
    obtain ⟨stem, blanks, rfl, hblanks, hlast⟩ := exists_stem isBlank tail
    by_cases hstem : stem = []
    · rw [hstem, List.nil_append]
      exact hbare _ (List.forall_mem_cons.2 ⟨by decide, hblanks⟩)
    · have hline : pre ++ packageWord ++ ' ' :: (stem ++ blanks) =
          pre ++ ((packageWord ++ ' ' :: stem) ++ blanks) := by simp
      have hend : (packageWord ++ ' ' :: stem).getLast? = stem.getLast? := by
        obtain ⟨c, stem, rfl⟩ := List.exists_cons_of_ne_nil hstem
        rw [List.getLast?_append, List.getLast?_cons_cons, List.getLast?_cons]
        rfl
      rw [hline, trim_append hpre hblanks (fun c hc => hgraphic c ?_) (hend ▸ hlast),
        isPackageClause, Bool.or_eq_true, List.isPrefixOf_iff_prefix]
      · exact Or.inl ⟨stem, by simp [packageWord_eq]⟩
      · exact List.mem_of_head? (Option.mem_def.1 hc ▸ rfl)
  · exact hbare post hpost

/-- **The constraint of a file is that of its header.** -/
theorem constraintOf?_header {header rest : List Char} (h : ShowsClause header rest) :
    constraintOf? (lines (header ++ packageWord ++ rest)) =
      constraintOf? (lines (fullLines header)) := by
  have hlines : lines (header ++ packageWord ++ rest) =
      lines (fullLines header) ++ lines (lastLine header ++ packageWord ++ rest) := by
    rw [← lines_append (fullLines_last header), ← List.append_assoc, ← List.append_assoc,
      fullLines_append_lastLine]
  rw [hlines]
  -- The search ends in the header, or at the clause, which is then seen on its line.
  by_cases hends : ∃ l ∈ lines (fullLines header), endsSearch (trim l) = true
  · exact constraintOf?_of_ends hends
  · obtain ⟨hpre, hpost⟩ := h.resolve_left hends
    have hnot : ∀ l ∈ lines (fullLines header), endsSearch (trim l) = false := by
      simpa using hends
    have hnone := @constraintOf?_of_not_ends _ [] hnot
    rw [List.append_nil] at hnone
    have hline : '\n' ∉ lastLine header ++ packageWord := by
      rw [List.mem_append, not_or]
      exact ⟨not_mem_lastLine header, by decide⟩
    obtain ⟨others, hothers⟩ := trim_firstLine hline (by simp [packageWord_eq]) rest
    obtain ⟨l, ls, hl⟩ : ∃ l ls, lines (lastLine header ++ packageWord ++ rest) = l :: ls := by
      refine List.exists_cons_of_ne_nil (lines_ne_nil ?_)
      simp [packageWord_eq]
    rw [hl, List.map_cons] at hothers
    have hclause : isPackageClause (trim l) = true := by
      rw [(List.cons.inj hothers).1]
      refine isPackageClause_line hpre (hpost.imp_left fun hspace => ?_)
      obtain ⟨tail, rfl⟩ := List.head?_eq_some_iff.1 hspace
      rfl
    rw [constraintOf?_of_not_ends hnot, hnone, hl, constraintOf?_cons, if_pos hclause]
    rfl

end Understudy.Modules.Target

namespace Understudy.Source

open Text

/-! ## The keyword of the package clause -/

/-- **A keyword is written in one way.** -/
theorem next_keyword {c : Char} {cs rest text : List Char} {k : Kind} {w : String}
    (hk : (w, k) ∈ Kind.keywords) (h : next c cs = (.token k text, rest)) : text = w.toList := by
  have hword : ∀ p ∈ Kind.keywords, p.2 ∉ [.ident, .number, .string, .rune, .rawString] ∧
      p.2 ∉ Kind.operators.map Prod.snd := by decide
  obtain ⟨hplain, hoperator⟩ := hword _ hk
  rcases next_token h with ⟨-, hw⟩ | ⟨rfl, -⟩ | ⟨hq, -⟩ | ⟨p, hp, rfl, -⟩
  · obtain ⟨hkind, rfl⟩ := Lexeme.token.inj (Prod.mk.inj hw).1
    split at hkind
    · exact absurd (by simp [← hkind]) hplain
    · rcases Kind.ofWord_mem (String.ofList (c :: cs.takeWhile continuesWord)) with hw | hw
      · rw [hw] at hkind
        exact absurd (by simp [← hkind]) hplain
      · rw [hkind] at hw
        have honce : ∀ p ∈ Kind.keywords, ∀ q ∈ Kind.keywords, p.2 = q.2 → p.1 = q.1 := by decide
        have hsame : String.ofList (c :: cs.takeWhile continuesWord) = w := honce _ hw _ hk rfl
        rw [← hsame, String.toList_ofList]
  · exact absurd (by simp) hplain
  · exact absurd (List.mem_cons_of_mem _ (List.mem_cons_of_mem _ hq)) hplain
  · exact absurd (List.mem_map_of_mem hp) hoperator

theorem Token.IsLexed.keyword_text {t : Token} (h : t.IsLexed) {w : String}
    (hk : (w, t.kind) ∈ Kind.keywords) : t.text.toList = w.toList := by
  rcases h with hs | ⟨c, cs, rest, hn⟩
  · rw [hs] at hk
    have hsemi : ∀ p ∈ Kind.keywords, p.2 ≠ .semi := by decide
    exact absurd rfl (hsemi _ hk)
  · exact next_keyword hk hn

theorem tokenize_lexed {source : String} {ts : List Token} (h : tokenize source = .ok ts) :
    ∀ t ∈ ts, t.IsLexed := by
  intro t ht
  obtain ⟨us, vs, rfl⟩ := List.append_of_mem ht
  exact (admitsText_scanned.suffix ⟨us, rfl⟩ (tokenize_scanned h)).lexed

/-- **A file that is parsed begins with the keyword of its package clause.** -/
theorem parse_package {source : String} {file : SourceFile}
    (h : SourceFile.parse source = .ok file) :
    ∃ t ts, tokenize source = .ok (t :: ts) ∧ t.kind = .kwPackage := by
  obtain ⟨ts, rest, ht, hf⟩ := parse_eq_ok h
  rw [Source.file] at hf
  obtain ⟨_, _, hremaining, hf⟩ := Parser.bind_eq_ok hf
  cases hremaining
  obtain ⟨t, mid, hexpect, -⟩ := Parser.bind_eq_ok hf
  obtain ⟨rfl, hk⟩ := expect_eq_ok hexpect
  exact ⟨t, mid, ht, hk⟩

theorem takeBytes_append (as bs : List Char) : takeBytes (byteSize as) (as ++ bs) = as := by
  induction as with
  | nil =>
    cases bs with
    | nil => rfl
    | cons b bs =>
      rw [byteSize, List.nil_append, takeBytes, if_neg]
      exact Nat.not_le.2 b.utf8Size_pos
  | cons a as ih =>
    rw [List.cons_append, byteSize, takeBytes, if_pos (Nat.le_add_right _ _), Nat.add_sub_cancel_left,
      ih]

/-- The text of a source file in front of a token. -/
def textBefore (source : String) (t : Token) : List Char := takeBytes t.start source.toList

/-- The text of a source file up to the end of a token. -/
def textThrough (source : String) (t : Token) : List Char := takeBytes t.stop source.toList

/-- The text of a source file behind a token. -/
def textBehind (source : String) (t : Token) : List Char :=
  source.toList.drop (textThrough source t).length

/-- A token with text stands in the source between the text before it and the text behind it. -/
theorem text_around {source : String} {t : Token} {ts : List Token} (ht : tokenize source = .ok ts)
    (hm : t ∈ ts) (hne : t.text ≠ "") :
    textThrough source t = textBefore source t ++ t.text.toList ∧
      source.toList = textThrough source t ++ textBehind source t := by
  obtain ⟨-, hslice⟩ := (tokenize_accounts ht).spans t hm hne
  obtain ⟨before, after, hsource, hstart, hstop⟩ := isSlice_iff.1 hslice
  have hbefore : textBefore source t = before := by
    rw [textBefore, hstart, hsource, List.append_assoc, takeBytes_append]
  have hthrough : textThrough source t = before ++ t.text.toList := by
    rw [textThrough, hstop, hsource, takeBytes_append]
  refine ⟨by rw [hthrough, hbefore], ?_⟩
  rw [textBehind, hthrough, hsource, List.drop_left]

end Understudy.Source

namespace Understudy.Modules.Target

open Text Source

/-- A file that is parsed, with its package clause taken apart. -/
theorem package_around {source : String} {file : SourceFile} {p : Token} {ts : List Token}
    (h : SourceFile.parse source = .ok file) (ht : tokenize source = .ok (p :: ts)) :
    textThrough source p = textBefore source p ++ packageWord ∧
      source.toList = textThrough source p ++ textBehind source p := by
  obtain ⟨t, us, hfirst, hk⟩ := parse_package h
  rw [ht] at hfirst
  obtain ⟨rfl, -⟩ := List.cons.inj (Except.ok.inj hfirst)
  have hlexed := tokenize_lexed ht p List.mem_cons_self
  have htext : p.text.toList = packageWord := hlexed.keyword_text (w := "package") (by rw [hk]; decide)
  have hne : p.text ≠ "" := by
    rintro hempty
    rw [hempty] at htext
    cases htext
  have haround := text_around ht List.mem_cons_self hne
  rwa [htext] at haround

/-- **Of two files with the same header both belong to a build or neither**, and at fault they are in
the same way, if the search for the constraint sees the package clause of both. Equal up to the end of
the keyword, they have the keyword in the same place. -/
theorem matchesSource_header (t : Target) {s₁ s₂ : String} {f₁ f₂ : SourceFile} {p₁ p₂ : Token}
    {ts₁ ts₂ : List Token} (h₁ : SourceFile.parse s₁ = .ok f₁) (h₂ : SourceFile.parse s₂ = .ok f₂)
    (ht₁ : tokenize s₁ = .ok (p₁ :: ts₁)) (ht₂ : tokenize s₂ = .ok (p₂ :: ts₂))
    (hsame : textThrough s₁ p₁ = textThrough s₂ p₂)
    (hc₁ : ShowsClause (textBefore s₁ p₁) (textBehind s₁ p₁))
    (hc₂ : ShowsClause (textBefore s₂ p₂) (textBehind s₂ p₂)) :
    t.matchesSource s₁ = t.matchesSource s₂ := by
  obtain ⟨hthrough₁, hs₁⟩ := package_around h₁ ht₁
  obtain ⟨hthrough₂, hs₂⟩ := package_around h₂ ht₂
  have hheader : textBefore s₁ p₁ = textBefore s₂ p₂ := by
    rw [hthrough₁, hthrough₂] at hsame
    exact List.append_cancel_right hsame
  have hconstraint : constraintOf? (lines s₁.toList) = constraintOf? (lines s₂.toList) := by
    rw [hs₁, hs₂, hthrough₁, hthrough₂, constraintOf?_header hc₁, constraintOf?_header hc₂, hheader]
  rw [matchesSource, matchesSource, hconstraint]

/-- The keyword of the package clause of the samples. -/
def sampleKeyword : Token :=
  { kind := .kwPackage, gap := "//a\n", text := "package", start := 4 }

/-- The tokens behind the keyword of the samples. -/
def sampleRest : List Token := [
  { kind := .ident, gap := " ", text := "p", start := 12 },
  { kind := .semi, gap := "", text := "", start := 13 }]

set_option maxRecDepth 2000 in
/-- A constraint behind the package clause does not count. -/
theorem matchesSource_header_sample :
    Target.default.matchesSource "//a\npackage p\n" =
      Target.default.matchesSource "//a\npackage p\n//go:build x\n" := by
  have hparse : SourceFile.parse "//a\npackage p\n" = .ok ⟨"p", [], [], false⟩ := by cbv
  have hparse' : SourceFile.parse "//a\npackage p\n//go:build x\n" = .ok ⟨"p", [], [], false⟩ := by
    cbv
  have htokens : tokenize "//a\npackage p\n" = .ok (sampleKeyword :: sampleRest) := by cbv
  have htokens' : tokenize "//a\npackage p\n//go:build x\n" = .ok (sampleKeyword :: sampleRest) := by
    cbv
  have hline : lastLine (textBefore "//a\npackage p\n" sampleKeyword) = [] := by cbv
  have hline' : lastLine (textBefore "//a\npackage p\n//go:build x\n" sampleKeyword) = [] := by cbv
  have hspace : (textBehind "//a\npackage p\n" sampleKeyword).head? = some ' ' := by cbv
  have hspace' : (textBehind "//a\npackage p\n//go:build x\n" sampleKeyword).head? = some ' ' := by
    cbv
  refine matchesSource_header default hparse hparse' htokens htokens' (by cbv)
    (Or.inr ⟨?_, Or.inl hspace⟩) (Or.inr ⟨?_, Or.inl hspace'⟩)
  · simp [hline]
  · simp [hline']

/-- **A tab behind the keyword hides the clause**: a constraint below it excludes the file. -/
theorem matchesSource_tab :
    ∃ (f₁ f₂ : SourceFile) (p : Token) (ts₁ ts₂ : List Token),
      SourceFile.parse "package\tp\n" = .ok f₁ ∧
      SourceFile.parse "package\tp\n\n//go:build ignore\n" = .ok f₂ ∧
      tokenize "package\tp\n" = .ok (p :: ts₁) ∧
      tokenize "package\tp\n\n//go:build ignore\n" = .ok (p :: ts₂) ∧
      textThrough "package\tp\n" p = textThrough "package\tp\n\n//go:build ignore\n" p ∧
      Target.default.matchesSource "package\tp\n" = .ok true ∧
      Target.default.matchesSource "package\tp\n\n//go:build ignore\n" = .ok false := by
  refine ⟨⟨"p", [], [], false⟩, ⟨"p", [], [], false⟩,
    { kind := .kwPackage, gap := "", text := "package", start := 0 },
    [{ kind := .ident, gap := "\t", text := "p", start := 8 },
      { kind := .semi, gap := "", text := "", start := 9 }],
    [{ kind := .ident, gap := "\t", text := "p", start := 8 },
      { kind := .semi, gap := "", text := "", start := 9 }], ?_, ?_, ?_, ?_, ?_, ?_, ?_⟩ <;> cbv

end Understudy.Modules.Target

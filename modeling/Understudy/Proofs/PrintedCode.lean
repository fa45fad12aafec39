import Understudy.Proofs.CutTexts
import Understudy.Proofs.LaidOutCode
import Understudy.Proofs.ParsedFiles

/-!
# Printing keeps code

Bodies and initializers are kept as text, and printing a file works on the lines of that text. It does
not change what the text says:

> **The tokens of a body that is laid out are those of the body, and the tokens of an initializer stand
> in the printed declaration** (`printed_keepsCode`),

with the same kinds and texts. Only a literal over several lines is not safe: the blanks around its
line ends are taken for layout.

For initializers there is one more condition, on the types beside them. The length of an array is kept
without the blanks around it, and so a comment at its end goes on over what is printed behind it.
-/

set_option autoImplicit false

namespace Understudy.Source

open Text

/-! ## Texts of entries -/

section Lexemes

variable {ls : List Lexeme} {lss : List (List Lexeme)}

/-- Lexemes that stand before everything, and a text behind them. -/
theorem Free.lexemes_append (h : Free ls) (cs : List Char) :
    lexemes (spellLexemes ls ++ cs) = ls ++ lexemes cs :=
  lexemes_spell_append (h.stand cs)

theorem intercalate_concat {α : Type} (sep last : List α) (xss : List (List α)) :
    List.intercalate sep (xss ++ [last]) = xss.flatMap (· ++ sep) ++ last := by
  induction xss with
  | nil => rw [List.nil_append, List.intercalate_singleton, List.flatMap_nil, List.nil_append]
  | cons xs xss ih =>
    obtain ⟨ys, yss, hys⟩ : ∃ ys yss, xss ++ [last] = ys :: yss :=
      List.exists_cons_of_ne_nil (by simp)
    rw [List.cons_append, hys, List.intercalate_cons_cons, ← hys, ih, List.flatMap_cons,
      ← List.append_assoc]

theorem infix_intercalate {α : Type} (sep : List α) {xs : List α} {xss : List (List α)}
    (h : xs ∈ xss) : xs <:+: List.intercalate sep xss := by
  obtain ⟨before, after, rfl⟩ := List.append_of_mem h
  have hstart : ∀ yss, xs <+: List.intercalate sep (xs :: yss) := by
    rintro (_ | ⟨ys, yss⟩)
    · rw [List.intercalate_singleton]
    · rw [List.intercalate_cons_cons, List.append_assoc]
      exact List.prefix_append _ _
  clear h
  induction before with
  | nil => exact (hstart after).isInfix
  | cons ys before ih =>
    rw [List.cons_append, List.intercalate_cons_of_ne_nil (by simp)]
    exact ih.trans (List.suffix_append _ _).isInfix

theorem free_commas (h : ∀ ls ∈ lss, Sound ls) :
    Free (lss.flatMap (· ++ [.token .comma [','], .layout [' ']])) := by
  induction lss with
  | nil => exact free_nil
  | cons ls lss ih =>
    obtain ⟨hl, h⟩ := List.forall_mem_cons.1 h
    have hcomma : Free (ls ++ [.token .comma [',']]) := hl.free rfl (by decide) rfl
    have hblank : Free [.layout [' ']] := free_of_isFree rfl
    have hall := (hcomma.append hblank).append (ih h)
    rwa [List.append_assoc ls] at hall

end Lexemes

theorem infix_flatMap {α β : Type} {x : α} {xs : List α} (h : x ∈ xs) (f : α → List β) :
    f x <:+: xs.flatMap f := by
  obtain ⟨before, after, rfl⟩ := List.append_of_mem h
  rw [List.flatMap_append, List.flatMap_cons]
  exact ⟨_, _, List.append_assoc _ _ _⟩

/-- What an entry of a `const` or `var` declaration has to satisfy for its values to be found in its
text: only the last one may run on over what stands behind it. -/
structure ValueSpec.Stands (spec : ValueSpec) : Prop where
  names : ∀ n ∈ spec.names, isWord n = true
  type : ∀ t ∈ spec.type, Sound (lexemes (printType t).toList)
  values : ∀ v ∈ spec.values, ∀ l ∈ lexemes v.text.toList, l.isBad = false
  init : ∀ v ∈ spec.values.dropLast, Sound (lexemes v.text.toList)

/-- The lexemes of an entry of a `const` or `var` declaration, from the texts of its parts. -/
def ValueSpec.lexemes (spec : ValueSpec) : List Lexeme :=
  valueSpecLexemes spec.names (spec.type.map fun t => Source.lexemes (printType t).toList)
    (spec.values.map fun v => Source.lexemes v.text.toList)

section Entry

variable {spec : ValueSpec}

theorem printValueSpec_eq (spec : ValueSpec) :
    (printValueSpec spec).toList = spellLexemes spec.lexemes := by
  obtain ⟨names, type, values⟩ := spec
  have hvalues := spell_values values
  rw [ValueSpec.lexemes, valueSpecLexemes, spellLexemes_append, spellLexemes_append,
    spell_namesLexemes, printValueSpec, String.toList_append, String.toList_append, ← hvalues,
    valuesLexemes, List.isEmpty_map, List.append_assoc]
  cases type with
  | none => rfl
  | some t => simp [spellLexemes_lexemes]

/-- **The lexemes of an entry** are those of its parts. -/
theorem ValueSpec.Stands.lexemes_eq (h : spec.Stands) :
    Source.lexemes (printValueSpec spec).toList = spec.lexemes := by
  -- What stands before the last text is not changed by it, and the last text is left as it is.
  have hlast : ∀ (text : String) {front : List Lexeme}, Free front →
      spec.lexemes = front ++ Source.lexemes text.toList →
      Source.lexemes (printValueSpec spec).toList = spec.lexemes := by
    intro text front hfree heq
    rw [printValueSpec_eq, heq, spellLexemes_append, spellLexemes_lexemes, hfree.lexemes_append]
  obtain ⟨names, type, values⟩ := spec
  rcases List.eq_nil_or_concat' values with rfl | ⟨init, last, rfl⟩
  · cases type with
    | none =>
      rw [printValueSpec_eq]
      refine lexemes_spell ?_
      have hnames := stand_names h.names [] endsWord_nil
      simpa [lexemes, valueSpecLexemes] using hnames
    | some t =>
      refine hlast (printType t) (sound_names h.names).blank ?_
      simp [lexemes, valueSpecLexemes]
  · have htype : ∀ ls ∈ type.map fun t => Source.lexemes (printType t).toList, Sound ls := by
      intro ls hls
      obtain ⟨t, ht, rfl⟩ := Option.map_eq_some_iff.1 hls
      exact h.type t ht
    have hfront := sound_valueSpec h.names htype (List.forall_mem_nil _)
    have hinit : ∀ ls ∈ init.map fun v => Source.lexemes v.text.toList, Sound ls := by
      refine List.forall_mem_map.2 fun v hv => h.init v ?_
      rwa [List.dropLast_concat]
    refine hlast last.text ((hfront.blank.append free_assign).append (free_commas hinit)) ?_
    simp [lexemes, valueSpecLexemes, intercalate_concat]

theorem ValueSpec.Stands.good (h : spec.Stands) : ∀ l ∈ spec.lexemes, l.isBad = false := by
  obtain ⟨names, type, values⟩ := spec
  rw [lexemes, valueSpecLexemes]
  refine closed_good.append (closed_good.names names) (closed_good.append ?_ ?_)
  · cases type with
    | none => exact closed_good.nil
    | some t => exact closed_good.consBlank (h.type t rfl).good
  · split
    · exact closed_good.nil
    · refine closed_good.consBlank (closed_good.append free_assign.good ?_)
      exact closed_good.commas (List.forall_mem_map.2 h.values)

theorem ValueSpec.infix_lexemes {v : Initializer} (hv : v ∈ spec.values) :
    Source.lexemes v.text.toList <:+: spec.lexemes := by
  obtain ⟨names, type, values⟩ := spec
  have hne : ¬ (values.map fun v => Source.lexemes v.text.toList).isEmpty = true := by
    simpa using List.ne_nil_of_mem hv
  rw [lexemes, valueSpecLexemes, if_neg hne, ← List.append_assoc]
  have hvalue : Source.lexemes v.text.toList ∈
      values.map fun v => Source.lexemes v.text.toList := List.mem_map_of_mem hv
  refine (infix_intercalate [.token .comma [','], .layout [' ']] hvalue).trans ?_
  exact ((List.suffix_append [_, _, _] _).trans (List.suffix_append _ _)).isInfix

end Entry

/-! ## Printed declarations -/

section Group

variable {keyword : String} {texts : List String}

/-- The lexemes of texts on lines of their own. -/
theorem lexemes_joinLines (h : ∀ t ∈ texts, ∀ l ∈ lexemes t.toList, l.isBad = false)
    (rest : List Char) : lexemes (joinLines (texts.map String.toList) ++ rest) =
      (texts.flatMap fun t => lexemes t.toList ++ [.layout ['\n']]) ++ lexemes rest := by
  induction texts with
  | nil => rfl
  | cons t texts ih =>
    obtain ⟨ht, h⟩ := List.forall_mem_cons.1 h
    rw [List.map_cons, joinLines_cons, List.append_assoc, List.cons_append, lexemes_joined ht, ih h]
    simp

/-- Entries moved to the right. -/
theorem relaid_entries (texts : List String) {x y : List Char} (h : Relaid true x y) :
    Relaid true (joinLines (texts.map String.toList) ++ x)
      ((String.join (texts.map fun t => indentLines t ++ "\n")).toList ++ y) := by
  induction texts with
  | nil => exact h
  | cons t texts ih =>
    have hline := relaid_indentLines t ih
    rw [List.map_cons, joinLines_cons, List.map_cons, String.join_cons]
    simpa using hline

/-- Entries in parentheses, as they are before they are moved to the right. -/
def groupText (keyword : String) (texts : List String) : List Char :=
  keyword.toList ++ ([' ', '('] ++ '\n' :: (joinLines (texts.map String.toList) ++ [')']))

theorem lexemes_groupText (hw : isWord keyword = true)
    (h : ∀ t ∈ texts, ∀ l ∈ lexemes t.toList, l.isBad = false) :
    lexemes (groupText keyword texts) =
      [Lexeme.ofWord keyword, .layout [' '], .token .lparen ['('], .layout ['\n']] ++
        ((texts.flatMap fun t => lexemes t.toList ++ [Lexeme.layout ['\n']]) ++
          [Lexeme.token .rparen [')']]) := by
  have hopen : Free [.ofWord keyword, .layout [' '], .token .lparen ['('], .layout ['\n']] :=
    (sound_word hw).blank.append (.cons rfl (free_of_isFree rfl))
  have hparen : Free [.token .rparen [')']] := free_of_isFree rfl
  have hclose : lexemes [')'] = [.token .rparen [')']] := lexemes_spell (hparen.stand [])
  have hall := hopen.lexemes_append (joinLines (texts.map String.toList) ++ [')'])
  rw [lexemes_joinLines h, hclose] at hall
  rw [← hall, groupText]
  simp

theorem relaid_groupText (hk : '\n' ∉ keyword.toList) (texts : List String) :
    Relaid false (groupText keyword texts) (keyword ++ " (\n" ++
      String.join (texts.map fun t => indentLines t ++ "\n") ++ ")").toList := by
  have hend : Relaid true [')'] [')'] := .same (by decide) .nil
  have hlines := Relaid.same_append (p := [' ', '(']) (by decide)
    (.newline (relaid_entries texts hend))
  simpa [groupText] using hlines.same_append hk

/-- **A declaration of some entries has their tokens**, and exactly these if it has one entry. -/
theorem respells_group (hw : isWord keyword = true) (hk : '\n' ∉ keyword.toList)
    (h : ∀ t ∈ texts, ∀ l ∈ lexemes t.toList, l.isBad = false) :
    ∃ cs, Respells cs (printGroup keyword texts).toList ∧
      (texts.length = 1 → cs = (printGroup keyword texts).toList) ∧
      ∀ t ∈ texts, lexemes t.toList <:+: lexemes cs := by
  have hlexemes := lexemes_groupText hw h
  have hgood : ∀ l ∈ lexemes (groupText keyword texts), l.isBad = false := by
    rw [hlexemes]
    refine List.forall_mem_append.2 ⟨by simp [Lexeme.isBad, Lexeme.ofWord], ?_⟩
    refine List.forall_mem_append.2 ⟨fun l hl => ?_, List.forall_mem_singleton.2 rfl⟩
    obtain ⟨t, ht, hl⟩ := List.mem_flatMap.1 hl
    rcases List.mem_append.1 hl with hl | hl
    · exact h t ht l hl
    · rw [List.mem_singleton.1 hl]
      rfl
  have hrelaid := (relaid_groupText hk texts).respells hgood
  have hinside : ∀ t ∈ texts, lexemes t.toList <:+: lexemes (groupText keyword texts) := by
    intro t ht
    rw [hlexemes]
    have hlines := infix_flatMap ht fun t => lexemes t.toList ++ [.layout ['\n']]
    exact (((List.prefix_append _ _).isInfix.trans hlines).trans
      (List.prefix_append _ _).isInfix).trans (List.suffix_append _ _).isInfix
  -- One entry stands on the line of the keyword; none or several stand between brackets.
  rcases texts with _ | ⟨t, _ | ⟨u, us⟩⟩
  · exact ⟨_, hrelaid, by simp, hinside⟩
  · have hkeyword : Free [.ofWord keyword, .layout [' ']] := (sound_word hw).blank
    have hl : lexemes (printGroup keyword [t]).toList =
        [.ofWord keyword, .layout [' ']] ++ lexemes t.toList := by
      rw [← hkeyword.lexemes_append]
      simp [printGroup]
    refine ⟨_, ⟨?_, List.forall₂_same.2 fun p _ => KeepsForm.refl p⟩, fun _ => rfl, ?_⟩
    · rw [hl]
      exact List.forall_mem_append.2 ⟨hkeyword.good, h t List.mem_cons_self⟩
    · rw [hl]
      exact List.forall_mem_singleton.2 (List.suffix_append _ _).isInfix
  · exact ⟨_, hrelaid, by simp, hinside⟩

end Group

/-! ## Printing keeps code -/

/-- The entries of a declaration that can have initializers. -/
def Decl.valueSpecs : Decl → List ValueSpec
  | .const specs | .var specs => specs
  | .type _ | .func _ => []

/-- **A declaration that is printed has the tokens of its values.** -/
theorem respells_decl {d : Decl} (h : ∀ spec ∈ d.valueSpecs, spec.Stands) {spec : ValueSpec}
    (hs : spec ∈ d.valueSpecs) : ∃ cs, Respells cs (printDecl d).toList ∧
      (d.valueSpecs.length = 1 → cs = (printDecl d).toList) ∧
      ∀ v ∈ spec.values, lexemes v.text.toList <:+: lexemes cs := by
  have hgroup : ∀ {keyword : String} {specs : List ValueSpec}, isWord keyword = true →
      '\n' ∉ keyword.toList → (∀ spec ∈ specs, spec.Stands) → spec ∈ specs →
      ∃ cs, Respells cs (printGroup keyword (specs.map printValueSpec)).toList ∧
        (specs.length = 1 → cs = (printGroup keyword (specs.map printValueSpec)).toList) ∧
        ∀ v ∈ spec.values, lexemes v.text.toList <:+: lexemes cs := by
    intro keyword specs hw hk hspecs hs
    have hgood : ∀ t ∈ specs.map printValueSpec, ∀ l ∈ lexemes t.toList, l.isBad = false := by
      refine List.forall_mem_map.2 fun spec hs => ?_
      rw [(hspecs spec hs).lexemes_eq]
      exact (hspecs spec hs).good
    obtain ⟨cs, hcs, hone, hinside⟩ := respells_group hw hk hgood
    refine ⟨cs, hcs, fun h => hone (by rwa [List.length_map]), fun v hv => ?_⟩
    have hspec := hinside _ (List.mem_map_of_mem hs)
    rw [(hspecs spec hs).lexemes_eq] at hspec
    exact (ValueSpec.infix_lexemes hv).trans hspec
  cases d with
  | const specs => exact hgroup (by decide) (by decide) h hs
  | var specs => exact hgroup (by decide) (by decide) h hs
  | type specs | func decl => cases hs

theorem forall₂_infix {α β : Type} {R : α → β → Prop} {xs zs : List α} {ys : List β}
    (h : List.Forall₂ R xs ys) (hz : zs <:+: xs) : ∃ ws, ws <:+: ys ∧ List.Forall₂ R zs ws := by
  obtain ⟨before, after, rfl⟩ := hz
  have hdrop := List.forall₂_drop before.length h
  rw [List.append_assoc, List.drop_left] at hdrop
  have htake := List.forall₂_take zs.length hdrop
  rw [List.take_left] at htake
  exact ⟨_, ((List.take_prefix _ _).isInfix).trans (List.drop_suffix _ _).isInfix, htake⟩

section File

variable {source : String} {file : SourceFile}

theorem body_mem_extracts {decl : FuncDecl} (hd : .func decl ∈ file.decls) {body : String}
    (hb : body ∈ decl.body) : .body body ∈ file.extracts := by
  refine List.mem_flatMap.2 ⟨_, hd, List.mem_append_right _ ?_⟩
  exact List.mem_map_of_mem (Option.mem_toList.2 hb)

theorem values_infix_extracts {d : Decl} (hd : d ∈ file.decls) {spec : ValueSpec}
    (hs : spec ∈ d.valueSpecs) :
    (spec.values.map fun v => Extract.value v.text) <:+: file.extracts := by
  have hspec : (spec.values.map fun v => Extract.value v.text) <:+: spec.extracts :=
    (List.suffix_append _ _).isInfix
  refine hspec.trans (List.IsInfix.trans ?_ (infix_flatMap hd Decl.extracts))
  cases d with
  | const specs | var specs => exact infix_flatMap hs ValueSpec.extracts
  | type specs | func decl => cases hs

variable (h : SourceFile.parse source = .ok file)
include h

/-- In an entry that is parsed, only the last value can run on over what stands behind it. -/
theorem parse_stands {d : Decl} (hd : d ∈ file.decls) {spec : ValueSpec}
    (hs : spec ∈ d.valueSpecs) (ht : ∀ t ∈ spec.type, Sound (lexemes (printType t).toList)) :
    spec.Stands := by
  obtain ⟨before, after, he⟩ := values_infix_extracts hd hs
  have hvalue : ∀ {as bs : List Initializer} {v : Initializer}, spec.values = as ++ v :: bs →
      (∀ l ∈ lexemes v.text.toList, l.isBad = false) ∧
        (bs = [] ∨ Sound (lexemes v.text.toList)) := by
    intro as bs v hv
    rw [hv, List.map_append, List.map_cons, List.append_assoc, List.append_assoc,
      List.cons_append, ← List.append_assoc] at he
    obtain ⟨hg, hend⟩ := parse_values h he.symm
    refine ⟨hg, hend.imp_left fun hnil => ?_⟩
    exact List.map_eq_nil_iff.1 (List.append_eq_nil_iff.1 hnil).1
  have hfits : spec.Fits Leaf.Parsed := by
    have hdecl := (parse_fits h).decls d hd
    cases d with
    | const specs | var specs => exact hdecl spec hs
    | type specs | func decl => cases hs
  refine ⟨hfits.names, ht, fun v hv => ?_, fun v hv => ?_⟩
  · obtain ⟨as, bs, hvalues⟩ := List.append_of_mem hv
    exact (hvalue hvalues).1
  · obtain ⟨as, bs, hinit⟩ := List.append_of_mem hv
    have hne : spec.values ≠ [] := by
      intro hnil
      rw [hnil] at hv
      cases hv
    have hvalues := List.dropLast_append_getLast hne
    rw [hinit, List.append_assoc] at hvalues
    exact (hvalue hvalues.symm).2.resolve_left (by simp)

/-- **Printing keeps the tokens of bodies and initializers**, with their kinds and texts, but for the
blanks in literals over several lines. -/
theorem printed_keepsCode :
    (∀ decl, .func decl ∈ file.decls → ∀ body ∈ decl.body, ∃ ts us,
      tokenize ("\x7b" ++ body ++ "\x7d") = .ok ts ∧ tokenize (layoutBody body) = .ok us ∧
      List.Forall₂ KeepsForm (Token.written ts) (Token.written us)) ∧
    ∀ d ∈ file.decls,
      (∀ spec ∈ d.valueSpecs, ∀ t ∈ spec.type, Sound (lexemes (printType t).toList)) →
      ∀ spec ∈ d.valueSpecs, ∀ v ∈ spec.values, ∃ ts us run,
        tokenize v.text = .ok ts ∧ tokenize (printDecl d) = .ok us ∧
        run <:+: Token.written us ∧ List.Forall₂ KeepsForm (Token.written ts) run ∧
        (d.valueSpecs.length = 1 → run = Token.written ts) := by
  refine ⟨fun decl hd body hb => ?_, fun d hd htypes spec hs v hv => ?_⟩
  · obtain ⟨ls, hls, hbody⟩ := parse_bodies h (body_mem_extracts hd hb)
    exact tokenize_layoutBody hls hbody
  · have hstands := fun spec hs => parse_stands h hd hs (htypes spec hs)
    obtain ⟨cs, hcs, hone, hinside⟩ := respells_decl hstands hs
    obtain ⟨ts, hts, hold⟩ := tokenize_written ((hstands spec hs).values v hv)
    obtain ⟨us, hus, hnew⟩ := tokenize_written hcs.good
    have hvalue : tokenForms (lexemes v.text.toList) <:+: tokenForms (lexemes cs) :=
      (hinside v hv).filterMap Lexeme.form?
    by_cases hlength : d.valueSpecs.length = 1
    · refine ⟨ts, us, _, hts, hus, ?_, List.forall₂_same.2 fun p _ => KeepsForm.refl p,
        fun _ => rfl⟩
      rwa [hold, hnew, ← hone hlength]
    · obtain ⟨run, hrun, hforms⟩ := forall₂_infix hcs.forms hvalue
      rw [← hold] at hforms
      rw [← hnew] at hrun
      exact ⟨ts, us, run, hts, hus, hrun, hforms, fun h => absurd h hlength⟩

end File

/-- The entries of a group, the value of the first one on two lines. -/
def codeSpecs : List ValueSpec := [
  ⟨["a"], some (.array (some (.literal "4")) (.ident "int")), [⟨"f(1,\n2)", false⟩]⟩,
  ⟨["b"], none, [⟨"3", true⟩]⟩]

/-- A file with a body and a group. -/
def codeFile : SourceFile where
  package := "p"
  imports := []
  decls := [.func ⟨none, "F", .mk [] [] none, some "\n  g(x)\n"⟩, .var codeSpecs]
  isGenerated := false

theorem parse_codeFile : SourceFile.parse
    "package p\nfunc F() \x7b\n  g(x)\n\x7d\nvar (a [4]int = f(1,\n2); b = 3)\n" = .ok codeFile := by
  cbv

theorem printed_keepsCode_sample :
    SourceFile.parse "package p\nfunc F() \x7b\n  g(x)\n\x7d\nvar (a [4]int = f(1,\n2); b = 3)\n" =
        .ok codeFile ∧
      (∃ ts us, tokenize ("\x7b" ++ "\n  g(x)\n" ++ "\x7d") = .ok ts ∧
        tokenize (layoutBody "\n  g(x)\n") = .ok us ∧
        List.Forall₂ KeepsForm (Token.written ts) (Token.written us)) ∧
      ∃ ts us run, tokenize "f(1,\n2)" = .ok ts ∧
        tokenize (printDecl (.var codeSpecs)) = .ok us ∧ run <:+: Token.written us ∧
        List.Forall₂ KeepsForm (Token.written ts) run ∧
        (codeSpecs.length = 1 → run = Token.written ts) := by
  have hl : lexemes "[4]int".toList = [.token .lbrack ['['], .token .number ['4'],
      .token .rbrack [']']] ++ [.token .ident ['i', 'n', 't']] := by
    decide +kernel
  have hsound : Sound (lexemes "[4]int".toList) := by
    refine sound_of_last ?_ hl rfl
    rw [hl]
    decide
  have htypes : ∀ spec ∈ codeSpecs, ∀ t ∈ spec.type, Sound (lexemes (printType t).toList) := by
    refine List.forall_mem_cons.2 ⟨fun t ht => ?_, List.forall_mem_singleton.2 (by simp)⟩
    cases ht
    exact hsound
  obtain ⟨hbodies, hvalues⟩ := printed_keepsCode parse_codeFile
  have hvar : .var codeSpecs ∈ codeFile.decls := List.mem_cons_of_mem _ List.mem_cons_self
  exact ⟨parse_codeFile, hbodies _ List.mem_cons_self _ rfl,
    hvalues _ hvar htypes _ List.mem_cons_self _ List.mem_cons_self⟩

/-- A literal over two lines in a body. -/
def rawFile : SourceFile where
  package := "p"
  imports := []
  decls := [.func ⟨none, "F", .mk [] [] none, some "\n`a\nb`\n"⟩]
  isGenerated := false

/-- The second line of a raw string is moved to the right, and then the string is another one. -/
theorem printed_keepsCode_rawString :
    SourceFile.parse "package p\nfunc F() \x7b\n`a\nb`\n\x7d\n" = .ok rawFile ∧
      rawFile.print = "package p\n\nfunc F() \x7b\n\t`a\n\tb`\n\x7d\n" ∧
      ∃ ts us, tokenize ("\x7b" ++ "\n`a\nb`\n" ++ "\x7d") = .ok ts ∧
        tokenize (layoutBody "\n`a\nb`\n") = .ok us ∧ Token.written ts ≠ Token.written us := by
  have hold : lexemes ("\x7b" ++ "\n`a\nb`\n" ++ "\x7d").toList = [.token .lbrace ['{'],
      .layout ['\n'], .token .rawString ['\x60', 'a', '\n', 'b', '\x60'], .layout ['\n'],
      .token .rbrace ['}']] := by
    decide +kernel
  have hnew : lexemes (layoutBody "\n`a\nb`\n").toList = [.token .lbrace ['{'], .layout ['\n'],
      .layout ['\t'], .token .rawString ['\x60', 'a', '\n', '\t', 'b', '\x60'],
      .layout ['\n'], .token .rbrace ['}']] := by
    decide +kernel
  obtain ⟨ts, hts, hwritten⟩ := tokenize_written (by
    rw [hold]
    decide)
  obtain ⟨us, hus, hlaidOut⟩ := tokenize_written (by
    rw [hnew]
    decide)
  refine ⟨by cbv, by cbv, ts, us, hts, hus, ?_⟩
  rw [hwritten, hlaidOut, hold, hnew]
  decide +kernel

end Understudy.Source

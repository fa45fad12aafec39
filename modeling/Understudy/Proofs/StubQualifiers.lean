import Understudy.Proofs.StubContents
import Understudy.Stub.Imports

/-!
# The qualifiers of stubs

Where the text of a stub refers to other packages. A reference is a name before a dot, and in the
lexemes of a declaration a dot stands only behind a package that is kept. So each part of the text,
put behind a text with known qualifiers, adds only known ones (`Adds`); since this is passed on from
parts to the whole, the text of a stub is gone through once, piece by piece.

> **A stub refers only to packages that it imports** (`qualifiers_render`).

Lengths of arrays are the exception. They are copied as they are written, whatever they refer to
(`qualifiers_render_length`).
-/

set_option autoImplicit false

namespace Understudy.Stub

open Source Source.Parser Modules

/-! ## Putting tokens behind others -/

section Behind

variable {t u : Token}

/-- A token that is no dot makes no qualifier of the one before it. -/
theorem qualifiersFrom_concat (ht : t.kind ≠ .dot) (depth : Option Nat) (after : Bool)
    (us : List Token) :
    qualifiersFrom depth after (us ++ [t]) = qualifiersFrom depth after us := by
  induction us generalizing depth after with
  | nil =>
    cases depth with
    | none => simp [qualifiersFrom]
    | some d => cases hk : t.kind <;> simp [qualifiersFrom, hk]
  | cons v us ih =>
    -- What follows `v` is a dot or not, whether `us` is empty or not.
    have hhead : ((us ++ [t]).head?.map Token.kind == some .dot) =
        (us.head?.map Token.kind == some .dot) := by
      cases us with
      | nil => simpa using ht
      | cons w us => rfl
    rw [List.cons_append, qualifiersFrom.eq_def, qualifiersFrom.eq_def depth after (v :: us)]
    simp only [ih, hhead]

/-- A dot makes at most one qualifier: the name before it. -/
theorem qualifiersFrom_dot (ht : t.kind ≠ .dot) (hu : u.kind = .dot) (depth : Option Nat)
    (after : Bool) (us : List Token) {q : String}
    (hq : q ∈ qualifiersFrom depth after (us ++ [t, u])) :
    q ∈ qualifiersFrom depth after us ∨ t.kind = .ident ∧ q = t.text := by
  have hlast : ∀ depth after, qualifiersFrom depth after [u] = [] := by
    intro depth after
    cases depth <;> simp [qualifiersFrom, hu]
  induction us generalizing depth after with
  | nil =>
    right
    cases depth with
    | some d =>
      have hnone : qualifiersFrom (some d) after [t, u] = [] := by
        rw [qualifiersFrom]
        split <;> exact hlast _ _
      rw [List.nil_append, hnone] at hq
      exact absurd hq List.not_mem_nil
    | none =>
      rw [List.nil_append, qualifiersFrom] at hq
      split at hq
      · rw [hlast] at hq
        exact absurd hq List.not_mem_nil
      · simp only [hlast] at hq
        split at hq
        · next hif =>
          simp only [Bool.and_eq_true, beq_iff_eq] at hif
          exact ⟨hif.1.1, List.mem_singleton.1 hq⟩
        · exact absurd hq List.not_mem_nil
  | cons v us ih =>
    have hhead : ((us ++ [t, u]).head?.map Token.kind == some .dot) =
        (us.head?.map Token.kind == some .dot) := by
      -- Behind the first token stands the next one of the row, or `t`, which is no dot.
      cases us with
      | nil => simpa using ht
      | cons w us => rfl
    cases depth with
    | some d =>
      rw [List.cons_append, qualifiersFrom] at hq
      rw [qualifiersFrom]
      split at hq <;> exact ih _ _ hq
    | none =>
      rw [List.cons_append, qualifiersFrom] at hq
      rw [qualifiersFrom]
      by_cases himport : (v.kind == .kwImport) = true
      · rw [if_pos himport] at hq ⊢
        exact ih _ _ hq
      · rw [if_neg himport] at hq ⊢
        rw [hhead] at hq
        split at hq
        · next hif =>
          rw [if_pos hif]
          rcases List.mem_cons.1 hq with rfl | hq
          · exact Or.inl List.mem_cons_self
          · exact (ih _ _ hq).imp_left (List.mem_cons_of_mem _)
        · next hif =>
          rw [if_neg hif]
          exact ih _ _ hq

end Behind

/-- Whether some lexemes, behind a text whose qualifiers satisfy `A`, add only such qualifiers. -/
def Adds (A : String → Prop) (ls : List Lexeme) : Prop :=
  ∀ (s : Scanner) (us : List Token), (∀ q ∈ qualifiers us, A q) →
    ∀ q ∈ qualifiers (us ++ s.tokens ls), A q

namespace Adds

variable {A : String → Prop} {ls ms : List Lexeme}

theorem nil : Adds A [] := by
  intro s us hus
  simpa using hus

theorem append (hl : Adds A ls) (hm : Adds A ms) : Adds A (ls ++ ms) := by
  intro s us hus
  rw [Scanner.tokens_append, ← List.append_assoc]
  exact hm _ _ (hl s us hus)

theorem layout (text : List Char) : Adds A [.layout text] := by
  intro s us hus
  rw [Scanner.tokens, Scanner.tokens_nil, List.append_nil, Scanner.emit]
  split
  · unfold qualifiers
    rwa [qualifiersFrom_concat (by simp [Scanner.lineEnd])]
  · simpa using hus

theorem token {kind : Kind} (hk : kind ≠ .dot) (text : List Char) : Adds A [.token kind text] := by
  intro s us hus
  rw [Scanner.tokens_token, Scanner.tokens_nil]
  unfold qualifiers
  rwa [qualifiersFrom_concat (by simpa using hk)]

theorem word (w : String) : Adds A [.ofWord w] := token (Kind.ofWord_ne_dot w) _

theorem cons {l : Lexeme} (hl : Adds A [l]) (hm : Adds A ms) : Adds A (l :: ms) := hl.append hm

theorem of_noDots (h : ∀ l ∈ ls, ∀ text, l ≠ .token .dot text) : Adds A ls := by
  induction ls with
  | nil => exact nil
  | cons l ls ih =>
    obtain ⟨hl, hrest⟩ := List.forall_mem_cons.1 h
    refine cons ?_ (ih hrest)
    cases l with
    | layout text => exact layout text
    | token kind text => exact token (fun hk => hl text (by rw [hk])) text
    | bad text =>
      intro s us hus
      simpa [Scanner.tokens, Scanner.emit] using hus

/-- A dot directly behind a name adds the name, and adds nothing behind a keyword. -/
theorem dot {kind : Kind} {text : List Char} (hk : kind ≠ .dot)
    (hA : kind = .ident → A (String.ofList text)) :
    Adds A [.token kind text, .token .dot ['.']] := by
  intro s us hus q hq
  rw [Scanner.tokens_token, Scanner.tokens_token, Scanner.tokens_nil] at hq
  rcases qualifiersFrom_dot (by simpa using hk) rfl _ _ _ hq with hq | ⟨hident, rfl⟩
  · exact hus q hq
  · exact hA hident

theorem qualified {p : String} (hp : A p) (n : String) :
    Adds A [.ofWord p, .token .dot ['.'], .ofWord n] := by
  have hdot : Adds A [.ofWord p, .token .dot ['.']] :=
    dot (Kind.ofWord_ne_dot p) fun _ => by simpa using hp
  exact hdot.append (word n)

end Adds

/-! ## Declarations -/

/-- What a leaf has to satisfy in order to refer to packages with `A` only. -/
def RefersTo (A : String → Prop) : Leaf → Prop
  | .name s => isWord s = true
  | .qualifier s => isWord s = true ∧ A s
  | .length s => (Leaf.length s).Lexes ∧ ∀ text, .token .dot text ∉ lexemes s.toList
  | .arity _ => True
  | .entry | .unsupported _ => False

theorem RefersTo.lexes {A : String → Prop} {l : Leaf} (h : RefersTo A l) : l.Lexes := by
  cases l with
  | name s => exact h
  | qualifier s => exact h.1
  | length s => exact h.1
  | arity n => trivial
  | entry => exact h
  | unsupported s => exact h

section Decls

variable {A : String → Prop}

theorem closed_adds : Closed (RefersTo A) (Adds A) where
  nil := .nil
  append := .append
  word := .word
  blank := .layout _
  sign := by
    intro k text hk
    have hall : ∀ p ∈ signs, p.1 ≠ .dot := by decide
    exact .token (hall _ hk) text
  qualified hp n := .qualified hp.2 n
  bracket := by
    intro op cl ls hb hl
    simp only [brackets, List.mem_cons, Prod.mk.injEq, List.not_mem_nil, or_false] at hb
    rcases hb with ⟨rfl, rfl⟩ | ⟨rfl, rfl⟩ | ⟨rfl, rfl⟩ <;>
    exact .cons (.token (by decide) _) (hl.append (.token (by decide) _))
  length := by
    intro s hs
    refine .of_noDots fun l hl text he => ?_
    rw [he] at hl
    exact hs.2 text hl
  entry := id
  unsupported _ := id

theorem adds_lines {α : Type} {g : α → List Lexeme} {xs : List (List Lexeme × α)}
    (hpad : ∀ x ∈ xs, Adds A x.1) (h : ∀ x ∈ xs, Adds A (g x.2)) : Adds A (linesLexemes g xs) := by
  induction xs with
  | nil => exact .nil
  | cons x xs ih =>
    obtain ⟨hp, hpads⟩ := List.forall_mem_cons.1 hpad
    obtain ⟨hx, hrest⟩ := List.forall_mem_cons.1 h
    rw [linesLexemes_cons]
    exact hp.append (hx.append (.cons (.layout _) (ih hpads hrest)))

theorem adds_block {α : Type} {keyword : String} {g : α → List Lexeme} {xs : List α}
    (h : ∀ x ∈ xs, Adds A (g x)) : Adds A (blockLexemes [] keyword g xs) := by
  refine .cons (.word _) (.cons (.layout _) (.cons (.token (by decide) _) (.cons (.layout _)
    (.append (adds_lines ?_ ?_) (.token (by decide) _)))))
  · intro x hx
    obtain ⟨y, -, rfl⟩ := List.mem_map.1 hx
    exact .layout _
  · intro x hx
    obtain ⟨y, hy, rfl⟩ := List.mem_map.1 hx
    exact h y hy

theorem adds_type {t : TypeExpr} (h : IsType (RefersTo A) true t) : Adds A (typeLexemes true t) :=
  h.closed closed_adds

theorem adds_declared {t : TypeExpr} (h : IsType (RefersTo A) true t) :
    Adds A (declaredLexemes true Kept.unaligned [] t) := by
  obtain ⟨field, fields, rfl⟩ | ⟨elem, elems, rfl⟩ | hl :=
    declared_cases true Kept.unaligned t
  · cases h with
    | struct _ hf =>
      refine adds_block fun x hx => ?_
      obtain ⟨f, hm, rfl⟩ := List.mem_map.1 hx
      exact closed_adds.field (adds_type (hf f hm))
  · cases h with
    | interface he =>
      exact adds_block fun e hm => closed_adds.elem ((he e hm).mono fun _ h => adds_type h)
  · rw [hl]
    exact adds_type h

theorem adds_typeParams {fs : List FieldGroup} (h : ∀ f ∈ fs, IsTypeParam (RefersTo A) true f) :
    Adds A (typeParamsLexemes true fs) := by
  unfold typeParamsLexemes
  split
  · exact .nil
  · refine closed_adds.bracket (by decide) (closed_adds.commas (closed_adds.fields fun f hf => ?_))
    exact closed_adds.constraint ((h f hf).constraint.mono fun _ h => adds_type h)

theorem adds_params {fs : List FieldGroup} (h : IsParams (RefersTo A) true fs) :
    ∀ ls ∈ fieldsLexemes true fs, Adds A ls :=
  closed_adds.fields fun f hf => closed_adds.param ((h.types f hf).mono fun _ h => adds_type h)

theorem adds_literal {ls : List Lexeme} (h : LiteralLexemes ls) : Adds A ls := by
  cases h with
  | @basic k text hk =>
    refine .token (fun hd => ?_) text
    rw [hd] at hk
    cases hk
  | @signed k text number gap hk hgap =>
    refine .cons (.token (fun hd => ?_) text) (.append (.of_noDots ?_) (.token (by decide) _))
    · rw [hd] at hk
      rcases hk with hk | hk <;> cases hk
    · intro l hl text he
      have hlayout := hgap l hl
      rw [he] at hlayout
      cases hlayout

theorem adds_bodyInner : Adds A Kept.bodyInner :=
  .cons (.layout _) (.cons (.word _) (.cons (.token (by decide) _) (.cons (.token (by decide) _)
    (.cons (.token (by decide) _) (.layout _)))))

/-- **The lexemes of what is kept add only the references that its leaves have.** -/
theorem Kept.Fits.adds {k : Kept} (h : k.Fits (RefersTo A)) : Adds A k.lexemes := by
  -- Along the lexemes of each declaration; a body that is written anew has no names before dots.
  cases k with
  | value kind name ty init =>
    obtain ⟨hn, htype, hv⟩ := h
    refine .cons (.word _) (.cons (.layout _) (.append (closed_adds.names _) (.append ?_ ?_)))
    · cases ty with
      | none => exact .nil
      | some t => exact .cons (.layout _) (adds_type (htype t rfl))
    · cases init with
      | none => exact .nil
      | some v =>
        obtain ⟨hl, hf⟩ := hv v rfl
        refine .cons (.layout _) (.cons (.token (by decide) _) (.cons (.layout _) ?_))
        simpa using adds_literal (hf.lexemes hl).1
  | type spec =>
    refine .cons (.word _) (.cons (.layout _) (.cons (.word _) (.append (adds_typeParams h.params)
      (.append ?_ (.cons (.layout _) ?_)))))
    · split
      · exact .cons (.layout _) (.token (by decide) _)
      · exact .nil
    · split
      · exact adds_type h.type
      · exact adds_declared h.type
  | func decl =>
    obtain ⟨⟨hr, hn, hp, hs⟩, -⟩ := h
    obtain ⟨receiver, name, ⟨typeParams, params, results⟩, body⟩ := decl
    refine .cons (.word _) (.cons (.layout _) (.append ?_ (.cons (.word _)
      (.append (adds_typeParams hp) (.append ?_ ?_)))))
    · cases receiver with
      | none => exact .nil
      | some fs =>
        exact .cons (.token (by decide) _) (.append (closed_adds.commas (adds_params (hr fs rfl)))
          (.cons (.token (by decide) _) (.layout _)))
    · show Adds A (signatureLexemes true (.mk [] params results))
      exact closed_adds.signature fun f hf =>
        closed_adds.param ((hs.fields f hf).mono fun _ h => adds_type h)
    · exact .cons (.layout _) (.cons (.token (by decide) _) (.append adds_bodyInner
        (.token (by decide) _)))

end Decls

/-! ## Stubs -/

section Stubs

variable {A : String → Prop}

theorem adds_newlines (k : Nat) : Adds A (newlines k) := by
  refine .of_noDots fun l hl text he => ?_
  rcases List.mem_cons.1 hl with rfl | hl
  · cases he
  · rw [List.eq_of_mem_replicate hl] at he
    cases he

/-- The dot of an import stands behind the keyword, so it adds nothing. -/
theorem adds_import (i : Import) : Adds A (declLexemes "import" (importLexemes i)) := by
  obtain ⟨name, path⟩ := i
  have hpath : Adds A [quotedLexeme path] := .token (by decide) _
  cases name with
  | none => exact .cons (.word _) (.cons (.layout _) hpath)
  | some name =>
    by_cases hdot : name = "."
    · subst hdot
      have hkeyword : Kind.ofWord "import" = .kwImport := by decide
      have hstart : Adds A [.ofWord "import", .layout [' '], .token .dot ['.']] := by
        intro s us hus q hq
        rw [Scanner.tokens_ofWord, Scanner.tokens_blank, Scanner.tokens_token,
          Scanner.tokens_nil] at hq
        rcases qualifiersFrom_dot (by simp [hkeyword]) rfl _ _ _ hq with hq | ⟨hident, -⟩
        · exact hus q hq
        · simp [hkeyword] at hident
      exact hstart.append (.cons (.layout _) hpath)
    · refine .cons (.word _) (.cons (.layout _) (.cons ?_ (.cons (.layout _) hpath)))
      rw [importName, if_neg hdot]
      exact .word name

theorem adds_items {items : List (List Lexeme × Nat)} (h : ∀ i ∈ items, Adds A i.1) :
    Adds A (itemsLexemes items) := by
  induction items with
  | nil => exact .nil
  | cons i items ih =>
    obtain ⟨hi, hrest⟩ := List.forall_mem_cons.1 h
    rw [itemsLexemes_cons]
    exact hi.append ((adds_newlines _).append (ih hrest))

/-- The qualifiers of a text whose lexemes add only known ones. -/
theorem tokenize_adds {ls : List Lexeme} (hf : Free ls) (ha : Adds A ls) {text : String}
    (ht : text.toList = spellLexemes ls) :
    ∃ ts, tokenize text = .ok ts ∧ ∀ q ∈ qualifiers ts, A q := by
  refine ⟨_, hf.tokenize ht, ?_⟩
  rw [Scanner.tokensToEnd]
  have hq := ha .start [] (by simp [qualifiers, qualifiersFrom])
  unfold Scanner.finish
  split
  · unfold qualifiers
    rwa [qualifiersFrom_concat (by simp [Scanner.lineEnd])]
  · simpa using hq

theorem adds_file {package : String} (k : Nat) {items : List (List Lexeme × Nat)}
    (ha : ∀ i ∈ items, Adds A i.1) : Adds A (fileLexemes package k items) :=
  .cons (.word _) (.cons (.layout _) (.cons (.word _) ((adds_newlines k).append (adds_items ha))))

end Stubs

/-- What a length has to satisfy to refer to nothing. -/
def PlainLength (l : Leaf) : Prop :=
  ∀ s, l = .length s → l.Lexes ∧ ∀ text, .token .dot text ∉ lexemes s.toList

theorem erasesTo_refersTo (kept : List String) {ok : Leaf → Prop}
    (hok : ∀ l, ok l → l.Parsed ∧ PlainLength l) :
    ErasesTo kept ok (RefersTo fun q => q ∈ kept ∧ ok (.qualifier q)) where
  name _ h := (hok _ h).1
  qualifier _ hk h := ⟨(hok _ h).1, hk, h⟩
  length s h := (hok _ h).2 s rfl
  arity _ _ := trivial
  sentinel := (erasesTo_erases kept).sentinel

/-- **A stub refers only to packages that it imports**, if its paths need no escapes and no length of
an array has a dot. -/
theorem qualifiers_render {policy : ImportPolicy} {package : Package} {stub : PackageStub}
    (hparsed : ∀ f ∈ package.files, ∃ text, SourceFile.parse text = .ok f.source)
    (hname : ∃ f ∈ package.files, f.source.package = package.name)
    (hpaths : ∀ i ∈ stub.imports, IsPlain i.path)
    (hlengths : ∀ file ∈ PackageStub.sources package, ∀ l ∈ file.leaves, PlainLength l)
    (h : PackageStub.ofPackage policy .empty package = .ok stub) :
    ∃ ts, tokenize stub.render = .ok ts ∧
      ∀ q ∈ qualifiers ts, ∃ i ∈ stub.imports, i.boundName? = some q := by
  have hsource : ∀ file ∈ PackageStub.sources package,
      ∃ text, SourceFile.parse text = .ok file := by
    intro file hm
    obtain ⟨f, hf, rfl⟩ := mem_sources hm
    exact hparsed f hf
  have hfits : ∀ file ∈ PackageStub.sources package,
      file.Fits fun l => l.Parsed ∧ PlainLength l :=
    fun file hm => fits_of_parse (hsource file hm) (hlengths file hm)
  have hspell := render_spells h fun file hf =>
    (hfits file hf).mono fun l _ hl => Leaf.Parsed.erases hl.1
  generalize hk : stub.imports.filterMap Import.boundName? = kept at hspell
  have hkept := keptOf_fits hfits ⟨(erasesTo_erases kept).sentinel, fun s he => by cases he⟩
  have herases := erasesTo_refersTo kept fun l (hl : l.Parsed ∧ PlainLength l) => hl
  have hpackage : isWord package.name = true := by
    obtain ⟨f, hf, hn⟩ := hname
    obtain ⟨text, htext⟩ := hparsed f hf
    rw [← hn]
    exact (parse_fits htext).package
  have hitems : ∀ item ∈ stubItems stub.imports kept (keptOf package),
      Sound item.1 ∧ Adds (fun q => q ∈ kept ∧ (Leaf.qualifier q).Parsed ∧
        PlainLength (.qualifier q)) item.1 := by
    intro item hitem
    rcases List.mem_append.1 hitem with hitem | hitem
    · obtain ⟨i, hi, rfl⟩ := List.mem_map.1 hitem
      obtain ⟨f, hf, hm⟩ := mem_imports h hi
      obtain ⟨text, htext⟩ := hparsed f hf
      exact ⟨sound_decl (by decide)
        (free_import ((parse_fits htext).imports i hm) (free_quoted (hpaths i hi))).sound,
        adds_import i⟩
    · obtain ⟨k, hm, rfl⟩ := List.mem_map.1 hitem
      exact ⟨((hkept k hm).erase (herases.imp fun _ => RefersTo.lexes)).sound,
        ((hkept k hm).erase herases).adds⟩
  -- Every qualifier is one that a leaf of a kept type has, and these are bound by the imports.
  obtain ⟨ts, hts, hq⟩ := tokenize_adds
    (free_file hpackage 1 (List.forall_mem_map.2 fun item hm => (hitems item hm).1))
    (adds_file 1 (List.forall_mem_map.2 fun item hm => (hitems item hm).2)) hspell
  refine ⟨ts, hts, fun q hm => ?_⟩
  have hq := (hq q hm).1
  rw [← hk] at hq
  exact List.mem_filterMap.1 hq

/-- A file that refers to a package. -/
def referringSource (type : TypeExpr) : SourceFile where
  package := "p"
  imports := [⟨none, "x.io/z"⟩]
  decls := [.var [⟨["a"], some type, []⟩]]
  isGenerated := false

/-- The stub of a package with only this file, where the import is kept. -/
def referringStub : PackageStub where
  name := "p"
  imports := [⟨none, "x.io/z"⟩]
  decls := [.value .var "a" (some "z.T") none, .type "Embedme" "" false "interface\x7b\x7d"]

theorem qualifiers_render_sample :
    ∃ ts, tokenize referringStub.render = .ok ts ∧
      ∀ q ∈ qualifiers ts, ∃ i ∈ referringStub.imports, i.boundName? = some q := by
  refine @qualifiers_render ⟨["x.io/z"], []⟩ (singlePackage (referringSource (.qualified "z" "T")))
    _ ?_ ⟨_, List.mem_singleton_self _, rfl⟩ ?_ ?_ ?_
  · exact List.forall_mem_singleton.2
      ⟨"package p\nimport \"x.io/z\"\nvar a z.T\n", by cbv⟩
  · refine List.forall_mem_singleton.2 ?_
    simp [IsPlain]
  · have hleaves : (referringSource (.qualified "z" "T")).leaves =
        [.name "p", .name "a", .qualifier "z", .name "T"] := rfl
    refine List.forall_mem_singleton.2 fun l hl s he => ?_
    rw [hleaves] at hl
    simp [he] at hl
  · cbv

/-- The stub of a package with an array whose length refers to a package that is not imported. -/
def danglingStub : PackageStub where
  name := "p"
  imports := []
  decls := [.value .var "a" (some "[z.N]int") none, .type "Embedme" "" false "interface\x7b\x7d"]

theorem qualifiers_render_length :
    SourceFile.parse "package p\nimport \"x.io/z\"\nvar a [z.N]int\n" =
        .ok (referringSource (.array (some (.literal "z.N")) (.ident "int"))) ∧
      PackageStub.ofPackage ⟨[], []⟩ .empty (singlePackage
        (referringSource (.array (some (.literal "z.N")) (.ident "int")))) = .ok danglingStub ∧
      (tokenize danglingStub.render).map qualifiers = .ok ["z"] := by
  refine ⟨?_, ?_, ?_⟩
  · cbv
  · have hi : PackageStub.importsOf ⟨[], []⟩ (singlePackage
        (referringSource (.array (some (.literal "z.N")) (.ident "int")))) = [] := rfl
    rw [PackageStub.ofPackage, PackageStub.contextOf, hi]
    cbv
  · have htext : danglingStub.render =
        "package p\n\nvar a [z.N]int\n\ntype Embedme interface\x7b\x7d\n\n" := rfl
    rw [htext]
    cbv

end Understudy.Stub

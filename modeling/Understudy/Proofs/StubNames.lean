import Understudy.Proofs.FoundDeclarations
import Understudy.Proofs.Inventory
import Understudy.Proofs.ParsedLengths
import Understudy.Proofs.StubStatements

/-!
# Names of stubs

A stub declares what it keeps, and each file is kept in parts: its values, its types by name, its
functions. No name becomes more frequent by that (`keptDecls_names`), but a declaration is added.

> **A stub declares no name twice**, if its package declares no name twice and not the sentinel
> (`parse_render_names`).

This is about the declarations that are read in the text of the stub. Where a name is spelled like a
keyword, or a length has a comma in it, these need not be the declarations that were written. But
a declaration is only found where one was written, so reading finds some of the names that were
written, in order (`parse_names`).

What is left to assume is that no import and no length reaches over its end: a path is written in
quotes whatever was around it in the file, and the text of a length may end in a comment.
-/

set_option autoImplicit false

namespace Understudy.Source

open Understudy.Source.Parser

/-! ## Names -/

/-- The names that a declaration declares. A method declares none. -/
def Decl.names : Decl → List String
  | .const specs | .var specs => specs.flatMap ValueSpec.names
  | .type specs => specs.map TypeSpec.name
  | .func decl => if decl.receiver.isNone then [decl.name] else []

@[inherit_doc Decl.names]
def TopLevel.names : TopLevel → List String
  | .imports _ => []
  | .decl d => d.names

/-- The names that a file declares. A blank name declares nothing. -/
def SourceFile.names (file : SourceFile) : List String :=
  (file.decls.flatMap Decl.names).filter (· != "_")

/-- Whether a declaration is a function that is called when the program starts. There may be many
of them. -/
def Decl.isInit : Decl → Bool
  | .func decl => decl.receiver.isNone && decl.name == "init"
  | _ => false

/-- A file without the functions that are called when the program starts. -/
def SourceFile.withoutInits (file : SourceFile) : SourceFile :=
  { file with decls := file.decls.filter fun d => !d.isInit }

theorem SourceFile.withoutInits_names (file : SourceFile) :
    file.withoutInits.names.Sublist file.names :=
  (List.filter_sublist.flatMap _).filter _

/-! ## Names that are read -/

section Names

variable {α : Type} {t u : Token} {ts rest : List Token}

/-- What a parser reads is what it gives on any tokens. -/
theorem Gives.of_eq_ok {p : Parser α} {a : α} {Q : α → Prop} (h : p ts = .ok (a, rest))
    (hp : Gives (fun _ => True) p Q) : Q a :=
  (hp _ _ _ trivial h).1

theorem gives_any (p : Parser α) : Gives (fun _ => True) p fun _ => True :=
  fun _ _ _ _ _ => ⟨trivial, trivial⟩

theorem group_eq_ok {spec : Parser α} {xs : List α} (ht : t.kind ≠ .lparen)
    (h : group spec (t :: ts) = .ok (xs, rest)) :
    ∃ x, spec (t :: ts) = .ok (x, rest) ∧ xs = [x] := by
  obtain ⟨opened, mid, hopen, hspec⟩ := bind_eq_ok h
  rw [eat_of_ne ht] at hopen
  cases hopen
  obtain ⟨x, _, hx, hpure⟩ := bind_eq_ok hspec
  cases hpure
  exact ⟨x, hx, rfl⟩

/-- The only name of a list of names is the first token, if no comma follows it. -/
theorem idents_eq_ok {names : List String} (hnext : ∀ u ∈ ts.head?, u.kind ≠ .comma)
    (h : idents (t :: ts) = .ok (names, rest)) : names = [t.text] := by
  obtain ⟨name, mid, hname, h⟩ := bind_eq_ok h
  obtain ⟨u, hu, -, htext⟩ := ident_eq_ok hname
  cases hu
  obtain ⟨_, _, hall, h⟩ := bind_eq_ok h
  cases hall
  obtain ⟨more, _, hmore, h⟩ := bind_eq_ok h
  cases h
  rw [separatedTail] at hmore
  obtain ⟨eaten, mid, heat, hmore⟩ := bind_eq_ok hmore
  obtain ⟨rfl, v, rfl, hv⟩ | ⟨rfl, -⟩ := eat_eq_ok heat
  · exact absurd hv (hnext v rfl)
  · cases hmore
    rw [htext]

theorem valueSpec_names {spec : ValueSpec} (hnext : ∀ u ∈ ts.head?, u.kind ≠ .comma)
    (h : valueSpec (t :: ts) = .ok (spec, rest)) : spec.names = [t.text] := by
  obtain ⟨names, mid, hnames, h⟩ := bind_eq_ok h
  rw [← idents_eq_ok hnext hnames]
  have hrest : ∀ type : Option TypeExpr, Gives (fun _ => True) (do
      let values ← if ← eat .assign then separated .comma initializer else pure []
      return ValueSpec.mk names type values) fun spec => spec.names = names :=
    fun type => (gives_any _).bind fun _ _ => gives_branch (fun _ => gives_any _)
      (fun _ => gives_any _) fun values _ => gives_pure rfl
  refine Gives.of_eq_ok (Q := fun spec => spec.names = names) h
    ((gives_any _).bind fun kind _ => ?_)
  split <;> exact (gives_any _).bind fun type _ => hrest type

theorem typeSpec_name {spec : TypeSpec} (h : typeSpec (t :: ts) = .ok (spec, rest)) :
    spec.name = t.text := by
  obtain ⟨name, mid, hname, h⟩ := bind_eq_ok h
  obtain ⟨u, hu, -, htext⟩ := ident_eq_ok hname
  cases hu
  rw [htext]
  refine Gives.of_eq_ok (Q := fun spec => spec.name = name) h ((gives_any _).bind fun _ _ =>
    gives_branch (fun _ => gives_any _) (fun _ => gives_any _) fun params _ => ?_)
  exact (gives_any _).bind fun isAlias _ => (gives_any _).bind fun type _ => gives_pure rfl

/-- A function has a receiver if and only if a parenthesis follows its keyword. -/
theorem funcDecl_names {decl : FuncDecl} (h : funcDecl (t :: u :: ts) = .ok (decl, rest)) :
    (Decl.func decl).names = if u.kind = .lparen then [] else [u.text] := by
  obtain ⟨_, _, hfunc, h⟩ := bind_eq_ok h
  obtain ⟨he, -⟩ := expect_eq_ok hfunc
  cases he
  obtain ⟨_, _, hat, h⟩ := bind_eq_ok h
  rw [isAt_cons] at hat
  cases hat
  have hrest : ∀ (receiver : Option (List FieldGroup)) (name : String), Gives (fun _ => True) (do
      let typeParams ← if ← isAt .lbrack then typeParams typeExpr else pure []
      let ps ← params typeExpr
      let rs ← results typeExpr
      let body ← if ← isAt .lbrace then some <$> body else pure none
      return FuncDecl.mk receiver name (.mk typeParams ps rs) body)
      fun decl => decl.receiver = receiver ∧ decl.name = name := by
    intro receiver name
    refine (gives_any _).bind fun _ _ => gives_branch (fun _ => gives_any _)
      (fun _ => gives_any _) fun typeParams _ => ?_
    refine (gives_any _).bind fun ps _ => (gives_any _).bind fun rs _ => (gives_any _).bind
      fun _ _ => gives_branch (fun _ => gives_any _) (fun _ => gives_any _) fun body _ => ?_
    exact gives_pure ⟨rfl, rfl⟩
  -- Only the receiver and the name count, and neither is touched by what is read behind them.
  by_cases hk : u.kind = .lparen
  · rw [if_pos hk]
    rw [if_pos (by simp [hk])] at h
    obtain ⟨receiver, mid, hreceiver, h⟩ := bind_eq_ok h
    obtain ⟨_, _, -, hsome⟩ := bind_eq_ok (f := fun fs => pure (some fs)) hreceiver
    cases hsome
    obtain ⟨name, _, -, h⟩ := bind_eq_ok h
    have hr := (Gives.of_eq_ok h (hrest _ name)).1
    rw [Decl.names, hr]
    rfl
  · rw [if_neg hk]
    rw [if_neg (by simpa using hk)] at h
    obtain ⟨receiver, mid, hreceiver, h⟩ := bind_eq_ok h
    cases hreceiver
    obtain ⟨name, _, hname, h⟩ := bind_eq_ok h
    obtain ⟨v, hv, -, htext⟩ := ident_eq_ok hname
    cases hv
    obtain ⟨hr, hn⟩ := Gives.of_eq_ok h (hrest none name)
    rw [Decl.names, hr, hn, htext]
    rfl

end Names

/-! ## Names that are written -/

/-- No word is a parenthesis or a comma. -/
theorem Kind.ofWord_not_list (w : String) : Kind.ofWord w ∉ [Kind.lparen, .comma] := by
  rcases Kind.ofWord_mem w with h | h
  · rw [h]
    decide
  · have hall : ∀ p ∈ Kind.keywords, p.2 ∉ [Kind.lparen, .comma] := by decide
    exact hall _ h

/-- Whether two declarations declare the same names. -/
def SameNames (a b : TopLevel) : Prop := a.names = b.names

section Declarations

variable {s : Scanner} {ls : List Lexeme}

/-- Whether no comma follows, whatever stands behind some lexemes that does not begin with one. -/
def NoComma (ls : List Lexeme) : Prop :=
  ∀ (s : Scanner) (rest : List Token), (∀ t ∈ rest.head?, t.kind ≠ .comma) →
    ∀ t ∈ (s.tokens ls ++ rest).head?, t.kind ≠ .comma

theorem noComma_nil : NoComma [] := fun _ _ h => h

theorem noComma_blank {k : Kind} (hk : k ≠ .comma) (text : List Char) (ls : List Lexeme) :
    NoComma (.layout [' '] :: .token k text :: ls) := by
  intro s rest _ t ht
  rw [Scanner.tokens_blank, Scanner.tokens_token] at ht
  cases ht
  exact hk

theorem noComma_type {t : TypeExpr} (h : IsType Leaf.Closes true t) (ls : List Lexeme) :
    NoComma (.layout [' '] :: (typeLexemes true t ++ ls)) := by
  have hword : ∀ (w : String) (ms : List Lexeme), NoComma (.layout [' '] :: .ofWord w :: ms) :=
    fun w ms => noComma_blank (fun hk => Kind.ofWord_not_list w (by simp [hk])) _ _
  obtain ⟨l, ms, hl, ho⟩ := typeLexemes_opens h fun s hs => hs.1
  rw [hl, List.cons_append]
  cases ho with
  | name | qualifier | keyword => exact hword _ _
  | star | lbrack | arrow => exact noComma_blank (by decide) _ _

/-- A declaration of one entry declares the name that it is written with. -/
theorem topLevel_names {α : Type} {spec : Parser α} {f : List α → TopLevel} {keyword : String}
    (htop : topLevel (Kind.ofWord keyword) = (do advance; return f (← group spec)))
    (hspec : ∀ (s : Scanner) (t : Token) (rest mid : List Token) (x : α),
      (∀ u ∈ rest.head?, u.kind ≠ .comma) →
        spec (t :: (s.tokens ls ++ rest)) = .ok (x, mid) → (f [x]).names = [t.text])
    {name : String} {rest mid : List Token} {found : TopLevel}
    (hrest : ∀ t ∈ rest.head?, t.kind ≠ .comma)
    (h : topLevel (Kind.ofWord keyword)
      (s.tokens (declLexemes keyword (.ofWord name :: ls)) ++ rest) = .ok (found, mid)) :
    found.names = [name] := by
  rw [htop, declLexemes, Scanner.tokens_ofWord, Scanner.tokens_blank, Scanner.tokens_ofWord,
    List.cons_append, List.cons_append, bind_apply, advance_cons] at h
  obtain ⟨xs, _, hgroup, hpure⟩ := bind_eq_ok h
  cases hpure
  obtain ⟨x, hx, rfl⟩ := group_eq_ok (fun hk => Kind.ofWord_not_list name (by simp [← hk])) hgroup
  rw [hspec _ _ _ _ _ hrest hx]
  simp

theorem declares_import (i : Import) :
    Declares SameNames (declLexemes "import" (importLexemes i)) (.imports [i]) where
  continues := continues_import i
  begins := by
    refine ⟨_, _, _, rfl, by decide, fun s rest mid found _ h => ?_⟩
    obtain ⟨_, _, -, h⟩ := bind_eq_ok (p := advance) h
    obtain ⟨is, _, -, hpure⟩ := bind_eq_ok h
    cases hpure
    rfl

end Declarations

/-! ## Names of files -/

section Files

variable {items : List ((List Lexeme × TopLevel) × Nat)}

theorem names_of_found {tops written : List TopLevel} (h : List.Forall₂ SameNames tops written) :
    tops.flatMap TopLevel.names = written.flatMap TopLevel.names := by
  induction h with
  | nil => rfl
  | cons h _ ih => rw [List.flatMap_cons, List.flatMap_cons, ih, h]

/-- **A text declares no names but those that are written in it.** -/
theorem parse_names {package : String} (hp : isWord package = true) {k : Nat}
    (h : ∀ i ∈ items, Declares SameNames i.1.1 i.1.2) (hsound : ∀ i ∈ items, Sound i.1.1)
    {text : String}
    (htext : text.toList = spellLexemes (fileLexemes package k (items.map fun i => (i.1.1, i.2))))
    {found : SourceFile} (hread : SourceFile.parse text = .ok found) :
    (found.decls.flatMap Decl.names).Sublist (items.flatMap fun i => i.1.2.names) := by
  obtain ⟨n, s, tops, rest, hs, htops, -, hdecls⟩ :=
    parse_eq_loop hp (List.forall_mem_map.2 hsound) htext hread
  obtain ⟨written, hsub, hall⟩ := topLevelsLoop_found h hs htops
  have hnames := hsub.flatMap TopLevel.names
  rw [← names_of_found hall, List.flatMap_map] at hnames
  rwa [← flatMap_declsOf (f := Decl.names) (fun _ => rfl) (fun _ => rfl), ← hdecls] at hnames

end Files

end Understudy.Source

namespace Understudy.Stub

open Source Modules

namespace Kept

/-- The names that are declared by what is kept. -/
def names : Kept → List String
  | .value _ name _ _ => [name]
  | .type spec => [spec.name]
  | .func decl => if decl.receiver.isNone then [decl.name] else []

theorem tree_names (k : Kept) : k.tree.names = k.names := by
  cases k with
  | value kind name ty init => cases kind <;> rfl
  | type spec => rfl
  | func decl => rfl

theorem erase_names (kept : List String) (k : Kept) : (k.erase kept).names = k.names := by
  cases k with
  | value kind name ty init => cases init <;> rfl
  | type spec => rfl
  | func decl => simp [erase, names]

/-- **A stubbed declaration declares its names or cannot be read.** -/
theorem Fits.declares {k : Kept} (h : k.Fits Leaf.Closes) :
    Declares SameNames k.lexemes (.decl k.tree) where
  continues := h.continues
  begins := by
    cases k with
    | value kind name ty init =>
      -- No comma follows the name, so a value declares one name only.
      have hnext : NoComma (((ty.map (typeLexemes true)).map (.layout [' '] :: ·)).getD [] ++
          if (init.toList.map Initializer.lexemes).isEmpty then []
          else .layout [' '] :: .token .assign ['='] :: .layout [' '] ::
            List.intercalate [.token .comma [','], .layout [' ']]
              (init.toList.map Initializer.lexemes)) := by
        cases ty with
        | none =>
          cases init with
          | none => exact noComma_nil
          | some v => exact noComma_blank (by decide) _ _
        | some t => exact noComma_type (h.2.1 t rfl) _
      rw [lexemes, written, valueSpecLexemes, namesLexemes_singleton, List.singleton_append]
      cases kind with
      | const =>
        refine ⟨_, _, _, rfl, by decide, fun s rest mid found hrest hread => ?_⟩
        refine topLevel_names rfl (fun s t rest mid spec hrest hspec => ?_) hrest hread
        simp [TopLevel.names, Decl.names, valueSpec_names (hnext s rest hrest) hspec]
      | var =>
        refine ⟨_, _, _, rfl, by decide, fun s rest mid found hrest hread => ?_⟩
        refine topLevel_names rfl (fun s t rest mid spec hrest hspec => ?_) hrest hread
        simp [TopLevel.names, Decl.names, valueSpec_names (hnext s rest hrest) hspec]
    | type spec =>
      refine ⟨_, _, _, rfl, by decide, fun s rest mid found hrest hread => ?_⟩
      refine topLevel_names rfl (fun s t rest mid spec _ hspec => ?_) hrest hread
      simp [TopLevel.names, Decl.names, typeSpec_name hspec]
    | func decl =>
      refine ⟨_, _, _, rfl, by decide, fun s rest mid found hrest hread => ?_⟩
      obtain ⟨found, _, hfunc, hpure⟩ := Parser.bind_eq_ok hread
      cases hpure
      rw [lexemes, written, funcLexemes, Scanner.tokens_ofWord, Scanner.tokens_blank] at hfunc
      cases hr : decl.receiver with
      | none =>
        rw [hr, receiverLexemes, List.nil_append, Scanner.tokens_ofWord] at hfunc
        have hparen : Kind.ofWord decl.name ≠ .lparen :=
          fun hk => Kind.ofWord_not_list decl.name (by simp [hk])
        have hnames := funcDecl_names hfunc
        simpa [SameNames, TopLevel.names, tree_names, names, hr, hparen] using hnames
      | some fs =>
        rw [hr, receiverLexemes, List.cons_append, List.cons_append, Scanner.tokens_token,
          List.cons_append] at hfunc
        have hnames := funcDecl_names hfunc
        simpa [SameNames, TopLevel.names, tree_names, names, hr] using hnames

end Kept

/-! ## Names of packages -/

theorem lastOfName_sublist (specs : List TypeSpec) : (lastOfName specs).Sublist specs := by
  induction specs with
  | nil => exact List.Sublist.refl _
  | cons spec specs ih =>
    rw [lastOfName]
    split
    · exact ih.cons spec
    · exact ih.cons_cons spec

theorem keptValue?_names {kind : ValueKind} {spec : ValueSpec} {i : Nat} {name : String} {k : Kept}
    (h : keptValue? kind spec i name = some k) : k.names = [name] := by
  unfold keptValue? at h
  split at h
  · cases h
    rfl
  · cases h
    rfl
  · cases h

theorem keptValues_names (file : SourceFile) : ((keptValues file).flatMap Kept.names).Sublist
    ((valueSpecs file).flatMap fun s => s.2.names) := by
  rw [keptValues, List.flatMap_assoc]
  refine List.Sublist.flatMap_right _ fun s _ => ?_
  obtain ⟨kind, spec⟩ := s
  have hentries : ∀ entries : List (String × Nat),
      ((entries.filterMap fun e => keptValue? kind spec e.2 e.1).flatMap Kept.names).Sublist
        (entries.map Prod.fst) := by
    intro entries
    induction entries with
    | nil => exact List.Sublist.refl _
    | cons entry entries ih =>
      obtain ⟨name, i⟩ := entry
      cases hk : keptValue? kind spec i name with
      | none =>
        simp only [List.filterMap_cons, hk]
        exact ih.cons name
      | some k =>
        simp only [List.filterMap_cons, hk, List.flatMap_cons, keptValue?_names hk]
        exact ih.cons_cons name
  simpa using hentries spec.names.zipIdx

/-- The names of a file, by what declares them. -/
theorem names_perm (file : SourceFile) :
    ((valueSpecs file).flatMap (fun s => s.2.names) ++ file.typeSpecs.map TypeSpec.name ++
      ((funcDecls file).filter fun f => !(Decl.func f).isInit).flatMap
        fun f => (Decl.func f).names).Perm (file.withoutInits.decls.flatMap Decl.names) := by
  obtain ⟨package, imports, decls, isGenerated⟩ := file
  simp only [valueSpecs, SourceFile.typeSpecs, funcDecls, SourceFile.withoutInits]
  induction decls with
  | nil => exact .nil
  | cons d decls ih =>
    cases d with
    | const specs | var specs =>
      simpa [Decl.isInit, Decl.names, List.flatMap_map] using
        ih.append_left (specs.flatMap ValueSpec.names)
    | type specs =>
      -- The names of values come first.
      refine .trans ?_ (ih.append_left (specs.map TypeSpec.name))
      simpa [Decl.isInit] using List.perm_append_comm_assoc _ _ _
    | func f =>
      cases hinit : (Decl.func f).isInit with
      | true => simpa [hinit] using ih
      | false =>
        -- The names of functions come last.
        rw [List.filter_cons_of_pos (by simp [hinit]), List.flatMap_cons]
        refine .trans ?_ (ih.append_left (Decl.func f).names)
        simpa [hinit, -List.append_assoc] using List.perm_append_comm_assoc _ _ _

theorem not_isInit_of_isKeptFunc {decl : FuncDecl} (h : isKeptFunc decl = true) :
    (Decl.func decl).isInit = false := by
  obtain ⟨hexported, -⟩ := Bool.and_eq_true_iff.1 h
  by_cases hname : decl.name = "init"
  · rw [hname] at hexported
    exact absurd hexported (by decide)
  · simp [Decl.isInit, hname]

/-- **A file keeps each name at most as often as it declares it.** -/
theorem keptDecls_names (file : SourceFile) : ((keptDecls file).flatMap Kept.names).Subperm
    (file.withoutInits.decls.flatMap Decl.names) := by
  have htypes : (((typesByName file).map Kept.type).flatMap Kept.names).Subperm
      (file.typeSpecs.map TypeSpec.name) := by
    have hmap : ((typesByName file).map Kept.type).flatMap Kept.names =
        (typesByName file).map TypeSpec.name := by
      rw [List.flatMap_map]
      exact List.map_eq_flatMap.symm
    rw [hmap]
    refine .trans ((List.mergeSort_perm _ _).map TypeSpec.name).subperm ?_
    exact ((lastOfName_sublist _).map TypeSpec.name).subperm
  have hfuncs : ((((funcDecls file).filter isKeptFunc).map Kept.func).flatMap Kept.names).Sublist
      (((funcDecls file).filter fun f => !(Decl.func f).isInit).flatMap
        fun f => (Decl.func f).names) := by
    rw [List.flatMap_map]
    refine (List.monotone_filter_right _ fun f hf => ?_).flatMap _
    simp [not_isInit_of_isKeptFunc hf]
  rw [keptDecls, List.flatMap_append, List.flatMap_append]
  refine .trans ?_ (names_perm file).subperm
  exact ((keptValues_names file).subperm.append htypes).append hfuncs.subperm

/-- Without blank names, the same holds of a package. -/
theorem keptOf_names (package : Package) :
    (((keptOf package).flatMap Kept.names).filter (· != "_")).Subperm
      (((PackageStub.sources package).flatMap fun file => file.withoutInits.names) ++
        [embedSentinel]) := by
  rw [keptOf, List.flatMap_append, List.filter_append]
  refine List.Subperm.append ?_ (.refl _)
  induction PackageStub.sources package with
  | nil => exact .refl _
  | cons file files ih =>
    rw [List.flatMap_cons, List.flatMap_append, List.filter_append, List.flatMap_cons]
    exact ((keptDecls_names file).filter _).append ih

/-! ## Reading a stub back -/

theorem stubItems_names (imports : List Import) (kept : List String) (ks : List Kept) :
    (stubItems imports kept ks).flatMap (fun item => item.2.names) = ks.flatMap Kept.names := by
  simp [stubItems, List.flatMap_map, TopLevel.names, Kept.tree_names, Kept.erase_names]

/-- A path whose quotation is one string can be written in quotes before anything. -/
theorem free_path {path : String} (h : IsToken .string ("\"" ++ (path ++ "\""))) :
    Free [quotedLexeme path] := by
  have hstand := standBefore_lexemes ("\"" ++ (path ++ "\"")).toList
  rw [h] at hstand
  obtain ⟨⟨c, cs, hc, hn⟩, -⟩ := hstand
  have htext : '"' :: (path.toList ++ ['"']) = c :: cs := by simpa using hc
  obtain ⟨rfl, rfl⟩ := List.cons.inj htext
  have hn : next '"' (path.toList ++ ['"']) = (quotedLexeme path, []) := by
    simpa [quotedLexeme] using hn
  change literal .string '"' _ (quotedTail? '"' (path.toList ++ ['"'])) = _ at hn
  refine ⟨fun rest => ⟨⟨'"', path.toList ++ '"' :: rest, by simp [quotedLexeme], ?_⟩, trivial⟩,
    List.forall_mem_singleton.2 rfl⟩
  cases hq : quotedTail? '"' (path.toList ++ ['"']) with
  | none =>
    rw [hq] at hn
    cases hn
  | some p =>
    obtain ⟨taken, left⟩ := p
    rw [hq] at hn
    obtain ⟨htaken, rfl⟩ := Prod.mk.inj hn
    have htail := quotedTail?_rest hq rest
    have happend := quotedTail?_append hq
    rw [List.append_nil] at happend
    show literal .string '"' _ (quotedTail? '"' (path.toList ++ '"' :: rest)) = _
    rw [happend] at htail
    rw [List.append_cons, htail]
    rfl

theorem erasesTo_closes (kept : List String) :
    ErasesTo kept (fun l => l.Parsed ∧ ∀ s, l = .length s → l.Closes) Leaf.Closes where
  name _ h := ⟨h.1, fun _ he => by cases he⟩
  qualifier _ _ h := ⟨h.1, fun _ he => by cases he⟩
  length s h := h.2 s rfl
  arity _ _ := ⟨trivial, fun _ he => by cases he⟩
  sentinel := ⟨(isToken_ident_iff.1 isToken_sentinel).1, fun _ he => by cases he⟩

/-- **A stub declares no name twice** if its package does not, nor declares the sentinel. -/
theorem parse_render_names {policy : ImportPolicy} {package : Package} {stub : PackageStub}
    {file : SourceFile}
    (hparsed : ∀ f ∈ package.files, ∃ text, SourceFile.parse text = .ok f.source)
    (hname : ∃ f ∈ package.files, f.source.package = package.name)
    (hpaths : ∀ i ∈ stub.imports, IsToken .string ("\"" ++ (i.path ++ "\"")))
    (hlengths : ∀ f ∈ PackageStub.sources package, ∀ s, .length s ∈ f.leaves →
      (Leaf.length s).Lexes)
    (hdistinct : ((PackageStub.sources package).flatMap fun f => f.withoutInits.names).Nodup)
    (hsentinel : ∀ f ∈ PackageStub.sources package, embedSentinel ∉ f.names)
    (h : PackageStub.ofPackage policy .empty package = .ok stub)
    (hread : SourceFile.parse stub.render = .ok file) : file.names.Nodup := by
  have hfits : ∀ f ∈ PackageStub.sources package,
      f.Fits fun l => l.Parsed ∧ ∀ s, l = .length s → l.Closes := by
    intro f hf
    obtain ⟨g, hg, rfl⟩ := mem_sources hf
    obtain ⟨text, htext⟩ := hparsed g hg
    refine (parse_fits htext).mono fun l hl hp => ⟨hp, fun s hs => ?_⟩
    subst hs
    have hlexes := hlengths _ hf s hl
    refine ⟨hlexes, fun t ht => ?_⟩
    cases ht
    exact parse_lengths htext hl hlexes
  have hpackage : isWord package.name = true := by
    obtain ⟨f, hf, hn⟩ := hname
    obtain ⟨text, htext⟩ := hparsed f hf
    rw [← hn]
    exact (parse_fits htext).package
  have hspell := render_spells h fun f hf =>
    (hfits f hf).mono fun l _ hl => Leaf.Parsed.erases hl.1
  generalize stub.imports.filterMap Import.boundName? = kept at hspell
  have hcloses : ∀ k ∈ keptOf package, (k.erase kept).Fits Leaf.Closes := fun k hk =>
    (keptOf_fits hfits ⟨(isToken_ident_iff.1 isToken_sentinel).1, fun s hs => by cases hs⟩ k hk).erase
      (erasesTo_closes kept)
  have hfree : ∀ i ∈ stub.imports, Free (importLexemes i) := by
    intro i hi
    obtain ⟨g, hg, hm⟩ := mem_imports h hi
    obtain ⟨text, htext⟩ := hparsed g hg
    exact free_import ((parse_fits htext).imports i hm) (free_path (hpaths i hi))
  have hdeclares : ∀ item ∈ stubItems stub.imports kept (keptOf package),
      Declares SameNames item.1 item.2 := by
    intro item hitem
    rcases List.mem_append.1 hitem with hitem | hitem
    · obtain ⟨i, -, rfl⟩ := List.mem_map.1 hitem
      exact declares_import i
    · obtain ⟨k, hk, rfl⟩ := List.mem_map.1 hitem
      exact (hcloses k hk).declares
  have hsound := sound_stubItems hfree fun k hk => (hcloses k hk).imp fun _ hl => hl.1
  have hnames := @parse_names ((stubItems stub.imports kept (keptOf package)).map (·, 1)) _
    hpackage 1 (List.forall_mem_map.2 hdeclares) (List.forall_mem_map.2 hsound) _
    (by rw [hspell, List.map_map]; rfl) _ hread
  rw [List.flatMap_map, stubItems_names] at hnames
  -- What is kept has some of the names of the package, and the sentinel, each once.
  have hall : (((PackageStub.sources package).flatMap fun f => f.withoutInits.names) ++
      [embedSentinel]).Nodup := by
    refine List.nodup_append.2 ⟨hdistinct, List.nodup_singleton _, ?_⟩
    rintro name hm _ hs rfl
    rw [List.mem_singleton.1 hs] at hm
    obtain ⟨f, hf, hm⟩ := List.mem_flatMap.1 hm
    exact hsentinel f hf (f.withoutInits_names.subset hm)
  obtain ⟨names, hperm, hsub⟩ := keptOf_names package
  exact (hperm.nodup_iff.1 (hall.sublist hsub)).sublist (hnames.filter _)

/-- A file with an import, blank names, a length and two functions called `init`. -/
def blankSource : SourceFile where
  package := "p"
  imports := [⟨none, "io"⟩]
  decls := [
    .var [⟨["_", "A"], none, [⟨"1", true⟩, ⟨"2", true⟩]⟩],
    .var [⟨["_"], some (.ident "int"), []⟩],
    .type [⟨"T", [], false, .array (some (.literal "N")) (.qualified "io" "Reader")⟩],
    .func ⟨none, "init", .mk [] [] none, none⟩,
    .func ⟨none, "init", .mk [] [] none, none⟩]
  isGenerated := false

theorem parse_blankSource : SourceFile.parse ("package p\nimport \"io\"\nvar _, A = 1, 2\n" ++
    "var _ int\ntype T [N]io.Reader\nfunc init()\nfunc init()\n") = .ok blankSource := by
  cbv

/-- The stub of the package of the file. -/
def blankStub : PackageStub where
  name := "p"
  imports := [⟨none, "io"⟩]
  decls := [
    .value .var "_" none (some "1"),
    .value .var "A" none (some "2"),
    .value .var "_" (some "int") none,
    .type "T" "" false "[N]io.Reader",
    .type "Embedme" "" false "interface\x7b\x7d"]

theorem ofPackage_blank :
    PackageStub.ofPackage ⟨[], ["m"]⟩ .empty (singlePackage blankSource) = .ok blankStub := by
  cbv

/-- What is read of the stub. -/
def blankRead : SourceFile where
  package := "p"
  imports := [⟨none, "io"⟩]
  decls := [
    .var [⟨["_"], none, [⟨"1", true⟩]⟩],
    .var [⟨["A"], none, [⟨"2", true⟩]⟩],
    .var [⟨["_"], some (.ident "int"), []⟩],
    .type [⟨"T", [], false, .array (some (.literal "N")) (.qualified "io" "Reader")⟩],
    .type [⟨"Embedme", [], false, .interface []⟩]]
  isGenerated := false

set_option maxRecDepth 4000 in
theorem parse_blankStub : SourceFile.parse blankStub.render = .ok blankRead := by
  have htext : blankStub.render = "package p\n\nimport \"io\"\n\nvar _ = 1\n\nvar A = 2\n\n" ++
      "var _ int\n\ntype T [N]io.Reader\n\ntype Embedme interface\x7b\x7d\n\n" := rfl
  rw [htext]
  cbv

theorem parse_render_names_sample :
    SourceFile.parse blankStub.render = .ok blankRead ∧ blankRead.names.Nodup := by
  have hsources : PackageStub.sources (singlePackage blankSource) = [blankSource] := by
    cbv
  have hlengths : ∀ s, .length s ∈ blankSource.leaves → (Leaf.length s).Lexes := by
    have hreads : ∀ l ∈ blankSource.leaves, Unambiguous l := by decide +kernel
    exact fun s hs => Leaf.Reads.lexes (hreads _ hs)
  refine ⟨parse_blankStub, parse_render_names (List.forall_mem_singleton.2 ⟨_, parse_blankSource⟩)
    ⟨_, List.mem_singleton_self _, rfl⟩ (List.forall_mem_singleton.2 (by decide +kernel)) ?_ ?_ ?_
    ofPackage_blank parse_blankStub⟩
  · rw [hsources]
    exact List.forall_mem_singleton.2 hlengths
  · rw [hsources]
    decide
  · rw [hsources]
    exact List.forall_mem_singleton.2 (by decide)

/-- A file that declares the sentinel, as a stub does. -/
def sentinelSource : SourceFile where
  package := "p"
  imports := []
  decls := [.type [⟨"Embedme", [], false, .interface []⟩]]
  isGenerated := false

/-- The stub of the package of the file. -/
def sentinelStub : PackageStub where
  name := "p"
  imports := []
  decls := [
    .type "Embedme" "" false "interface\x7b\x7d",
    .type "Embedme" "" false "interface\x7b\x7d"]

theorem parse_render_names_sentinel :
    SourceFile.parse "package p\ntype Embedme interface\x7b\x7d\n" = .ok sentinelSource ∧
      sentinelSource.withoutInits.names.Nodup ∧
      PackageStub.ofPackage ⟨[], ["m"]⟩ .empty (singlePackage sentinelSource) = .ok sentinelStub ∧
      ∃ file, SourceFile.parse sentinelStub.render = .ok file ∧ ¬ file.names.Nodup := by
  refine ⟨by cbv, by decide, by cbv, ⟨"p", [], [.type [⟨"Embedme", [], false, .interface []⟩],
    .type [⟨"Embedme", [], false, .interface []⟩]], false⟩, ?_, by decide⟩
  have htext : sentinelStub.render =
      "package p\n\ntype Embedme interface\x7b\x7d\n\ntype Embedme interface\x7b\x7d\n\n" := rfl
  rw [htext]
  cbv

end Understudy.Stub

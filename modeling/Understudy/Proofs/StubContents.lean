import Understudy.Proofs.ParsedFiles
import Understudy.Proofs.PrintedFile
import Understudy.Proofs.StubText

/-!
# The contents of stubs

Which declarations of a package its stub keeps (`keptOf`), and how the whole text of the stub is
made up from them.

> **A stub is the stubs of what is kept** (`ofPackage_eq`), and
> **its text is spelled by the lexemes of its imports and of what is kept** (`render_spells`).

Only the second needs to know anything about the files: their names have to be words.
-/

set_option autoImplicit false

namespace Understudy.Source

theorem Leaf.Parsed.erases {l : Leaf} (h : l.Parsed) : l.Erases := by
  cases l with
  | name s | qualifier s | unsupported s => exact h
  | length s | arity n | entry => trivial

end Understudy.Source

namespace Understudy.Stub

open Source Modules

/-! ## What is kept of a file -/

/-- What is kept of the `i`-th name of an entry. -/
def keptValue? (kind : ValueKind) (spec : ValueSpec) (i : Nat) (name : String) : Option Kept :=
  match (selectedValue spec i).filter Initializer.isLiteral, kind, spec.type with
  | some value, _, type => some (.value kind name type (some value))
  | none, .var, some type => some (.value .var name (some type) none)
  | none, _, _ => none

/-- What is kept of the constants and variables of a file. -/
def keptValues (file : SourceFile) : List Kept :=
  (valueSpecs file).flatMap fun (kind, spec) =>
    spec.names.zipIdx.filterMap fun (name, i) => keptValue? kind spec i name

/-- Whether a function is kept: it is exported and can be called. -/
def isKeptFunc (decl : FuncDecl) : Bool :=
  isExported decl.name &&
    match decl.receiver with
    | none | some [.mk [_] _] => true
    | _ => false

/-- What is kept of a file. -/
def keptDecls (file : SourceFile) : List Kept :=
  keptValues file ++ (typesByName file).map .type ++
    ((funcDecls file).filter isKeptFunc).map .func

/-- The declaration of the sentinel. -/
def sentinelSpec : TypeSpec where
  name := embedSentinel
  typeParams := []
  isAlias := false
  type := .interface []

/-- What is kept of a package. -/
def keptOf (package : Package) : List Kept :=
  (PackageStub.sources package).flatMap keptDecls ++ [.type sentinelSpec]

/-! ## One step

A stub is made if and only if the stub of every part is. -/

section Steps

variable {ctx : Context}

theorem stubFuncs_cons_iff {decl : FuncDecl} {decls : List FuncDecl} {stubs : List StubDecl} :
    stubFuncs ctx (decl :: decls) = (stubs, none) ↔
      ∃ stub rest, stubFunc? ctx decl = .ok stub ∧ stubFuncs ctx decls = (rest, none) ∧
        stubs = stub.toList ++ rest := by
  rw [stubFuncs]
  cases stubFunc? ctx decl with
  | error fault => simp
  | ok stub =>
    generalize stubFuncs ctx decls = r
    obtain ⟨rest, failure⟩ := r
    simp [and_comm, eq_comm]

theorem stubFile_ok_iff {file : SourceFile} {decls : List StubDecl} :
    stubFile ctx file = .ok decls ↔ ∃ funcs, stubFuncs ctx (funcDecls file) = (funcs, none) ∧
      decls = stubValues ctx file ++ (typesByName file).map (stubType ctx) ++ funcs := by
  unfold stubFile
  generalize stubFuncs ctx (funcDecls file) = r
  obtain ⟨funcs, failure⟩ := r
  cases failure with
  | none => simp [eq_comm]
  | some failure => simp

theorem stubFiles_cons_iff {file : SourceFile} {files : List SourceFile} {decls : List StubDecl} :
    stubFiles ctx (file :: files) = .ok decls ↔
      ∃ first rest, stubFile ctx file = .ok first ∧ stubFiles ctx files = .ok rest ∧
        decls = first ++ rest := by
  rw [stubFiles]
  cases stubFile ctx file with
  | error failure => simp [bind, Except.bind]
  | ok first =>
    cases stubFiles ctx files with
    | error failure => simp [bind, Except.bind]
    | ok rest => simp [bind, Except.bind, pure, Except.pure, eq_comm]

theorem ofPackage_ok_iff {policy : ImportPolicy} {overrides : OverrideTable} {package : Package}
    {stub : PackageStub} : PackageStub.ofPackage policy overrides package = .ok stub ↔
      ∃ decls, stubFiles (PackageStub.contextOf policy overrides package)
        (PackageStub.sources package) = .ok decls ∧
        stub = {
          name := package.name
          imports := PackageStub.importsOf policy package
          decls := decls ++ [sentinelDecl] } := by
  unfold PackageStub.ofPackage
  cases stubFiles (PackageStub.contextOf policy overrides package)
      (PackageStub.sources package) with
  | error failure => simp [bind, Except.bind]
  | ok decls => simp [bind, Except.bind, pure, Except.pure, eq_comm]

end Steps

section Stubs

variable (ctx : Context)

theorem stubValue?_eq (kind : ValueKind) (spec : ValueSpec) (i : Nat) (name : String) :
    stubValue? ctx kind spec i name = (keptValue? kind spec i name).map (Kept.stub ctx) := by
  unfold stubValue? keptValue? keptType
  cases (selectedValue spec i).filter Initializer.isLiteral with
  | some value => rfl
  | none => cases kind <;> cases spec.type <;> rfl

theorem stubValues_eq (file : SourceFile) :
    stubValues ctx file = (keptValues file).map (Kept.stub ctx) := by
  simp only [stubValues, keptValues, stubValueSpec, List.map_flatMap, List.map_filterMap,
    stubValue?_eq]

theorem stubFunc?_eq {decl : FuncDecl} {stub : Option StubDecl}
    (h : stubFunc? ctx decl = .ok stub) :
    stub = if isKeptFunc decl then some ((Kept.func decl).stub ctx) else none := by
  unfold stubFunc? calling at h
  -- The cases are those of `calling`: nothing, one entry without, with one or with more names, and
  -- any other number of entries.
  split at h
  all_goals simp only [bind, Except.bind, pure, Except.pure, reduceCtorEq, Except.ok.injEq] at h
  · next hr => simp [← h, isKeptFunc, Kept.stub, Kept.receiverOf, hr]
  · next hr => simp [← h, isKeptFunc, hr]
  · next hr => simp [← h, isKeptFunc, Kept.stub, Kept.receiverOf, hr]

theorem stubFuncs_eq {decls : List FuncDecl} {stubs : List StubDecl}
    (h : stubFuncs ctx decls = (stubs, none)) :
    stubs = ((decls.filter isKeptFunc).map Kept.func).map (Kept.stub ctx) := by
  induction decls generalizing stubs with
  | nil =>
    cases h
    rfl
  | cons decl decls ih =>
    obtain ⟨stub, rest, hstub, hrest, rfl⟩ := stubFuncs_cons_iff.1 h
    rw [ih hrest, stubFunc?_eq ctx hstub, List.filter_cons]
    split <;> rfl

theorem stubFile_eq {file : SourceFile} {decls : List StubDecl}
    (h : stubFile ctx file = .ok decls) : decls = (keptDecls file).map (Kept.stub ctx) := by
  obtain ⟨funcs, hf, rfl⟩ := stubFile_ok_iff.1 h
  simp only [keptDecls, List.map_append, stubValues_eq, stubFuncs_eq ctx hf, List.map_map]
  rfl

theorem stubFiles_eq {files : List SourceFile} {decls : List StubDecl}
    (h : stubFiles ctx files = .ok decls) :
    decls = (files.flatMap keptDecls).map (Kept.stub ctx) := by
  induction files generalizing decls with
  | nil =>
    cases h
    rfl
  | cons file files ih =>
    obtain ⟨first, rest, hf, hr, rfl⟩ := stubFiles_cons_iff.1 h
    rw [stubFile_eq ctx hf, ih hr, List.flatMap_cons, List.map_append]

end Stubs

/-- **A stub is the stubs of what is kept.** -/
theorem ofPackage_eq {policy : ImportPolicy} {overrides : OverrideTable} {package : Package}
    {stub : PackageStub} (h : PackageStub.ofPackage policy overrides package = .ok stub) :
    stub = {
      name := package.name
      imports := PackageStub.importsOf policy package
      decls := (keptOf package).map
        (Kept.stub (PackageStub.contextOf policy overrides package)) } := by
  obtain ⟨decls, hd, rfl⟩ := ofPackage_ok_iff.1 h
  rw [stubFiles_eq _ hd, keptOf, List.map_append]
  rfl

/-! ## Shape -/

section Shape

variable {ok : Leaf → Prop}

theorem selectedValue_mem {spec : ValueSpec} {i : Nat} {v : Initializer}
    (h : selectedValue spec i = some v) : v ∈ spec.values := by
  unfold selectedValue at h
  split at h
  · exact List.mem_of_getElem? h
  · exact List.mem_of_head? h

theorem keptValue?_fits {kind : ValueKind} {spec : ValueSpec} {i : Nat} {name : String}
    (h : spec.Fits ok) (hn : name ∈ spec.names) {k : Kept}
    (hk : keptValue? kind spec i name = some k) : k.Fits ok := by
  unfold keptValue? at hk
  split at hk
  · next v hv =>
    cases hk
    obtain ⟨hs, hl⟩ := Option.filter_eq_some_iff.1 hv
    refine ⟨h.names name hn, h.type, fun w hw => ?_⟩
    cases hw
    exact ⟨hl, h.values v (selectedValue_mem hs)⟩
  · next t _ ht =>
    cases hk
    refine ⟨h.names name hn, fun u hu => ?_, by simp⟩
    cases hu
    exact h.type t ht
  · cases hk

theorem keptValues_fits {file : SourceFile} (h : file.Fits ok) :
    ∀ k ∈ keptValues file, k.Fits ok := by
  intro k hk
  obtain ⟨⟨kind, spec⟩, hspec, hk⟩ := List.mem_flatMap.1 hk
  obtain ⟨⟨name, i⟩, hn, hk⟩ := List.mem_filterMap.1 hk
  have hname : name ∈ spec.names := List.fst_mem_of_mem_zipIdx hn
  have hfits : spec.Fits ok := by
    obtain ⟨d, hd, hspec⟩ := List.mem_flatMap.1 hspec
    have hfits := h.decls d hd
    cases d with
    | const specs | var specs =>
      obtain ⟨s, hs, he⟩ := List.mem_map.1 hspec
      cases he
      exact hfits spec hs
    | type specs => simp at hspec
    | func decl => simp at hspec
  exact keptValue?_fits hfits hname hk

theorem mem_lastOfName {specs : List TypeSpec} {spec : TypeSpec} (h : spec ∈ lastOfName specs) :
    spec ∈ specs := by
  induction specs with
  | nil => exact h
  | cons s specs ih =>
    rw [lastOfName] at h
    split at h
    · exact List.mem_cons_of_mem _ (ih h)
    · rcases List.mem_cons.1 h with rfl | h
      · exact List.mem_cons_self
      · exact List.mem_cons_of_mem _ (ih h)

theorem typesByName_fits {file : SourceFile} (h : file.Fits ok) :
    ∀ spec ∈ typesByName file, spec.Fits ok := by
  intro spec hspec
  have hm : spec ∈ file.typeSpecs := mem_lastOfName (List.mem_mergeSort.1 hspec)
  obtain ⟨d, hd, hm⟩ := List.mem_flatMap.1 hm
  have hfits := h.decls d hd
  cases d with
  | type specs => exact hfits spec hm
  | const specs | var specs => simp at hm
  | func decl => simp at hm

theorem isCallable_of_isKeptFunc {decl : FuncDecl} (h : isKeptFunc decl = true) :
    IsCallable decl := by
  unfold isKeptFunc at h
  split at h
  · next hr => exact Or.inl hr
  · next name type hr => exact Or.inr ⟨name, type, hr⟩
  · simp at h

theorem keptFuncs_fits {file : SourceFile} (h : file.Fits ok) :
    ∀ decl ∈ (funcDecls file).filter isKeptFunc, (Kept.func decl).Fits ok := by
  intro decl hdecl
  obtain ⟨hm, hk⟩ := List.mem_filter.1 hdecl
  refine ⟨?_, isCallable_of_isKeptFunc hk⟩
  obtain ⟨d, hd, hm⟩ := List.mem_filterMap.1 hm
  have hfits := h.decls d hd
  cases d with
  | func f =>
    cases hm
    exact hfits
  | const specs | var specs | type specs => cases hm

theorem keptDecls_fits {file : SourceFile} (h : file.Fits ok) :
    ∀ k ∈ keptDecls file, k.Fits ok := by
  intro k hk
  rcases List.mem_append.1 hk with hk | hk
  · rcases List.mem_append.1 hk with hk | hk
    · exact keptValues_fits h k hk
    · obtain ⟨spec, hspec, rfl⟩ := List.mem_map.1 hk
      exact typesByName_fits h spec hspec
  · obtain ⟨decl, hdecl, rfl⟩ := List.mem_map.1 hk
    exact keptFuncs_fits h decl hdecl

/-- **What is kept of a package has the shape of its files.** -/
theorem keptOf_fits {package : Package}
    (h : ∀ file ∈ PackageStub.sources package, file.Fits ok)
    (hsentinel : ok (.name embedSentinel)) : ∀ k ∈ keptOf package, k.Fits ok := by
  intro k hk
  rcases List.mem_append.1 hk with hk | hk
  · obtain ⟨file, hfile, hk⟩ := List.mem_flatMap.1 hk
    exact keptDecls_fits (h file hfile) k hk
  · rw [List.mem_singleton.1 hk]
    refine ⟨hsentinel, fun f hf => absurd hf List.not_mem_nil, ?_, ?_⟩
    · intro f hf
      cases hf
    · exact .interface fun d hd => absurd hd List.not_mem_nil

end Shape

/-! ## Imports -/

/-- An import of a stub is one of its files and is kept by the policy. -/
theorem mem_keptImports {policy : ImportPolicy} {seen : List String} {is : List Import} {i : Import}
    (h : i ∈ keptImports policy seen is) : i ∈ is ∧ policy.keeps i.path = true := by
  induction is generalizing seen with
  | nil => simp [keptImports] at h
  | cons j is ih =>
    rw [keptImports] at h
    split at h
    · next hk =>
      rcases List.mem_cons.1 h with rfl | h
      · exact ⟨List.mem_cons_self, (Bool.and_eq_true_iff.1 hk).1⟩
      · exact ⟨List.mem_cons_of_mem _ (ih h).1, (ih h).2⟩
    · exact ⟨List.mem_cons_of_mem _ (ih h).1, (ih h).2⟩

/-- The package of a single file. -/
def singlePackage (source : SourceFile) : Package where
  path := "m"
  name := source.package
  directory := ⟨"m"⟩
  files := [⟨⟨"m/a.go"⟩, source⟩]

theorem mem_sources {package : Package} {file : SourceFile}
    (h : file ∈ PackageStub.sources package) : ∃ f ∈ package.files, f.source = file :=
  List.mem_map.1 (List.mem_filter.1 h).1

theorem mem_imports {policy : ImportPolicy} {overrides : OverrideTable} {package : Package}
    {stub : PackageStub} (h : PackageStub.ofPackage policy overrides package = .ok stub)
    {i : Import} (hi : i ∈ stub.imports) : ∃ f ∈ package.files, i ∈ f.source.imports := by
  rw [ofPackage_eq h] at hi
  obtain ⟨file, hfile, hi⟩ := List.mem_flatMap.1 (mem_keptImports hi).1
  obtain ⟨f, hf, rfl⟩ := mem_sources hfile
  exact ⟨f, hf, hi⟩

/-- A parsed file fits whatever its leaves satisfy beyond what the parser guarantees. -/
theorem fits_of_parse {file : SourceFile} {ok : Leaf → Prop}
    (hparsed : ∃ text, SourceFile.parse text = .ok file) (h : ∀ l ∈ file.leaves, ok l) :
    file.Fits fun l => l.Parsed ∧ ok l := by
  obtain ⟨text, htext⟩ := hparsed
  exact (parse_fits htext).mono fun l hl hp => ⟨hp, h l hl⟩

/-! ## Text -/

/-- The imports of a stub and what it keeps, each as the lexemes it is written with and the
declaration that these are. -/
def stubItems (imports : List Import) (kept : List String) (ks : List Kept) :
    List (List Lexeme × TopLevel) :=
  imports.map (fun i => (declLexemes "import" (importLexemes i), .imports [i])) ++
    ks.map fun k => ((k.erase kept).lexemes, .decl (k.erase kept).tree)

theorem sound_stubItems {imports : List Import} {kept : List String} {ks : List Kept}
    (hi : ∀ i ∈ imports, Free (importLexemes i)) (hk : ∀ k ∈ ks, (k.erase kept).Fits Leaf.Lexes) :
    ∀ item ∈ stubItems imports kept ks, Sound item.1 := by
  intro item hitem
  rcases List.mem_append.1 hitem with hitem | hitem
  · obtain ⟨i, hm, rfl⟩ := List.mem_map.1 hitem
    exact sound_decl (by decide) (hi i hm).sound
  · obtain ⟨k, hm, rfl⟩ := List.mem_map.1 hitem
    exact (hk k hm).sound

theorem spell_blocks {α : Type} {text : α → String} {g : α → List Lexeme} {xs : List α}
    (h : ∀ x ∈ xs, (text x).toList = spellLexemes (g x ++ newlines 1)) :
    (String.join (xs.map text)).toList = spellLexemes (itemsLexemes (xs.map fun x => (g x, 1))) := by
  induction xs with
  | nil => rfl
  | cons x xs ih =>
    obtain ⟨hx, hrest⟩ := List.forall_mem_cons.1 h
    rw [List.map_cons, List.map_cons, itemsLexemes_cons, String.join_cons, String.toList_append, hx,
      ih hrest, ← List.append_assoc, spellLexemes_append (g x ++ _)]

theorem itemsLexemes_append (xs ys : List (List Lexeme × Nat)) :
    itemsLexemes (xs ++ ys) = itemsLexemes xs ++ itemsLexemes ys := List.flatMap_append

theorem spell_importDecls (is : List Import) :
    (String.join (is.map fun i => "import " ++ printImport i ++ "\n\n")).toList =
      spellLexemes (itemsLexemes (is.map fun i => (declLexemes "import" (importLexemes i), 1))) := by
  refine spell_blocks fun i _ => ?_
  simp [declLexemes, newlines, spell_importLexemes]

theorem spell_renderDecls {ctx : Context} (ho : ctx.overrides = .empty) {ks : List Kept}
    (h : ∀ k ∈ ks, k.Fits Leaf.Erases) :
    (renderDecls (ks.map (Kept.stub ctx))).toList =
      spellLexemes (itemsLexemes (ks.map fun k => ((k.erase ctx.kept).lexemes, 1))) := by
  rw [renderDecls, List.map_map]
  exact spell_blocks fun k hk => Kept.spells ho (h k hk)

/-- **The text of a stub is spelled by the lexemes of its imports and of what is kept.** -/
theorem render_spells {policy : ImportPolicy} {package : Package} {stub : PackageStub}
    (h : PackageStub.ofPackage policy .empty package = .ok stub)
    (hfits : ∀ file ∈ PackageStub.sources package, file.Fits Leaf.Erases) :
    stub.render.toList = spellLexemes (fileLexemes package.name 1
      ((stubItems stub.imports (stub.imports.filterMap Import.boundName?) (keptOf package)).map
        fun i => (i.1, 1))) := by
  have hkept := keptOf_fits hfits (erasesTo_erases []).sentinel
  have hdecls := @spell_renderDecls (PackageStub.contextOf policy .empty package) rfl _ hkept
  obtain rfl := ofPackage_eq h
  simp only [PackageStub.render, String.toList_append, spell_importDecls, hdecls, fileLexemes,
    stubItems, List.map_append, List.map_map, itemsLexemes_append, spellLexemes_cons,
    spellLexemes_append]
  simp [newlines, Function.comp_def, PackageStub.contextOf]

end Understudy.Stub

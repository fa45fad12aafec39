import Understudy.Proofs.FormattedStubs
import Understudy.Proofs.MergedImports

/-!
# Imports of formatted stubs

The formatter keeps an import if the name that it binds stands before a dot in the stub. Formatting
changes none of these names, so the imports of the text that it writes are settled as well:

> **no import is unused, no two bind the same name, and they are in order** (`formatAt_imports`).

The condition is that the stub is read as it was meant. Where a name is spelled like a keyword it can
be another token in the formatted text, and its import stays without a use
(`formatStub_imports_marked`).
-/

set_option autoImplicit false

namespace Understudy.Stub

open Source Modules Files

/-! ## The order of imports -/

/-- The order of imports: the standard library first, then by path, and of the same path the one
without a name first. -/
inductive ImportLt : Import → Import → Prop
  | standard {a b : Import} : isStandardPath a.path = true → isStandardPath b.path = false →
      ImportLt a b
  | path {a b : Import} : isStandardPath a.path = isStandardPath b.path → a.path < b.path →
      ImportLt a b
  | unnamed (path name : String) : ImportLt ⟨none, path⟩ ⟨some name, path⟩
  | name (path : String) {m n : String} : m < n → ImportLt ⟨some m, path⟩ ⟨some n, path⟩

theorem importLt_of_le {a b : Import} (h : importLe a b = true) (hne : a ≠ b) : ImportLt a b := by
  obtain ⟨name, path⟩ := a
  obtain ⟨name', path'⟩ := b
  unfold importLe at h
  dsimp only at h
  split at h
  · next hstd =>
    refine .standard h ?_
    simpa [h] using hstd
  · next hstd =>
    split at h
    · exact .path (by simpa using hstd) (by simpa using h)
    · next hpath =>
      obtain rfl : path = path' := by simpa using hpath
      cases name with
      | none =>
        cases name' with
        | none => exact absurd rfl hne
        | some n => exact .unnamed path n
      | some m =>
        cases name' with
        | none => cases h
        | some n =>
          have hle : m ≤ n := by simpa using h
          refine .name path (String.not_le.1 fun hge => hne ?_)
          rw [String.le_antisymm hle hge]

/-- **Imports that are tidied are in order**, and each is there once. -/
theorem tidyImports_ordered (used : List String) (imports : List Import) :
    (tidyImports used imports).Pairwise ImportLt := by
  have hsorted : (tidyImports used imports).Pairwise fun a b => importLe a b = true :=
    sorted_inOrder (fun _ _ _ => importLe_trans) importLe_total
  have hnodup : (tidyImports used imports).Nodup := nodup_inOrder
  exact (hsorted.and hnodup).imp fun h => importLt_of_le h.1 h.2

/-! ## Names of imports -/

/-- The names that the formatter looks for are names before dots. -/
theorem qualifiersFrom_subset {ts : List Token} {depth : Option Nat} {after behind : Bool}
    (hd : depth = none → after = behind) :
    qualifiersFrom depth after ts ⊆ Token.namesBeforeDots behind ts := by
  induction ts generalizing depth after behind with
  | nil => exact List.nil_subset _
  | cons t ts ih =>
    have hlater : Token.namesBeforeDots (t.kind == .dot) ts ⊆
        Token.namesBeforeDots behind (t :: ts) := by
      rw [Token.namesBeforeDots]
      split
      · exact List.subset_cons_self _ _
      · exact List.Subset.refl _
    -- Inside an import declaration no name counts, so less is found there.
    cases depth with
    | some d =>
      refine List.Subset.trans ?_ hlater
      rw [qualifiersFrom]
      split
      · exact ih (by simp)
      · exact ih (by simp)
      · next hsemi => exact ih fun _ => by simp [hsemi]
      · exact ih (by simp)
    | none =>
      obtain rfl := hd rfl
      rw [qualifiersFrom]
      split
      · exact List.Subset.trans (ih (by simp)) hlater
      · rw [Token.namesBeforeDots]
        split
        · exact List.cons_subset_cons _ (ih fun _ => rfl)
        · exact ih fun _ => rfl

/-- What a leaf has to satisfy for a stub to be read as it was meant: names are not reserved, lengths
are read as lengths, and an instance has arguments. -/
def IsRegular : Leaf → Prop
  | .name s | .qualifier s => Kind.ofWord s = .ident
  | .length s => IsLength s
  | .arity n => 0 < n
  | .entry | .unsupported _ => True

theorem erasesTo_regular (kept : List String) :
    ErasesTo kept (fun l => l.Parsed ∧ IsRegular l) Leaf.ReadsBack where
  name _ h := isToken_ident_iff.2 h
  qualifier _ _ h := isToken_ident_iff.2 h
  length _ h := h.2
  arity _ h := h.2
  sentinel := isToken_sentinel

/-- **A formatted stub imports what it refers to**, each package under a name of its own and in
order, and every import that binds no name. An import declaration has no name before a dot, so the
names are used outside of them. -/
theorem formatAt_imports {policy : ImportPolicy} {package : Package} {stub : PackageStub}
    {path : DiskPath} {t : String} {file : SourceFile}
    (hparsed : ∀ f ∈ package.files, ∃ text, SourceFile.parse text = .ok f.source)
    (hname : ∃ f ∈ package.files, f.source.package = package.name)
    (hpaths : ∀ f ∈ package.files, ∀ i ∈ f.source.imports, IsPlain i.path)
    (hleaves : ∀ f ∈ package.files, ∀ l ∈ f.source.leaves, IsRegular l)
    (h : PackageStub.ofPackage policy .empty package = .ok stub)
    (ht : formatAt path stub.render = .ok t) (hread : SourceFile.parse t = .ok file) :
    (file.imports.filterMap Import.boundName?).Nodup ∧
      (∃ ts, tokenize t = .ok ts ∧ ∀ q ∈ file.imports.filterMap Import.boundName?,
        q ∈ Token.namesBeforeDots false ts) ∧
      (∀ i ∈ stub.imports, i.boundName? = none → i ∈ file.imports) ∧
      file.imports.Pairwise ImportLt := by
  obtain ⟨hpackage, himports, hfits⟩ :=
    fits_of_parsed (fun _ hl => hl) hparsed hname hpaths hleaves h
  have hsentinel : (Leaf.name embedSentinel).Parsed ∧ IsRegular (.name embedSentinel) :=
    isToken_ident_iff.1 isToken_sentinel
  have hformat := formatAt_eq_ok_iff.1 ht
  obtain ⟨ts, hts, -⟩ := formatStub_eq_ok (parse_render (fun _ hl => hl.1) erasesTo_regular hfits
    hsentinel hpackage himports h) hformat
  obtain ⟨us, _, hus, -⟩ := parse_eq_ok hread
  rw [parse_formattedStub (fun _ hl => hl.1) erasesTo_regular hfits hsentinel hpackage himports h
    hformat hts hread]
  have hnames := tokenize_formatted (fun _ hl => hl.1) erasesTo_regular hfits hsentinel hpackage
    himports h hformat hts hus
  refine ⟨?_, ⟨us, hus, fun q hq => ?_⟩, fun i hi hnone => ?_, tidyImports_ordered _ _⟩
  · -- Of the imports of a stub no two bind the same name.
    have hstub : stub.imports = PackageStub.importsOf policy package := by
      rw [ofPackage_eq h]
    have hnodup : (tidyImports (qualifiers ts) stub.imports).Nodup := nodup_inOrder
    refine List.pairwise_filterMap.2 (hnodup.pairwise_of_forall_ne fun i hi j hj hne => ?_)
    rw [mem_tidyImports, hstub] at hi hj
    rintro q hiq _ hjq rfl
    exact hne (importsOf_unique hi.1 hj.1 hiq hjq)
  · obtain ⟨i, hi, hb⟩ := List.mem_filterMap.1 hq
    have hused := (mem_tidyImports.1 hi).2
    simp only [isUsed, hb, List.contains_iff_mem] at hused
    rw [hnames]
    exact qualifiersFrom_subset (fun _ => rfl) hused
  · refine mem_tidyImports.2 ⟨hi, ?_⟩
    rw [isUsed, hnone]

/-- A file with an import that a length refers to, one that nothing does, and a blank one. -/
def mixedSource : SourceFile where
  package := "p"
  imports := [⟨none, "x.io/z"⟩, ⟨none, "os"⟩, ⟨none, "io"⟩, ⟨some "_", "embed"⟩]
  decls := [.type [⟨"T", [], false, .array (some (.literal "z.N")) (.qualified "io" "Reader")⟩]]
  isGenerated := false

/-- The stub of a package with only this file. -/
def mixedStub : PackageStub where
  name := "p"
  imports := [⟨none, "x.io/z"⟩, ⟨none, "os"⟩, ⟨none, "io"⟩, ⟨some "_", "embed"⟩]
  decls := [.type "T" "" false "[z.N]io.Reader", .type "Embedme" "" false "interface\x7b\x7d"]

/-- The text of this stub, formatted. -/
def mixedText : String :=
  "package p\n\nimport (\n\t_ \"embed\"\n\t\"io\"\n\n\t\"x.io/z\"\n)\n\n" ++
    "type T [z.N]io.Reader\n\ntype Embedme interface\x7b\x7d\n"

/-- What the text is read as. -/
def mixedFile : SourceFile where
  package := "p"
  imports := [⟨some "_", "embed"⟩, ⟨none, "io"⟩, ⟨none, "x.io/z"⟩]
  decls := [.type [⟨"T", [], false, .array (some (.literal "z.N")) (.qualified "io" "Reader")⟩],
    .type [⟨"Embedme", [], false, .interface []⟩]]
  isGenerated := false

theorem ofPackage_mixed :
    PackageStub.ofPackage ⟨["x.io/z"], ["m"]⟩ .empty (singlePackage mixedSource) = .ok mixedStub := by
  cbv

theorem isRegular_mixed : ∀ l ∈ mixedSource.leaves, IsRegular l := by
  have hleaves : mixedSource.leaves = [.name "p", .name "_", .name "T", .length "z.N",
      .qualifier "io", .name "Reader"] := by
    cbv
  have hlength : IsLength ("z" ++ "." ++ "N") :=
    isLength_qualified (by decide +kernel) (by decide +kernel)
  rw [hleaves]
  simp only [List.forall_mem_cons, IsRegular]
  exact ⟨by decide, by decide, by decide, hlength, by decide, by decide, List.forall_mem_nil _⟩

theorem tidyImports_mixed : tidyImports ["z", "io"] mixedSource.imports = mixedFile.imports := by
  have hused : mixedSource.imports.filter (isUsed ["z", "io"]) =
      [⟨none, "x.io/z"⟩, ⟨none, "io"⟩, ⟨some "_", "embed"⟩] := by
    decide +kernel
  have hstandard : importLe ⟨none, "x.io/z"⟩ ⟨none, "io"⟩ = false := by decide +kernel
  have hpath : importLe ⟨none, "io"⟩ ⟨some "_", "embed"⟩ = false := by decide +kernel
  rw [tidyImports, hused, eraseDups_of_nodup (by decide)]
  simp [List.mergeSort, hstandard, hpath, mixedFile]

set_option maxRecDepth 8000 in
theorem formatStub_mixed : formatStub mixedStub.render = .ok mixedText := by
  have hrender : mixedStub.render = "package p\n\nimport \"x.io/z\"\n\nimport \"os\"\n\n" ++
      "import \"io\"\n\nimport _ \"embed\"\n\ntype T [z.N]io.Reader\n\n" ++
      "type Embedme interface\x7b\x7d\n\n" := by
    cbv
  have hparse : SourceFile.parse mixedStub.render =
      .ok { mixedFile with imports := mixedSource.imports } := by
    rw [hrender]
    cbv
  have hqualifiers : (tokenize mixedStub.render).map qualifiers = .ok ["z", "io"] := by
    rw [hrender]
    cbv
  obtain ⟨xs, htokens, -⟩ := parse_segments hparse
  rw [htokens] at hqualifiers
  have hused : qualifiers (Segment.allTokens xs) = ["z", "io"] := Except.ok.inj hqualifiers
  rw [formatStub_eq hparse htokens, hused, formatted, tidyImports_mixed]
  rfl

set_option maxRecDepth 8000 in
theorem parse_mixedText : SourceFile.parse mixedText = .ok mixedFile := by
  cbv

theorem formatAt_imports_sample : formatAt ⟨"p.go"⟩ mixedStub.render = .ok mixedText ∧
    SourceFile.parse mixedText = .ok mixedFile ∧
    (mixedFile.imports.filterMap Import.boundName?).Nodup ∧
    (∃ ts, tokenize mixedText = .ok ts ∧ ∀ q ∈ mixedFile.imports.filterMap Import.boundName?,
      q ∈ Token.namesBeforeDots false ts) ∧
    (∀ i ∈ mixedStub.imports, i.boundName? = none → i ∈ mixedFile.imports) ∧
    mixedFile.imports.Pairwise ImportLt := by
  have hparsed : SourceFile.parse ("package p\n" ++
      "import (\"x.io/z\"; \"os\"; \"io\"; _ \"embed\")\ntype T [z.N]io.Reader\n") =
        .ok mixedSource := by
    cbv
  have hformat : formatAt ⟨"p.go"⟩ mixedStub.render = .ok mixedText :=
    formatAt_eq_ok_iff.2 formatStub_mixed
  refine ⟨hformat, parse_mixedText, formatAt_imports (List.forall_mem_singleton.2 ⟨_, hparsed⟩)
    ⟨_, List.mem_singleton_self _, rfl⟩ (List.forall_mem_singleton.2 ?_)
    (List.forall_mem_singleton.2 isRegular_mixed) ofPackage_mixed hformat parse_mixedText⟩
  simp [mixedSource, IsPlain]

/-- A file with a length in which a name is spelled like a keyword. -/
def markedSource : SourceFile :=
  importingSource "x.io/return.v1"
    [.type [⟨"X", [], false, .array (some (.literal "N return\ufeff.C")) (.ident "int")⟩]]

/-- The stub of a package with only this file. -/
def markedStub : PackageStub where
  name := "p"
  imports := [⟨none, "x.io/return.v1"⟩]
  decls := [.type "X" "" false "[N return\ufeff.C]int",
    .type "Embedme" "" false "interface\x7b\x7d"]

/-- What this stub is read as: without the parentheses of the file the length is a type parameter. -/
def markedFile : SourceFile :=
  importingSource "x.io/return.v1"
    [.type [⟨"X", [.mk ["N"] (.qualified "return" "C")], false, .ident "int"⟩],
      .type [⟨"Embedme", [], false, .interface []⟩]]

theorem boundName_marked : Import.boundName? ⟨none, "x.io/return.v1"⟩ = some "return" := by
  decide +kernel

theorem ofPackage_marked :
    PackageStub.ofPackage ⟨["x.io/return.v1"], ["m"]⟩ .empty (singlePackage markedSource) =
      .ok markedStub := by
  have hkeeps : ImportPolicy.keeps ⟨["x.io/return.v1"], ["m"]⟩ "x.io/return.v1" = true := by decide
  have himports : (PackageStub.sources (singlePackage markedSource)).flatMap SourceFile.imports =
      [⟨none, "x.io/return.v1"⟩] := rfl
  have hi : PackageStub.importsOf ⟨["x.io/return.v1"], ["m"]⟩ (singlePackage markedSource) =
      [⟨none, "x.io/return.v1"⟩] := by
    rw [PackageStub.importsOf, himports]
    simp [keptImports, hkeeps]
  have hkept : [(⟨none, "x.io/return.v1"⟩ : Import)].filterMap Import.boundName? = ["return"] := by
    simp [boundName_marked]
  rw [PackageStub.ofPackage, PackageStub.contextOf, hi, hkept]
  cbv

set_option maxRecDepth 8000 in
/-- In the stub the name stands before a byte order mark, in the formatted stub it is a keyword: its
package is still imported although nothing refers to it. -/
theorem formatStub_imports_marked :
    SourceFile.parse "package p\nimport \"x.io/return.v1\"\ntype X ([N return\ufeff.C]int)\n" =
        .ok markedSource ∧
      PackageStub.ofPackage ⟨["x.io/return.v1"], ["m"]⟩ .empty (singlePackage markedSource) =
        .ok markedStub ∧
      formatStub markedStub.render = .ok ("package p\n\nimport \"x.io/return.v1\"\n\n" ++
        "type X[N return.C] int\n\ntype Embedme interface\x7b\x7d\n") ∧
      (SourceFile.parse ("package p\n\nimport \"x.io/return.v1\"\n\n" ++
        "type X[N return.C] int\n\ntype Embedme interface\x7b\x7d\n")).map SourceFile.imports =
          .ok [⟨none, "x.io/return.v1"⟩] ∧
      Import.boundName? ⟨none, "x.io/return.v1"⟩ = some "return" ∧
      (tokenize ("package p\n\nimport \"x.io/return.v1\"\n\n" ++
        "type X[N return.C] int\n\ntype Embedme interface\x7b\x7d\n")).map
          (Token.namesBeforeDots false) = .ok [] := by
  have hrender : markedStub.render = "package p\n\nimport \"x.io/return.v1\"\n\n" ++
      "type X [N return\ufeff.C]int\n\ntype Embedme interface\x7b\x7d\n\n" := rfl
  have hparse : SourceFile.parse markedStub.render = .ok markedFile := by
    rw [hrender]
    cbv
  have hqualifiers : (tokenize markedStub.render).map qualifiers = .ok ["return"] := by
    rw [hrender]
    cbv
  refine ⟨by cbv, ofPackage_marked, ?_, by cbv, boundName_marked, by cbv⟩
  · -- The stub refers to the package, so its import is kept; in the formatted text nothing does.
    obtain ⟨xs, htokens, -⟩ := parse_segments hparse
    rw [htokens] at hqualifiers
    have hused : qualifiers (Segment.allTokens xs) = ["return"] := Except.ok.inj hqualifiers
    have htidy : tidyImports ["return"] markedFile.imports = [⟨none, "x.io/return.v1"⟩] := by
      have hkeep : isUsed ["return"] ⟨none, "x.io/return.v1"⟩ = true := by
        rw [isUsed, boundName_marked]
        decide
      rw [tidyImports, markedFile, importingSource, List.filter_cons_of_pos hkeep, List.filter_nil,
        eraseDups_of_nodup (by simp), List.mergeSort_singleton]
    rw [formatStub_eq hparse htokens, hused, formatted, htidy]
    rfl

end Understudy.Stub

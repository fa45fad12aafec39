import Understudy.Proofs.StubQualifiers

/-!
# Merging imports

Imports are scoped to a file in the sources of a package and to the whole stub behind them. What a
name refers to in the stub is decided once, for all files: the import with that name is the first
one of any file that the policy keeps (`find_importsOf`). So

> **a reference in the stub of a file has the meaning that it has in the file**, if no other file
> keeps an import of another package under the same name (`ofPackage_refers`).

Without the condition it can come to mean another package, and an import that the policy does not
keep can lend its references to one that it does (`ofPackage_refers_clash`).
-/

set_option autoImplicit false

namespace Understudy.Stub

open Source Modules

/-! ## The import behind a name -/

section

variable {policy : ImportPolicy} {seen : List String} {is : List Import} {i j : Import}

theorem keptImports_unseen (hi : i ∈ keptImports policy seen is) : importKey i ∉ seen := by
  induction is generalizing seen with
  | nil => simp [keptImports] at hi
  | cons k is ih =>
    rw [keptImports] at hi
    split at hi
    · next h =>
      rcases List.mem_cons.1 hi with rfl | hi
      · simpa using (Bool.and_eq_true_iff.1 h).2
      · exact fun hm => ih hi (List.mem_cons_of_mem _ hm)
    · exact ih hi

/-- The imports of a stub have different keys. -/
theorem keptImports_unique (hi : i ∈ keptImports policy seen is)
    (hj : j ∈ keptImports policy seen is) (hk : importKey i = importKey j) : i = j := by
  induction is generalizing seen with
  | nil => simp [keptImports] at hi
  | cons k is ih =>
    rw [keptImports] at hi hj
    split at hi
    · next h =>
      rw [if_pos h] at hj
      rcases List.mem_cons.1 hi with rfl | hi <;> rcases List.mem_cons.1 hj with rfl | hj
      · rfl
      · exact absurd (hk ▸ List.mem_cons_self) (keptImports_unseen hj)
      · exact absurd (hk ▸ List.mem_cons_self) (keptImports_unseen hi)
      · exact ih hi hj
    · next h =>
      rw [if_neg h] at hj
      exact ih hi hj

end

/-- The first import with a key is kept, and no other one. -/
theorem find_keptImports (policy : ImportPolicy) {seen : List String} {key : String}
    (hkey : key ∉ seen) (is : List Import) :
    (keptImports policy seen is).find? (importKey · == key) =
      is.find? fun i => policy.keeps i.path && importKey i == key := by
  induction is generalizing seen with
  | nil => rfl
  | cons i is ih =>
    rw [keptImports, List.find?_cons]
    by_cases hk : importKey i = key
    · -- The key has not been seen, so the policy alone decides.
      subst hk
      cases policy.keeps i.path <;> simp [hkey, ih hkey]
    · have hbeq : (importKey i == key) = false := by simpa using hk
      split
      · have hseen : key ∉ importKey i :: seen := by
          simp only [List.mem_cons, not_or]
          exact ⟨Ne.symm hk, hkey⟩
        simp [hbeq, ih hseen]
      · simp [hbeq, ih hkey]

theorem importKey_of_bound {i : Import} {q : String} (h : i.boundName? = some q) :
    importKey i = q := by
  rw [importKey, h]
  rfl

section

variable {policy : ImportPolicy} {package : Package} {i j : Import} {q : String}

/-- Only one import of a stub has a name. -/
theorem importsOf_unique (hi : i ∈ PackageStub.importsOf policy package)
    (hj : j ∈ PackageStub.importsOf policy package) (hiq : i.boundName? = some q)
    (hjq : j.boundName? = some q) : i = j :=
  keptImports_unique hi hj ((importKey_of_bound hiq).trans (importKey_of_bound hjq).symm)

/-- **The import with a name is the first one of any file that the policy keeps.** -/
theorem find_importsOf (hj : j ∈ PackageStub.importsOf policy package)
    (hjq : j.boundName? = some q) :
    ((PackageStub.sources package).flatMap SourceFile.imports).find?
      (fun i => policy.keeps i.path && i.boundName? == some q) = some j := by
  have hkey := find_keptImports policy (List.not_mem_nil : q ∉ [])
    ((PackageStub.sources package).flatMap SourceFile.imports)
  have hfound : (PackageStub.importsOf policy package).find? (importKey · == q) = some j := by
    cases hf : (PackageStub.importsOf policy package).find? (importKey · == q) with
    | none => exact absurd (importKey_of_bound hjq) (by simpa using List.find?_eq_none.1 hf j hj)
    | some k =>
      have hk : importKey k = q := by simpa using List.find?_some hf
      rw [keptImports_unique (List.mem_of_find?_eq_some hf) hj
        (hk.trans (importKey_of_bound hjq).symm)]
  rw [PackageStub.importsOf, hkey, List.find?_eq_some_iff_append] at hfound
  obtain ⟨hp, before, after, he, hbefore⟩ := hfound
  refine List.find?_eq_some_iff_append.2 ⟨?_, before, after, he, fun k hk => ?_⟩
  · simp only [Bool.and_eq_true] at hp
    simp [hp.1, hjq]
  · have hk := hbefore k hk
    simp only [Bool.not_eq_true', Bool.and_eq_false_iff, beq_eq_false_iff_ne] at hk ⊢
    exact hk.imp_right fun hne hq => hne (importKey_of_bound hq)

end

/-! ## References -/

/-- The text of a declaration, where functions have the body that none is given for. -/
def StubDecl.outline : StubDecl → String
  | .func heading _ => StubDecl.render (.func heading defaultBody)
  | decl => decl.render

/-- The outline of a declaration depends on no bodies. -/
theorem Kept.outline_stub (ctx : Context) (k : Kept) :
    (k.stub ctx).outline = (k.stub { ctx with overrides := .empty }).render := by
  cases k with
  | value kind name ty init => cases init <;> rfl
  | type spec => rfl
  | func decl => rfl

/-- The stub of a file is a part of the stub of its package. -/
theorem stubFiles_infix {ctx : Context} {files : List SourceFile} {decls : List StubDecl}
    (h : stubFiles ctx files = .ok decls) {file : SourceFile} (hm : file ∈ files) :
    ∃ ds, stubFile ctx file = .ok ds ∧ ds <:+: decls := by
  induction files generalizing decls with
  | nil => cases hm
  | cons first files ih =>
    obtain ⟨ds, rest, hf, hr, rfl⟩ := stubFiles_cons_iff.1 h
    rcases List.mem_cons.1 hm with rfl | hm
    · exact ⟨ds, hf, (List.prefix_append ds rest).isInfix⟩
    · obtain ⟨es, hes, hin⟩ := ih hr hm
      exact ⟨es, hes, hin.trans (List.suffix_append ds rest).isInfix⟩

theorem ofPackage_infix {policy : ImportPolicy} {overrides : OverrideTable} {package : Package}
    {stub : PackageStub} (h : PackageStub.ofPackage policy overrides package = .ok stub)
    {file : SourceFile} (hfile : file ∈ PackageStub.sources package) :
    ∃ ds, stubFile (PackageStub.contextOf policy overrides package) file = .ok ds ∧
      ds <:+: stub.decls := by
  obtain ⟨decls, hd, rfl⟩ := ofPackage_ok_iff.1 h
  obtain ⟨ds, hds, hin⟩ := stubFiles_infix hd hfile
  exact ⟨ds, hds, hin.trans (List.prefix_append decls [sentinelDecl]).isInfix⟩

/-- **The stub of a declaration refers only to what is kept and what the source refers to.** -/
theorem Kept.Fits.outline_adds {ok : Leaf → Prop} (hok : ∀ l, ok l → l.Parsed ∧ PlainLength l)
    {k : Kept} (h : k.Fits ok) (ctx : Context) :
    ∃ ts, tokenize (k.stub ctx).outline = .ok ts ∧
      ∀ q ∈ qualifiers ts, q ∈ ctx.kept ∧ ok (.qualifier q) := by
  have hfits := h.erase (erasesTo_refersTo ctx.kept hok)
  have htext := @Kept.spells { ctx with overrides := .empty } rfl k
    (h.imp fun l hl => (hok l hl).1.erases)
  rw [← Kept.outline_stub] at htext
  exact tokenize_adds ((hfits.imp fun _ => RefersTo.lexes).sound.newlines 1)
    (hfits.adds.append (adds_newlines 1)) htext

/-- Whether the references that a file makes with a name are bound by an import of the stub. -/
structure Binds (policy : ImportPolicy) (package : Package) (imports : List Import)
    (file : SourceFile) (q : String) (j : Import) : Prop where
  bound : j.boundName? = some q
  keeps : policy.keeps j.path = true
  unique : ∀ j' ∈ imports, j'.boundName? = some q → j' = j
  /-- It is the first import of any file with the name that the policy keeps. -/
  first : ((PackageStub.sources package).flatMap SourceFile.imports).find?
    (fun i => policy.keeps i.path && i.boundName? == some q) = some j
  /-- It has the path of the import of the file, if no other path is kept under the name. -/
  path : ∀ i ∈ file.imports, i.boundName? = some q →
    (∀ other ∈ PackageStub.sources package, ∀ m ∈ other.imports, m.boundName? = some q →
      policy.keeps m.path = true → m.path = i.path) →
    policy.keeps i.path = true ∧ j.path = i.path

theorem importsOf_binds {policy : ImportPolicy} {package : Package} {file : SourceFile} {q : String}
    {j : Import} (hj : j ∈ PackageStub.importsOf policy package) (hjq : j.boundName? = some q) :
    Binds policy package (PackageStub.importsOf policy package) file q j := by
  obtain ⟨hmem, hkeeps⟩ := mem_keptImports hj
  refine ⟨hjq, hkeeps, fun j' hj' hq' => importsOf_unique hj' hj hq' hjq, find_importsOf hj hjq,
    fun i _ _ hclash => ?_⟩
  obtain ⟨other, hother, hm⟩ := List.mem_flatMap.1 hmem
  have hpath := hclash other hother j hm hjq hkeeps
  exact ⟨hpath ▸ hkeeps, hpath⟩

/-- **A reference in the stub of a file has the meaning that it has in the file.** The names before
dots in what the stub has of a file are names of packages in the file, and each is bound by an import
of the stub. -/
theorem ofPackage_refers {policy : ImportPolicy} {overrides : OverrideTable} {package : Package}
    {stub : PackageStub} (h : PackageStub.ofPackage policy overrides package = .ok stub)
    {file : SourceFile} (hfile : file ∈ PackageStub.sources package)
    (hparsed : ∃ text, SourceFile.parse text = .ok file)
    (hlengths : ∀ l ∈ file.leaves, PlainLength l) :
    ∃ ds, stubFile (PackageStub.contextOf policy overrides package) file = .ok ds ∧
      ds <:+: stub.decls ∧ ∀ d ∈ ds, ∃ ts, tokenize d.outline = .ok ts ∧ ∀ q ∈ qualifiers ts,
        .qualifier q ∈ file.leaves ∧
          ∃ j ∈ stub.imports, Binds policy package stub.imports file q j := by
  obtain ⟨ds, hds, hin⟩ := ofPackage_infix h hfile
  refine ⟨ds, hds, hin, fun d hd => ?_⟩
  rw [stubFile_eq _ hds] at hd
  obtain ⟨k, hk, rfl⟩ := List.mem_map.1 hd
  have hfits : k.Fits fun l => l.Parsed ∧ PlainLength l ∧ l ∈ file.leaves :=
    keptDecls_fits (fits_of_parse hparsed fun l hl => ⟨hlengths l hl, hl⟩) k hk
  obtain ⟨ts, hts, hq⟩ := hfits.outline_adds (fun l hl => ⟨hl.1, hl.2.1⟩)
    (PackageStub.contextOf policy overrides package)
  refine ⟨ts, hts, fun q hm => ?_⟩
  obtain ⟨hkept, -, -, hleaf⟩ := hq q hm
  obtain ⟨j, hj, hjq⟩ := List.mem_filterMap.1 hkept
  obtain rfl := ofPackage_eq h
  exact ⟨hleaf, j, hj, importsOf_binds hj hjq⟩

/-- A file that imports a package and declares some types. -/
def importingSource (path : String) (decls : List Decl) : SourceFile where
  package := "p"
  imports := [⟨none, path⟩]
  decls := decls
  isGenerated := false

/-- A file with a type that refers to two packages. -/
def mergedSource : SourceFile where
  package := "p"
  imports := [⟨none, "x.io/meta"⟩, ⟨none, "k8s.io/api/core/v1"⟩]
  decls := [.type [⟨"X", [], false, .map (.qualified "v1" "Name") (.qualified "meta" "Thing")⟩]]
  isGenerated := false

/-- A package where another file imports one of them too. -/
def mergedPackage : Package where
  path := "m"
  name := "p"
  directory := ⟨"m"⟩
  files := [⟨⟨"m/a.go"⟩, importingSource "k8s.io/api/core/v1"
      [.type [⟨"A", [], false, .qualified "v1" "Pod"⟩]]⟩,
    ⟨⟨"m/b.go"⟩, mergedSource⟩]

/-- The stub of the package, where only the import of both files is kept. -/
def mergedStub : PackageStub where
  name := "p"
  imports := [⟨none, "k8s.io/api/core/v1"⟩]
  decls := [.type "A" "" false "v1.Pod", .type "X" "" false "map[v1.Name]interface{}",
    .type "Embedme" "" false "interface{}"]

theorem keeps_core :
    ImportPolicy.keeps ⟨["k8s.io/api/core/v1"], []⟩ "k8s.io/api/core/v1" = true := by
  decide

theorem ofPackage_merged :
    PackageStub.ofPackage ⟨["k8s.io/api/core/v1"], []⟩ .empty mergedPackage = .ok mergedStub := by
  have hmeta : ImportPolicy.keeps ⟨["k8s.io/api/core/v1"], []⟩ "x.io/meta" = false := by
    decide
  have himports : (PackageStub.sources mergedPackage).flatMap SourceFile.imports =
      [⟨none, "k8s.io/api/core/v1"⟩, ⟨none, "x.io/meta"⟩, ⟨none, "k8s.io/api/core/v1"⟩] := rfl
  have hi : PackageStub.importsOf ⟨["k8s.io/api/core/v1"], []⟩ mergedPackage =
      [⟨none, "k8s.io/api/core/v1"⟩] := by
    rw [PackageStub.importsOf, himports]
    simp [keptImports, keeps_core, hmeta]
  rw [PackageStub.ofPackage, PackageStub.contextOf, hi]
  cbv

theorem ofPackage_refers_merged :
    PackageStub.ofPackage ⟨["k8s.io/api/core/v1"], []⟩ .empty mergedPackage = .ok mergedStub ∧
      ∃ ds, stubFile (PackageStub.contextOf ⟨["k8s.io/api/core/v1"], []⟩ .empty mergedPackage)
          mergedSource = .ok ds ∧
        ds <:+: mergedStub.decls ∧ ∀ d ∈ ds, ∃ ts, tokenize d.outline = .ok ts ∧
          ∀ q ∈ qualifiers ts, .qualifier q ∈ mergedSource.leaves ∧
            ∃ j ∈ mergedStub.imports, Binds ⟨["k8s.io/api/core/v1"], []⟩ mergedPackage
              mergedStub.imports mergedSource q j := by
  refine ⟨ofPackage_merged, ofPackage_refers ofPackage_merged
    (List.mem_cons_of_mem _ (List.mem_singleton_self _)) ?_ fun l hl s he => ?_⟩
  · exact ⟨"package p\nimport (\"x.io/meta\"; \"k8s.io/api/core/v1\")\n" ++
      "type X map[v1.Name]meta.Thing\n", by cbv⟩
  · have hleaves : mergedSource.leaves = [.name "p", .name "X", .qualifier "v1", .name "Name",
        .qualifier "meta", .name "Thing"] := rfl
    rw [hleaves] at hl
    simp [he] at hl

/-- A package of two files that import different packages under one name. -/
def clashingPackage : Package where
  path := "m"
  name := "p"
  directory := ⟨"m"⟩
  files := [⟨⟨"m/a.go"⟩, importingSource "k8s.io/api/core/v1" []⟩,
    ⟨⟨"m/b.go"⟩, importingSource "x.io/meta/v1"
      [.type [⟨"X", [], false, .qualified "v1" "Thing"⟩]]⟩]

/-- An import that is not kept refers to one that is. -/
theorem ofPackage_refers_clash :
    SourceFile.parse "package p\nimport \"k8s.io/api/core/v1\"\n" =
        .ok (importingSource "k8s.io/api/core/v1" []) ∧
      SourceFile.parse "package p\nimport \"x.io/meta/v1\"\ntype X v1.Thing\n" =
        .ok (importingSource "x.io/meta/v1"
          [.type [⟨"X", [], false, .qualified "v1" "Thing"⟩]]) ∧
      PackageStub.ofPackage ⟨["k8s.io/api/core/v1"], []⟩ .empty clashingPackage = .ok {
        name := "p"
        imports := [⟨none, "k8s.io/api/core/v1"⟩]
        decls := [.type "X" "" false "v1.Thing", .type "Embedme" "" false "interface\x7b\x7d"] } ∧
      ImportPolicy.keeps ⟨["k8s.io/api/core/v1"], []⟩ "x.io/meta/v1" = false := by
  have hsecond : ImportPolicy.keeps ⟨["k8s.io/api/core/v1"], []⟩ "x.io/meta/v1" = false := by
    decide
  have himports : (PackageStub.sources clashingPackage).flatMap SourceFile.imports =
      [⟨none, "k8s.io/api/core/v1"⟩, ⟨none, "x.io/meta/v1"⟩] := rfl
  have hi : PackageStub.importsOf ⟨["k8s.io/api/core/v1"], []⟩ clashingPackage =
      [⟨none, "k8s.io/api/core/v1"⟩] := by
    rw [PackageStub.importsOf, himports]
    simp [keptImports, keeps_core, hsecond]
  refine ⟨by cbv, by cbv, ?_, hsecond⟩
  rw [PackageStub.ofPackage, PackageStub.contextOf, hi]
  cbv

end Understudy.Stub

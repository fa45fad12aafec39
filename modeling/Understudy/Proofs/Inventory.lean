import Understudy.Proofs.ErasedText
import Understudy.Proofs.Sorting
import Understudy.Proofs.StubContents

/-!
# The inventory of stubs

What a stub has to declare can be listed without looking at any type: the values with a literal or,
for variables, a type, the type names in order, and the exported functions.

> **A stub is read back with exactly the declarations of this list** (`parse_render_inventory`).

The condition on names is there because a word directly before a byte order mark is an identifier
even if it is spelled like a keyword. The stub has no mark behind it, and is not read back then
(`parse_render_reserved`).
-/

set_option autoImplicit false

namespace Understudy.Stub

open Source Modules

/-! ## Entries -/

/-- What a declaration declares. -/
inductive Entry where
  /-- A constant or variable, and its value if it is given one. -/
  | value (kind : ValueKind) (name : String) (literal : Option String)
  | type (name : String)
  | func (name : String)
  /-- A method, and the name of the type that it belongs to. -/
  | method (on : Option String) (name : String)
  deriving Repr, DecidableEq

/-- What a function declares, if it has no receiver or one with one name. -/
def entryOfFunc? (decl : FuncDecl) : Option Entry :=
  match decl.receiver with
  | none => some (.func decl.name)
  | some [.mk [_] type] => some (.method type.receiverName? decl.name)
  | _ => none

/-- What a declaration of a single thing declares. -/
def entryOfDecl? : Decl → Option Entry
  | .const [⟨[name], _, values⟩] => some (.value .const name (values.head?.map Initializer.text))
  | .var [⟨[name], _, values⟩] => some (.value .var name (values.head?.map Initializer.text))
  | .type [spec] => some (.type spec.name)
  | .func decl => entryOfFunc? decl
  | _ => none

/-- The entry of the `i`-th name of a declaration of values: its literal, or for a variable with a
type just its name. -/
def entryOfValue? (kind : ValueKind) (spec : ValueSpec) (i : Nat) (name : String) : Option Entry :=
  match (selectedValue spec i).filter Initializer.isLiteral with
  | some value => some (.value kind name (some value.text))
  | none => if kind = .var ∧ spec.type.isSome then some (.value kind name none) else none

/-- The names of the types of a file, each once and in order. -/
def typeNames (file : SourceFile) : List String :=
  inOrder (fun a b => decide (a ≤ b)) (file.typeSpecs.map TypeSpec.name)

/-- What the stub of a file declares. -/
def fileInventory (file : SourceFile) : List Entry :=
  ((valueSpecs file).flatMap fun (kind, spec) =>
    spec.names.zipIdx.filterMap fun (name, i) => entryOfValue? kind spec i name) ++
  (typeNames file).map .type ++
  ((funcDecls file).filter fun decl => isExported decl.name).filterMap entryOfFunc?

/-- What the stub of a package declares. -/
def inventory (package : Package) : List Entry :=
  (PackageStub.sources package).flatMap fileInventory ++ [.type embedSentinel]

/-! ## What is kept is what is listed -/

/-- The entry of something that is kept. -/
def entryOfKept? : Kept → Option Entry
  | .value kind name _ init => some (.value kind name (init.map Initializer.text))
  | .type spec => some (.type spec.name)
  | .func decl => entryOfFunc? decl

theorem entryOfKept?_keptValue (kind : ValueKind) (spec : ValueSpec) (i : Nat) (name : String) :
    (keptValue? kind spec i name).bind entryOfKept? = entryOfValue? kind spec i name := by
  unfold keptValue? entryOfValue?
  cases (selectedValue spec i).filter Initializer.isLiteral with
  | some value => rfl
  | none => cases kind <;> cases spec.type <;> rfl

theorem lastOfName_pairwise (specs : List TypeSpec) :
    (lastOfName specs).Pairwise fun a b => a.name ≠ b.name := by
  induction specs with
  | nil => exact List.Pairwise.nil
  | cons spec specs ih =>
    rw [lastOfName]
    split
    · exact ih
    · next hnone =>
      refine List.Pairwise.cons (fun s hs he => hnone ?_) ih
      exact List.any_eq_true.2 ⟨s, mem_lastOfName hs, by simp [he]⟩

/-- Every name has a last entry. -/
theorem exists_lastOfName {specs : List TypeSpec} {spec : TypeSpec} (h : spec ∈ specs) :
    ∃ s ∈ lastOfName specs, s.name = spec.name := by
  induction specs generalizing spec with
  | nil => exact absurd h List.not_mem_nil
  | cons first specs ih =>
    rw [lastOfName]
    split
    · next hany =>
      rcases List.mem_cons.1 h with rfl | h
      · obtain ⟨s, hs, he⟩ := List.any_eq_true.1 hany
        obtain ⟨u, hu, hn⟩ := ih hs
        exact ⟨u, hu, hn.trans (beq_iff_eq.1 he)⟩
      · exact ih h
    · rcases List.mem_cons.1 h with rfl | h
      · exact ⟨spec, List.mem_cons_self, rfl⟩
      · obtain ⟨s, hs, hn⟩ := ih h
        exact ⟨s, List.mem_cons_of_mem _ hs, hn⟩

/-- **The types of a stub are the type names of the file, each once and in order.** -/
theorem typesByName_names (file : SourceFile) :
    (typesByName file).map TypeSpec.name = typeNames file := by
  have htrans : ∀ a b c : String, decide (a ≤ b) = true → decide (b ≤ c) = true →
      decide (a ≤ c) = true := by
    intro a b c
    simpa using String.le_trans
  have htotal : ∀ a b : String, (decide (a ≤ b) || decide (b ≤ a)) = true := by
    intro a b
    simpa using String.le_total a b
  have hantisymm : ∀ a b : String, decide (a ≤ b) = true → decide (b ≤ a) = true → a = b := by
    intro a b
    simpa using String.le_antisymm
  have hsorted := @List.pairwise_mergeSort _ (fun a b : TypeSpec => decide (a.name ≤ b.name))
    (fun a b c => htrans a.name b.name c.name) (fun a b => htotal a.name b.name)
    (lastOfName file.typeSpecs)
  have hdistinct : (typesByName file).Pairwise fun a b => a.name ≠ b.name :=
    (List.mergeSort_perm _ _).symm.pairwise (lastOfName_pairwise _) fun h => Ne.symm h
  refine eq_inOrder htrans htotal hantisymm (List.pairwise_map.2 hsorted)
    (List.pairwise_map.2 hdistinct) fun name => ?_
  rw [List.mem_map, List.mem_map]
  constructor
  · rintro ⟨spec, hspec, rfl⟩
    exact ⟨spec, mem_lastOfName (List.mem_mergeSort.1 hspec), rfl⟩
  · rintro ⟨spec, hspec, rfl⟩
    obtain ⟨s, hs, hn⟩ := exists_lastOfName hspec
    exact ⟨s, List.mem_mergeSort.2 hs, hn⟩

theorem isKeptFunc_iff (decl : FuncDecl) :
    isKeptFunc decl = (isExported decl.name && (entryOfFunc? decl).isSome) := by
  unfold isKeptFunc entryOfFunc?
  split <;> simp_all

/-- Of the exported functions those are kept that have an entry. -/
theorem filter_isKeptFunc (decls : List FuncDecl) :
    (decls.filter isKeptFunc).filterMap entryOfFunc? =
      (decls.filter fun decl => isExported decl.name).filterMap entryOfFunc? := by
  rw [List.filterMap_filter, List.filterMap_filter]
  congr
  funext decl
  rw [isKeptFunc_iff]
  cases isExported decl.name <;> cases entryOfFunc? decl <;> rfl

theorem keptDecls_entries (file : SourceFile) :
    (keptDecls file).filterMap entryOfKept? = fileInventory file := by
  have hvalues : (keptValues file).filterMap entryOfKept? = (valueSpecs file).flatMap
      fun (kind, spec) => spec.names.zipIdx.filterMap fun (name, i) => entryOfValue? kind spec i name := by
    simp only [keptValues, List.filterMap_flatMap, List.filterMap_filterMap, entryOfKept?_keptValue]
  have htypes : ((typesByName file).map Kept.type).filterMap entryOfKept? =
      (typeNames file).map .type := by
    rw [← typesByName_names, List.map_map, List.filterMap_map]
    exact List.filterMap_eq_map (f := Entry.type ∘ TypeSpec.name) ▸ rfl
  have hfuncs : (((funcDecls file).filter isKeptFunc).map Kept.func).filterMap entryOfKept? =
      ((funcDecls file).filter fun decl => isExported decl.name).filterMap entryOfFunc? := by
    rw [List.filterMap_map, ← filter_isKeptFunc]
    rfl
  rw [keptDecls, List.filterMap_append, List.filterMap_append, hvalues, htypes, hfuncs]
  rfl

theorem keptOf_entries (package : Package) :
    (keptOf package).filterMap entryOfKept? = inventory package := by
  rw [keptOf, List.filterMap_append, List.filterMap_flatMap]
  simp only [keptDecls_entries]
  rfl

/-! ## Reading a stub back -/

/-- What a leaf has to satisfy for a stub to be read back: names are not reserved, lengths are
single tokens, and an instance has arguments. -/
def Unambiguous : Leaf → Prop
  | .name s | .qualifier s => Kind.ofWord s = .ident
  | .length s => IsToken .ident s ∨ IsToken .number s
  | .arity n => 0 < n
  | .entry | .unsupported _ => True

instance (l : Leaf) : Decidable (Unambiguous l) :=
  match l with
  | .name s | .qualifier s => inferInstanceAs (Decidable (Kind.ofWord s = .ident))
  | .length s => inferInstanceAs (Decidable (IsToken .ident s ∨ IsToken .number s))
  | .arity n => inferInstanceAs (Decidable (0 < n))
  | .entry | .unsupported _ => .isTrue trivial

theorem erasesTo_unambiguous (kept : List String) :
    ErasesTo kept (fun l => l.Parsed ∧ Unambiguous l) Leaf.ReadsBack where
  name _ h := isToken_ident_iff.2 h
  qualifier _ _ h := isToken_ident_iff.2 h
  length s h := Leaf.Reads.readsBack (l := .length s) h.2
  arity _ h := h.2
  sentinel := isToken_sentinel

/-- A declaration of a stub is read as what is kept. -/
theorem entryOfDecl?_tree {ok : Leaf → Prop} {kept : List String} {k : Kept} (h : k.Fits ok) :
    entryOfDecl? (k.erase kept).tree = entryOfKept? k := by
  cases k with
  | value kind name ty init => cases kind <;> cases init <;> rfl
  | type spec => rfl
  | func decl =>
    rcases h.2 with hr | ⟨name, type, hr⟩
    · simp [Kept.erase, Kept.tree, entryOfDecl?, entryOfKept?, entryOfFunc?, hr]
    · simp [Kept.erase, Kept.tree, entryOfDecl?, entryOfKept?, entryOfFunc?, hr, FieldGroup.mapType,
        receiverName?_eraseType]

theorem entryOfKept?_of_fits {ok : Leaf → Prop} {k : Kept} (h : k.Fits ok) :
    ∃ e, entryOfKept? k = some e := by
  cases k with
  | value kind name ty init => exact ⟨_, rfl⟩
  | type spec => exact ⟨_, rfl⟩
  | func decl =>
    rcases h.2 with hr | ⟨name, type, hr⟩
    · exact ⟨.func decl.name, by simp [entryOfKept?, entryOfFunc?, hr]⟩
    · exact ⟨.method type.receiverName? decl.name, by simp [entryOfKept?, entryOfFunc?, hr]⟩

theorem map_entries {ok : Leaf → Prop} {kept : List String} {ks : List Kept}
    (h : ∀ k ∈ ks, k.Fits ok) :
    ks.map (entryOfDecl? ∘ fun k => (k.erase kept).tree) = (ks.filterMap entryOfKept?).map some := by
  induction ks with
  | nil => rfl
  | cons k ks ih =>
    obtain ⟨hk, hrest⟩ := List.forall_mem_cons.1 h
    obtain ⟨e, he⟩ := entryOfKept?_of_fits hk
    rw [List.map_cons, ih hrest, Function.comp_apply, entryOfDecl?_tree hk, he,
      List.filterMap_cons_some he, List.map_cons]

theorem importsOf_singles (is : List Import) :
    importsOf (is.map fun i => .imports [i]) = is := by
  induction is with
  | nil => rfl
  | cons i is ih => exact congrArg (i :: ·) ih

theorem declsOf_singles (is : List Import) : declsOf (is.map fun i => .imports [i]) = [] := by
  induction is with
  | nil => rfl
  | cons i is ih => exact ih

/-- A stub is read back as the trees of what is kept. -/
theorem parse_render {policy : ImportPolicy} {package : Package} {stub : PackageStub}
    {ok : Leaf → Prop} (hok : ∀ l, ok l → l.Parsed)
    (herases : ∀ kept, ErasesTo kept ok Leaf.ReadsBack)
    (hfits : ∀ file ∈ PackageStub.sources package, file.Fits ok) (hsentinel : ok (.name embedSentinel))
    (hname : IsToken .ident package.name) (himports : ∀ i ∈ stub.imports, IsImport i)
    (h : PackageStub.ofPackage policy .empty package = .ok stub) :
    SourceFile.parse stub.render = .ok {
      package := package.name
      imports := stub.imports
      decls := (keptOf package).map fun k =>
        (k.erase (stub.imports.filterMap Import.boundName?)).tree
      isGenerated := false } := by
  have hspell := render_spells h fun file hf =>
    (hfits file hf).mono fun l _ hl => Leaf.Parsed.erases (hok l hl)
  generalize stub.imports.filterMap Import.boundName? = kept at hspell ⊢
  have hkept : ∀ k ∈ keptOf package, (k.erase kept).Fits Leaf.ReadsBack := fun k hk =>
    (keptOf_fits hfits hsentinel k hk).erase (herases kept)
  have hwrites : ∀ item ∈ stubItems stub.imports kept (keptOf package),
      WritesItem item.1 item.2 := by
    intro item hitem
    rcases List.mem_append.1 hitem with hitem | hitem
    · obtain ⟨i, hi, rfl⟩ := List.mem_map.1 hitem
      have hr := importSpec_reads (himports i hi)
      exact writesItem_imports (fun s u rest hu => group_single s rest hr hu) hr.ends
    · obtain ⟨k, hk, rfl⟩ := List.mem_map.1 hitem
      exact (hkept k hk).writes
  -- Each item is read back on its own; that they can stand in one text is said of their lexemes.
  have hsound := sound_stubItems (fun i hi => (himports i hi).free)
    fun k hk => (hkept k hk).imp fun _ => Leaf.ReadsBack.lexes
  have hparse := @parse_fileLexemes package.name hname 1
    ((stubItems stub.imports kept (keptOf package)).map (·, 1))
    (List.forall_mem_map.2 hwrites) (List.forall_mem_map.2 hsound)
    stub.render (by rw [hspell, List.map_map]; rfl)
  have hsnd : ((stubItems stub.imports kept (keptOf package)).map (·, 1)).map (fun i => i.1.2) =
      stub.imports.map (fun i => TopLevel.imports [i]) ++
        ((keptOf package).map fun k => (k.erase kept).tree).map .decl := by
    simp [stubItems, Function.comp_def]
  rw [hparse, hsnd, importsOf_append, declsOf_append, importsOf_decls, declsOf_decls,
    importsOf_singles, declsOf_singles, List.append_nil, List.nil_append]

/-- What is known about a package of parsed files in which no name is spelled like a keyword. -/
theorem fits_of_parsed {policy : ImportPolicy} {package : Package} {stub : PackageStub}
    {ok : Leaf → Prop} (hword : ∀ s, ok (.name s) → Kind.ofWord s = .ident)
    (hparsed : ∀ f ∈ package.files, ∃ text, SourceFile.parse text = .ok f.source)
    (hname : ∃ f ∈ package.files, f.source.package = package.name)
    (hpaths : ∀ f ∈ package.files, ∀ i ∈ f.source.imports, IsPlain i.path)
    (hleaves : ∀ f ∈ package.files, ∀ l ∈ f.source.leaves, ok l)
    (h : PackageStub.ofPackage policy .empty package = .ok stub) :
    IsToken .ident package.name ∧ (∀ i ∈ stub.imports, IsImport i) ∧
      ∀ file ∈ PackageStub.sources package, file.Fits fun l => l.Parsed ∧ ok l := by
  have hfile : ∀ f ∈ package.files, f.source.Fits fun l => l.Parsed ∧ ok l :=
    fun f hf => fits_of_parse (hparsed f hf) (hleaves f hf)
  refine ⟨?_, fun i hi => ?_, fun file hm => ?_⟩
  · obtain ⟨f, hf, hn⟩ := hname
    obtain ⟨hp, hok⟩ := (hfile f hf).package
    rw [← hn]
    exact isToken_ident_iff.2 ⟨hp, hword _ hok⟩
  · obtain ⟨f, hf, hi⟩ := mem_imports h hi
    refine ⟨fun n hn => ?_, hpaths f hf i hi⟩
    exact ((hfile f hf).imports i hi n hn).imp_right fun hl =>
      isToken_ident_iff.2 ⟨hl.1, hword _ hl.2⟩
  · obtain ⟨f, hf, rfl⟩ := mem_sources hm
    exact hfile f hf

/-- **A stub is read back with exactly the declarations of the inventory.** -/
theorem parse_render_inventory {policy : ImportPolicy} {package : Package} {stub : PackageStub}
    (hparsed : ∀ f ∈ package.files, ∃ text, SourceFile.parse text = .ok f.source)
    (hname : ∃ f ∈ package.files, f.source.package = package.name)
    (hpaths : ∀ f ∈ package.files, ∀ i ∈ f.source.imports, IsPlain i.path)
    (hleaves : ∀ f ∈ package.files, ∀ l ∈ f.source.leaves, Unambiguous l)
    (h : PackageStub.ofPackage policy .empty package = .ok stub) :
    ∃ file, SourceFile.parse stub.render = .ok file ∧ file.package = package.name ∧
      file.imports = stub.imports ∧
      file.decls.map entryOfDecl? = (inventory package).map some := by
  obtain ⟨hpackage, himports, hfits⟩ :=
    fits_of_parsed (fun _ hl => hl) hparsed hname hpaths hleaves h
  have hsentinel : (Leaf.name embedSentinel).Parsed ∧ Unambiguous (.name embedSentinel) :=
    isToken_ident_iff.1 isToken_sentinel
  refine ⟨_, parse_render (fun _ hl => hl.1) erasesTo_unambiguous hfits hsentinel hpackage himports h,
    rfl, rfl, ?_⟩
  have hkept := keptOf_fits hfits hsentinel
  rw [← keptOf_entries, List.map_map]
  exact map_entries hkept

/-- A file with two variables of which one has a literal, two types out of order, and a method. -/
def sampleSource : SourceFile where
  package := "p"
  imports := []
  decls := [
    .var [⟨["A", "b"], none, [⟨"1", true⟩, ⟨"x", false⟩]⟩],
    .type [⟨"U", [], false, .ident "T"⟩],
    .type [⟨"T", [], false, .array (some (.literal "4")) (.qualified "z" "K")⟩],
    .func ⟨some [.mk ["t"] (.pointer (.ident "T"))], "M", .mk [] [] none, none⟩]
  isGenerated := false

theorem parse_sampleSource : SourceFile.parse
    "package p\nvar A, b = 1, x\ntype U T\ntype T [4]z.K\nfunc (t *T) M()\n" = .ok sampleSource := by
  cbv

/-- The stub of the package of the file. -/
def sampleStub : PackageStub where
  name := "p"
  imports := []
  decls := [
    .value .var "A" none (some "1"),
    .type "T" "" false "[4]interface\x7b\x7d",
    .type "U" "" false "T",
    .func "func (t *T) M()" "panic(\"stub\")",
    .type "Embedme" "" false "interface\x7b\x7d"]

theorem ofPackage_sample :
    PackageStub.ofPackage ⟨[], ["m"]⟩ .empty (singlePackage sampleSource) = .ok sampleStub := by
  cbv

theorem parse_render_inventory_sample :
    inventory (singlePackage sampleSource) = [.value .var "A" (some "1"), .type "T", .type "U",
      .method (some "T") "M", .type "Embedme"] ∧
    ∃ file, SourceFile.parse sampleStub.render = .ok file ∧ file.package = "p" ∧
      file.imports = [] ∧
      file.decls.map entryOfDecl? = (inventory (singlePackage sampleSource)).map some := by
  refine ⟨?_, parse_render_inventory ?_ ⟨_, List.mem_singleton_self _, rfl⟩ ?_ ?_ ofPackage_sample⟩
  · rw [← keptOf_entries]
    cbv
  · exact List.forall_mem_singleton.2 ⟨_, parse_sampleSource⟩
  · exact List.forall_mem_singleton.2 fun i hi => absurd hi List.not_mem_nil
  · exact List.forall_mem_singleton.2 (by decide +kernel)

/-- A file with a variable that is spelled like a keyword. -/
def reservedSource : SourceFile where
  package := "p"
  imports := []
  decls := [.var [⟨["func"], some (.ident "int"), []⟩]]
  isGenerated := false

/-- The stub of the package of the file. -/
def reservedStub : PackageStub where
  name := "p"
  imports := []
  decls := [.value .var "func" (some "int") none, .type "Embedme" "" false "interface\x7b\x7d"]

set_option maxRecDepth 4000 in
theorem parse_render_reserved :
    SourceFile.parse "package p\nvar func\ufeff int\n" = .ok reservedSource ∧
      PackageStub.ofPackage ⟨[], ["m"]⟩ .empty (singlePackage reservedSource) = .ok reservedStub ∧
        SourceFile.parse reservedStub.render =
          .error ⟨3, 5, "expected identifier, found \"func\""⟩ := by
  refine ⟨?_, ?_, ?_⟩
  · cbv
  · cbv
  · have htext : reservedStub.render =
        "package p\n\nvar func int\n\ntype Embedme interface\x7b\x7d\n\n" := rfl
    rw [htext]
    cbv

end Understudy.Stub

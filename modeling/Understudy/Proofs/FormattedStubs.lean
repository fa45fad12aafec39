import Understudy.Proofs.DottedNames
import Understudy.Proofs.FoundDeclarations
import Understudy.Proofs.Inventory
import Understudy.Proofs.Reformatting

/-!
# Formatted stubs

The formatter reads a stub and prints it in its own way: structs and interfaces have a line for each
entry, and results stand in parentheses only where they have to. What a stub keeps is written in both
texts by one scheme (`Kept.written`), and so

> **formatting a stub changes none of the names before dots** (`tokenize_formatted`).

The printed text need not be read as it was meant, since a list of no results, and a variadic one
alone, are printed without parentheses. But reading it finds one declaration for each that is
printed, so its imports are those that the formatter has kept (`parse_formattedStub`).
-/

set_option autoImplicit false

namespace Understudy.Source

/-- What is read back closes its brackets. -/
theorem Leaf.ReadsBack.closes {l : Leaf} (h : l.ReadsBack) : l.Closes := by
  refine ⟨h.lexes, fun s hs => ?_⟩
  subst hs
  exact IsLength.balanced h

/-- Whether no import is found. -/
def NoImport (found _ : TopLevel) : Prop := importsOf [found] = []

theorem importsOf_noImport {tops written : List TopLevel}
    (h : List.Forall₂ NoImport tops written) : importsOf tops = [] := by
  induction h with
  | nil => rfl
  | @cons found _ tops _ hfound _ ih =>
    have happend := importsOf_append [found] tops
    rw [hfound, ih] at happend
    exact happend

end Understudy.Source

namespace Understudy.Stub

open Source Modules

namespace Kept

/-! ## Written in either way -/

section Written

variable {erased : Bool} {plain declared : TypeExpr → List Lexeme} {inner : List Lexeme} {k : Kept}

/-- **The names before dots in a declaration are those of its leaves.** -/
theorem Fits.refers_written (hplain : ∀ t, IsType Leaf.ReadsBack true t → Refers (plain t) t.leaves)
    (hdeclared : ∀ t, IsType Leaf.ReadsBack true t → Refers (declared t) t.leaves)
    (hinner : Refers inner []) (h : k.Fits Leaf.ReadsBack) :
    Refers (k.written erased plain declared inner) k.tree.leaves := by
  cases k with
  | value kind name ty init =>
    obtain ⟨-, htype, hv⟩ := h
    have hvalues : ∀ ls ∈ init.toList.map Initializer.lexemes, Refers ls [] := by
      intro ls hm
      obtain ⟨v, hmem, rfl⟩ := List.mem_map.1 hm
      obtain ⟨hl, hf⟩ := hv v (Option.mem_toList.1 hmem)
      exact refers_literal (hf.lexemes hl).1
    have hspec := refers_valueSpec [name] (fun t ht => hplain t (htype t ht)) hvalues init.toList
    have hleaves : (Kept.value kind name ty init).tree.leaves =
        ValueSpec.leaves ⟨[name], ty, init.toList⟩ := by
      cases kind <;> exact List.append_nil _
    rw [hleaves]
    exact .word _ (.layout _ hspec)
  | type spec =>
    have hleaves : (Kept.type spec).tree.leaves = spec.leaves := List.append_nil _
    rw [hleaves]
    refine .word _ (.layout _ (refers_typeSpec h.params ?_))
    split
    · exact hplain _ h.type
    · exact hdeclared _ h.type
  | func decl => exact refers_func h.1.receiver h.1.typeParams h.1.signature hinner

theorem Fits.declares_written (hplain : ∀ t, IsType Leaf.Closes true t → Continues (plain t))
    (hdeclared : ∀ t, IsType Leaf.Closes true t → Continues (declared t)) (hinner : Balanced inner)
    (h : k.Fits Leaf.Closes) :
    Declares NoImport (k.written erased plain declared inner) (.decl k.tree) where
  continues := h.continues_written hplain hdeclared hinner
  begins := by
    have hfirst : ∃ (keyword : String) (ms : List Lexeme),
        k.written erased plain declared inner = .ofWord keyword :: ms ∧
          Kind.ofWord keyword ∈ [Kind.kwConst, .kwVar, .kwType, .kwFunc] := by
      cases k with
      | value kind name ty init => exact ⟨kind.keyword, _, rfl, by cases kind <;> decide⟩
      | type spec => exact ⟨"type", _, rfl, by decide⟩
      | func decl => exact ⟨"func", _, rfl, by decide⟩
    obtain ⟨keyword, ms, hl, hk⟩ := hfirst
    refine ⟨_, _, ms, hl, List.mem_cons_of_mem _ hk, fun s rest mid found _ hread => ?_⟩
    obtain ⟨d, rfl⟩ := topLevel_decl hk hread
    rfl

end Written

theorem refers_bodyInner : Refers bodyInner [] :=
  .layout _ (.word _ (.token (by decide) _ (.token (by decide) _ (.token (by decide) _
    (.layout _ .nil)))))

theorem Fits.refers {k : Kept} (h : k.Fits Leaf.ReadsBack) : Refers k.lexemes k.tree.leaves :=
  h.refers_written (fun _ ht => ht.refers) (fun _ ht => ht.refers_declared unaligned_snd)
    refers_bodyInner

/-! ## Printed -/

/-- What stands between the braces of a function in a formatted stub. -/
def printedInner : List Lexeme :=
  [.layout ['\n'], .layout ['\t'], .ofWord "panic", .token .lparen ['('], quotedLexeme "stub",
    .token .rparen [')'], .layout ['\n']]

/-- The lexemes of a declaration of a formatted stub. -/
def printed : Kept → List Lexeme :=
  written false (printedLexemes []) (printedLexemes []) printedInner

theorem layoutInner_body : layoutInner (spellLexemes bodyInner) = spellLexemes printedInner := by
  cbv

/-- The text of a formatted declaration is spelled by its lexemes. -/
theorem Fits.prints {ok : Leaf → Prop} {k : Kept} (h : k.Fits ok) :
    (printDecl k.tree).toList = spellLexemes k.printed := by
  cases k with
  | value kind name ty init =>
    have hvalues : spellLexemes (printedValue [] ⟨[name], ty, init.toList⟩) =
        spellLexemes (valueSpecLexemes [name] (ty.map (printedLexemes []))
          (init.toList.map Initializer.lexemes)) := by
      cases init with
      | none => rfl
      | some v =>
        obtain ⟨hl, hf⟩ := h.2.2 v rfl
        have htext := (hf.lexemes hl).2.2
        simp [printedValue, valueSpecLexemes, spellLexemes_lexemes, ← htext]
    have hspell := spell_printedValue ⟨[name], ty, init.toList⟩
    rw [hvalues] at hspell
    cases kind <;>
    simp [tree, printDecl, printGroup, printed, written, ValueKind.keyword, declLexemes, hspell]
  | type spec =>
    have hspell := spell_printedTypeSpec spec
    simp [tree, printDecl, printGroup, printed, written, declLexemes, hspell, printedTypeSpec]
  -- The printer lays out the body once more, which changes nothing.
  | func decl =>
    have hbody : ({ decl with body := some (String.ofList (spellLexemes bodyInner)) } :
        FuncDecl).laidOut = { decl with body := some (String.ofList (spellLexemes printedInner)) } := by
      rw [FuncDecl.laidOut, Option.map_some, String.toList_ofList, layoutInner_body]
    have hlaid : ∀ b ∈ some (String.ofList (spellLexemes printedInner)),
        layoutInner b.toList = b.toList := by
      intro b hb
      cases hb
      rw [String.toList_ofList, ← layoutInner_body, layoutInner_layoutInner]
    have hspell := @spell_printedFunc
      { decl with body := some (String.ofList (spellLexemes printedInner)) } hlaid
    rw [← hbody, printFunc_laidOut, hbody] at hspell
    refine hspell.trans ?_
    simp [printed, written, printedFunc, funcLexemes, bodyLexemes, spellLexemes_lexemes]

theorem refers_printedInner : Refers printedInner [] :=
  .layout _ (.layout _ (.word _ (.token (by decide) _ (.token (by decide) _ (.token (by decide) _
    (.layout _ .nil))))))

theorem sound_printedInner : Sound printedInner :=
  ((sound_stubCall.newline.cons (l := .layout ['\t']) rfl).cons (l := .layout ['\n']) rfl).sound

theorem Fits.refers_printed {k : Kept} (h : k.Fits Leaf.ReadsBack) :
    Refers k.printed k.tree.leaves :=
  h.refers_written (fun _ ht => ht.refers_declared (alignedEntries_snd none))
    (fun _ ht => ht.refers_declared (alignedEntries_snd none)) refers_printedInner

theorem Fits.sound_printed {k : Kept} (h : k.Fits Leaf.Lexes) : Sound k.printed :=
  h.sound_written (fun _ ht => ht.declared_sound (alignedEntries_snd none) free_nil)
    (fun _ ht => ht.declared_sound (alignedEntries_snd none) free_nil) sound_printedInner

theorem Fits.declares_printed {k : Kept} (h : k.Fits Leaf.Closes) :
    Declares NoImport k.printed (.decl k.tree) :=
  h.declares_written (fun _ ht => ht.continues_declared (alignedEntries_snd none))
    (fun _ ht => ht.continues_declared (alignedEntries_snd none)) rfl

end Kept

/-! ## Formatted stubs -/

/-- The blocks of a formatted stub behind the package clause. -/
def printedBlocks (imports : List Import) (ks : List Kept) : List (List Lexeme) :=
  (if imports.isEmpty then [] else [printedImports imports]) ++ ks.map Kept.printed

theorem refers_imports (is : List Import) : Refers (printedImports is) [] := by
  match is with
  | [i] => exact (Silent.importSpec i).refers (by decide)
  | [] | _ :: _ :: _ =>
    refine Silent.refers (by decide) (.token (by decide) _ (.layout _ (.append (.lines ?_ ?_)
      (.token (by decide) _ .nil))))
    · intro x hx l hl
      rcases (mem_importPads hx).2 l hl with rfl | rfl <;> rfl
    · exact fun x _ => .importSpec x.2

/-- The text of a formatted stub is spelled by its blocks. -/
theorem print_formatted {used : List String} {file : SourceFile} {ks : List Kept} {ok : Leaf → Prop}
    (hdecls : file.decls = ks.map Kept.tree) (hfits : ∀ k ∈ ks, k.Fits ok)
    (himports : ∀ i ∈ file.imports, IsImport i) :
    ∃ n, (formatted used file).print.toList = spellLexemes (fileLexemes file.package n
      (spaced (printedBlocks (tidyImports used file.imports) ks))) := by
  have hprint : (formatted used file).print = SourceFile.print
      { file with imports := tidyImports used file.imports, isGenerated := false } :=
    print_laidOut { file with imports := tidyImports used file.imports, isGenerated := false }
  have hused : ∀ i ∈ tidyImports used file.imports, IsImport i :=
    fun i hi => himports i (mem_tidyImports.1 hi).1
  have hblocks : printBlocks
      { file with imports := tidyImports used file.imports, isGenerated := false } =
        ("package " ++ file.package) :: ((if (tidyImports used file.imports).isEmpty then []
          else [printImports (tidyImports used file.imports)]) ++ file.decls.map printDecl) := rfl
  rw [hprint]
  refine print_spells hblocks ?_
  rw [printedBlocks, hdecls, List.map_append, List.map_append, List.map_map, List.map_map,
    List.map_map]
  congr 1
  · split
    · rfl
    · simp [(prints_imports hused).spells]
  · exact List.map_congr_left fun k hk => (hfits k hk).prints

theorem refers_printedBlocks (is : List Import) {ks : List Kept}
    (h : ∀ k ∈ ks, k.Fits Leaf.ReadsBack) :
    List.Forall₂ Refers (printedBlocks is ks)
      ((if is.isEmpty then [] else [[]]) ++ ks.map fun k => k.tree.leaves) := by
  refine List.rel_append ?_ ?_
  · split
    · exact .nil
    · exact .cons (refers_imports is) .nil
  · rw [List.forall₂_map_left_iff, List.forall₂_map_right_iff, List.forall₂_same]
    exact fun k hk => (h k hk).refers_printed

theorem sound_printedBlocks {is : List Import} {ks : List Kept} (hi : ∀ i ∈ is, IsImport i)
    (h : ∀ k ∈ ks, k.Fits Leaf.Lexes) : ∀ ls ∈ printedBlocks is ks, Sound ls := by
  intro ls hls
  rcases List.mem_append.1 hls with hls | hls
  · split at hls
    · cases hls
    · rw [List.mem_singleton.1 hls]
      exact (prints_imports hi).sound
  · obtain ⟨k, hk, rfl⟩ := List.mem_map.1 hls
    exact (h k hk).sound_printed

theorem refers_stubItems (is : List Import) {kept : List String} {ks : List Kept}
    (h : ∀ k ∈ ks, (k.erase kept).Fits Leaf.ReadsBack) :
    List.Forall₂ Refers ((stubItems is kept ks).map Prod.fst)
      (is.map (fun _ => []) ++ ks.map fun k => (k.erase kept).tree.leaves) := by
  rw [stubItems, List.map_append, List.map_map, List.map_map]
  refine List.rel_append ?_ ?_
  · rw [List.forall₂_map_left_iff, List.forall₂_map_right_iff, List.forall₂_same]
    exact fun i _ => (Silent.importSpec i).refers (by decide)
  · rw [List.forall₂_map_left_iff, List.forall₂_map_right_iff, List.forall₂_same]
    exact fun k hk => (h k hk).refers

/-! ## Imports of formatted stubs -/

/-- Behind the imports none are found. -/
theorem importsOf_printed_decls {ks : List Kept} (h : ∀ k ∈ ks, k.Fits Leaf.Closes) {n : Nat}
    {s : Scanner} (hs : s.pending = false) {tops : List TopLevel} {rest : List Token}
    (hread : topLevelsLoop n (s.tokensToEnd (itemsLexemes (spaced (ks.map Kept.printed)))) =
      .ok (tops, rest)) : importsOf tops = [] := by
  have hspaced : spaced (ks.map Kept.printed) =
      (spaced (ks.map fun k => (k.printed, TopLevel.decl k.tree))).map fun i => (i.1.1, i.2) := by
    rw [spaced_map, List.map_map]
    rfl
  have hdeclares : ∀ i ∈ spaced (ks.map fun k => (k.printed, TopLevel.decl k.tree)),
      Declares NoImport i.1.1 i.1.2 :=
    forall_mem_spaced (p := fun item : List Lexeme × TopLevel => Declares NoImport item.1 item.2)
      (List.forall_mem_map.2 fun k hk => (h k hk).declares_printed)
  rw [hspaced] at hread
  obtain ⟨_, -, hall⟩ := topLevelsLoop_found hdeclares hs hread
  exact importsOf_noImport hall

/-- **Reading a formatted stub finds the imports that it is printed with.** -/
theorem parse_printedBlocks {package : String} (hp : isWord package = true) {n : Nat}
    {is : List Import} {ks : List Kept} (hi : ∀ i ∈ is, IsImport i)
    (h : ∀ k ∈ ks, k.Fits Leaf.Closes) {text : String}
    (htext : text.toList = spellLexemes (fileLexemes package n (spaced (printedBlocks is ks))))
    {file : SourceFile} (hread : SourceFile.parse text = .ok file) : file.imports = is := by
  have hsound : ∀ i ∈ spaced (printedBlocks is ks), Sound i.1 :=
    forall_mem_spaced (sound_printedBlocks hi fun k hk => (h k hk).imp fun _ hl => hl.1)
  obtain ⟨m, s, tops, rest, hs, htops, himports, -⟩ := parse_eq_loop hp hsound htext hread
  rw [himports]
  rw [printedBlocks] at htops
  split at htops
  · next hnil =>
    rw [List.isEmpty_iff.1 hnil]
    exact importsOf_printed_decls h hs htops
  · obtain ⟨k, hk⟩ := spaced_cons (printedImports is) (ks.map Kept.printed)
    rw [List.singleton_append, hk] at htops
    obtain ⟨m, s, more, rfl, hs, hmore⟩ := topLevelsLoop_first (prints_imports hi).writes htops
    have happend := importsOf_append [.imports is] more
    rw [importsOf_printed_decls h hs hmore, List.append_nil] at happend
    exact happend.trans (List.append_nil is)

section Stubs

variable {policy : ImportPolicy} {package : Package} {stub : PackageStub} {ok : Leaf → Prop}
  (hok : ∀ l, ok l → l.Parsed) (herases : ∀ kept, ErasesTo kept ok Leaf.ReadsBack)
  (hfits : ∀ file ∈ PackageStub.sources package, file.Fits ok) (hsentinel : ok (.name embedSentinel))
  (hname : IsToken .ident package.name) (himports : ∀ i ∈ stub.imports, IsImport i)
  (h : PackageStub.ofPackage policy .empty package = .ok stub)
include hok herases hfits hsentinel hname himports h

/-- The text of a formatted stub is spelled by the imports that are used and by what is kept. -/
theorem formatStub_spells {t : String} (ht : formatStub stub.render = .ok t) {ts : List Token}
    (hts : tokenize stub.render = .ok ts) :
    ∃ n, t.toList = spellLexemes (fileLexemes package.name n (spaced (printedBlocks
      (tidyImports (qualifiers ts) stub.imports)
        ((keptOf package).map (Kept.erase (stub.imports.filterMap Import.boundName?)))))) := by
  have hparse := parse_render hok herases hfits hsentinel hname himports h
  obtain ⟨us, hus, rfl⟩ := formatStub_eq_ok hparse ht
  obtain rfl := Except.ok.inj (hts.symm.trans hus)
  have hkept : ∀ k ∈ (keptOf package).map (Kept.erase (stub.imports.filterMap Import.boundName?)),
      k.Fits Leaf.ReadsBack :=
    List.forall_mem_map.2 fun k hk => (keptOf_fits hfits hsentinel k hk).erase (herases _)
  exact print_formatted (by simp) hkept himports

/-- **Formatting a stub changes none of the names before dots.** -/
theorem tokenize_formatted {t : String} (ht : formatStub stub.render = .ok t) {ts us : List Token}
    (hts : tokenize stub.render = .ok ts) (hus : tokenize t = .ok us) :
    Token.namesBeforeDots false us = Token.namesBeforeDots false ts := by
  obtain ⟨n, htext⟩ := formatStub_spells hok herases hfits hsentinel hname himports h ht hts
  have hspell := render_spells h fun file hf =>
    (hfits file hf).mono fun l _ hl => Leaf.Parsed.erases (hok l hl)
  generalize stub.imports.filterMap Import.boundName? = kept at htext hspell
  have hkept : ∀ k ∈ keptOf package, (k.erase kept).Fits Leaf.ReadsBack := fun k hk =>
    (keptOf_fits hfits hsentinel k hk).erase (herases kept)
  have hlexes : ∀ k ∈ keptOf package, (k.erase kept).Fits Leaf.Lexes := fun k hk =>
    (hkept k hk).imp fun _ => Leaf.ReadsBack.lexes
  have hpackage := (isToken_ident_iff.1 hname).1
  -- Both texts have the names of the leaves that are kept; import lines have none before dots.
  have hwritten : Token.namesBeforeDots false ts =
      references ((keptOf package).flatMap fun k => (k.erase kept).tree.leaves) := by
    have hall := refers_stubItems stub.imports hkept
    have hsound := sound_stubItems (fun i hi => (himports i hi).free) hlexes
    rw [tokenize_refers hpackage 1 (List.forall_mem_map.2 hsound) (by rwa [List.map_map]) hspell hts,
      List.flatten_append, List.flatten_eq_nil_iff.2 (by simp), List.nil_append, List.flatMap_def]
  have hprinted : Token.namesBeforeDots false us =
      references ((keptOf package).flatMap fun k => (k.erase kept).tree.leaves) := by
    have hall := refers_printedBlocks (tidyImports (qualifiers ts) stub.imports)
      (List.forall_mem_map.2 hkept)
    have hused : ∀ i ∈ tidyImports (qualifiers ts) stub.imports, IsImport i :=
      fun i hi => himports i (mem_tidyImports.1 hi).1
    have hsound := sound_printedBlocks hused (List.forall_mem_map.2 hlexes)
    rw [tokenize_refers hpackage n (forall_mem_spaced hsound) (by rwa [spaced_fst]) htext hus,
      List.flatten_append, List.flatten_eq_nil_iff.2 (by split <;> simp), List.nil_append,
      List.map_map, List.flatMap_def]
    rfl
  rw [hprinted, hwritten]

/-- **Reading a formatted stub finds the imports that the formatter keeps.** -/
theorem parse_formattedStub {t : String} (ht : formatStub stub.render = .ok t) {ts : List Token}
    (hts : tokenize stub.render = .ok ts) {file : SourceFile} (hread : SourceFile.parse t = .ok file) :
    file.imports = tidyImports (qualifiers ts) stub.imports := by
  obtain ⟨n, htext⟩ := formatStub_spells hok herases hfits hsentinel hname himports h ht hts
  refine parse_printedBlocks (isToken_ident_iff.1 hname).1 (fun i hi => ?_)
    (List.forall_mem_map.2 fun k hk => ?_) htext hread
  · exact himports i (mem_tidyImports.1 hi).1
  · exact ((keptOf_fits hfits hsentinel k hk).erase (herases _)).imp fun _ => Leaf.ReadsBack.closes

end Stubs

end Understudy.Stub

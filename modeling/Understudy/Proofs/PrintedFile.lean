import Understudy.Proofs.PrintedText

/-!
# Printed files are read back

What a file has to satisfy in order to be printed (`SourceFile.WellFormed`), and the round trip:

> **The printed text of a file is read as the file** (`parse_print`).

The text is the blocks of the file with an empty line between them, so it has the form that
`parse_fileLexemes` reads once each block is known to be a way to write its declaration.
-/

set_option autoImplicit false

namespace Understudy.Source

open Understudy.Source.Parser

/-! ## Well-formed files -/

/-- Whether a declaration can be printed. -/
def Decl.WellFormed : Decl → Prop
  | .const specs | .var specs => ∀ spec ∈ specs, IsValueSpec spec
  | .type specs => ∀ spec ∈ specs, IsTypeSpec spec
  | .func decl => IsFuncDecl decl

/-- Whether a file can be printed. -/
structure SourceFile.WellFormed (file : SourceFile) : Prop where
  package : IsToken .ident file.package
  imports : ∀ i ∈ file.imports, IsImport i
  decls : ∀ d ∈ file.decls, d.WellFormed

/-! ## Blocks -/

/-- Whether a text is a way to write a declaration. -/
structure PrintsItem (text : String) (ls : List Lexeme) (item : TopLevel) : Prop where
  writes : WritesItem ls item
  sound : Sound ls
  spells : text.toList = spellLexemes ls

/-- The lexemes of a declaration. -/
def printedDecl : Decl → List Lexeme
  | .const specs => declLexemes "const" (entriesLexemes printedValue specs)
  | .var specs => declLexemes "var" (entriesLexemes printedValue specs)
  | .type specs => declLexemes "type" (entriesLexemes printedTypeSpec specs)
  | .func decl => printedFunc decl

theorem prints_func {decl : FuncDecl} (h : IsFuncDecl decl) :
    PrintsItem (printFunc decl) (printedFunc decl) (.decl (.func decl)) := by
  have hlexes : ∀ l : Leaf, l.Reads → l.Lexes := fun _ => Leaf.Reads.lexes
  have hreads : ∀ l : Leaf, l.Reads → l.ReadsBack := fun _ => Leaf.Reads.readsBack
  have hspell := spell_printedFunc fun b hb => (h.body b hb).laidOut
  obtain ⟨receiver, name, sig, body⟩ := decl
  obtain ⟨hr, hn, hp, hs, hb⟩ := h
  have hbalanced : ∀ ls ∈ body.map fun b => lexemes b.toList, Balanced ls := by
    intro ls hls
    obtain ⟨b, hm, rfl⟩ := Option.map_eq_some_iff.1 hls
    exact (hb b hm).balanced
  have hsound : ∀ ls ∈ body.map fun b => lexemes b.toList, Sound ls := by
    intro ls hls
    obtain ⟨b, hm, rfl⟩ := Option.map_eq_some_iff.1 hls
    exact (hb b hm).sound
  refine ⟨?_, ?_, hspell⟩
  · have hw := writesItem_func (fun fs hm => (hr fs hm).imp hreads) hn
      (fun f hf => (hp f hf).imp hreads) (hs.imp hreads) hbalanced
      fun ls hls => (hsound ls hls).good
    simpa [printedFunc, Function.comp_def, spellLexemes_lexemes] using hw
  · exact sound_func (fun fs hm => (hr fs hm).imp hlexes) (isToken_ident_iff.1 hn).1
      (fun f hf => (hp f hf).imp hlexes) (hs.imp hlexes) hsound

theorem prints_decl {d : Decl} (h : d.WellFormed) :
    PrintsItem (printDecl d) (printedDecl d) (.decl d) := by
  cases d with
  | const specs =>
    have h : ∀ x ∈ specs, Prints valueSpec printValueSpec printedValue x :=
      fun x hx => prints_value (h x hx)
    exact ⟨writesItem_const (entries_read h) (endsLine_entries h),
      sound_decl (by decide) (sound_entries h), spell_entries h "const"⟩
  | var specs =>
    have h : ∀ x ∈ specs, Prints valueSpec printValueSpec printedValue x :=
      fun x hx => prints_value (h x hx)
    exact ⟨writesItem_var (entries_read h) (endsLine_entries h),
      sound_decl (by decide) (sound_entries h), spell_entries h "var"⟩
  | type specs =>
    have h : ∀ x ∈ specs, Prints typeSpec printTypeSpec printedTypeSpec x :=
      fun x hx => prints_typeSpec (h x hx)
    exact ⟨writesItem_type (entries_read h) (endsLine_entries h),
      sound_decl (by decide) (sound_entries h), spell_entries h "type"⟩
  | func decl => exact prints_func h

/-! ## Imports -/

/-- The imports of a group, each with the layout before it. -/
def importPads (before : Option Bool) : List Import → List (List Lexeme × Import)
  | [] => []
  | i :: is =>
    let standard := isStandardPath i.path
    let blank := if before.any (· != standard) then [.layout ['\n']] else []
    (blank ++ [.layout ['\t']], i) :: importPads (some standard) is

/-- The lexemes of the import declaration of a file with imports. -/
def printedImports : List Import → List Lexeme
  | [i] => declLexemes "import" (importLexemes i)
  | is => declLexemes "import" (groupLexemes importLexemes (importPads none is))

theorem spell_importLexemes (i : Import) :
    (printImport i).toList = spellLexemes (importLexemes i) := by
  obtain ⟨name, path⟩ := i
  cases name with
  | none => simp [printImport, importLexemes, quotedLexeme]
  | some name =>
    have hname : (importName name).text = name.toList := by
      unfold importName
      split
      · next h => simp [h]
      · rfl
    simp [printImport, importLexemes, quotedLexeme, hname]

theorem importPads_snd (before : Option Bool) (is : List Import) :
    (importPads before is).map Prod.snd = is := by
  induction is generalizing before with
  | nil => rfl
  | cons i is ih => rw [importPads, List.map_cons, ih]

theorem mem_importPads {before : Option Bool} {is : List Import} {x : List Lexeme × Import}
    (h : x ∈ importPads before is) :
    x.2 ∈ is ∧ ∀ l ∈ x.1, l = .layout ['\n'] ∨ l = .layout ['\t'] := by
  induction is generalizing before with
  | nil => simp [importPads] at h
  | cons i is ih =>
    rw [importPads] at h
    rcases List.mem_cons.1 h with rfl | h
    · refine ⟨List.mem_cons_self, fun l hl => ?_⟩
      rcases List.mem_append.1 hl with hl | hl
      · split at hl
        · exact Or.inl (List.mem_singleton.1 hl)
        · simp at hl
      · exact Or.inr (List.mem_singleton.1 hl)
    · exact ⟨List.mem_cons_of_mem _ (ih h).1, (ih h).2⟩

theorem spell_importPads (before : Option Bool) (is : List Import) :
    (importLines before is).toList =
      spellLexemes (linesLexemes importLexemes (importPads before is)) := by
  induction is generalizing before with
  | nil => rfl
  | cons i is ih =>
    simp only [importLines, importPads, linesLexemes_cons, String.toList_append, ih,
      spell_importLexemes, spellLexemes_append, spellLexemes_cons]
    split <;> simp

theorem free_layouts {ls : List Lexeme} (h : ∀ l ∈ ls, l = .layout ['\n'] ∨ l = .layout ['\t']) :
    Free ls := by
  induction ls with
  | nil => exact free_nil
  | cons l ls ih =>
    obtain ⟨hl, htail⟩ := List.forall_mem_cons.1 h
    rcases hl with rfl | rfl <;> exact (ih htail).cons rfl

theorem prints_importGroup {is : List Import} (h : ∀ i ∈ is, IsImport i) :
    PrintsItem ("import (\n" ++ importLines none is ++ ")")
      (declLexemes "import" (groupLexemes importLexemes (importPads none is)))
      (.imports is) := by
  have hpads := fun x (hx : x ∈ importPads none is) => mem_importPads hx
  refine ⟨writesItem_imports (fun s u rest _ => ?_) ?_, ?_, ?_⟩
  · rw [group_reads s rest, importPads_snd]
    · intro x hx l hl
      rcases (hpads x hx).2 l hl with rfl | rfl <;> rfl
    · exact fun x hx => importSpec_reads (h _ (hpads x hx).1)
  · exact (((endsLine_token rfl _).append _).cons _).cons _
  · refine sound_decl (by decide) (Free.cons rfl (Free.cons rfl (Free.append (free_lines ?_ ?_)
      (free_of_isFree rfl)))).sound
    · exact fun x hx => free_layouts (hpads x hx).2
    · intro x hx
      exact (h _ (hpads x hx).1).free.sound
  · simp [spell_importPads, declLexemes, groupLexemes]

theorem prints_imports {is : List Import} (h : ∀ i ∈ is, IsImport i) :
    PrintsItem (printImports is) (printedImports is) (.imports is) := by
  match is with
  | [i] =>
    have hi := h i (by simp)
    have hr := importSpec_reads hi
    refine ⟨writesItem_imports (fun s u rest hu => group_single s rest hr hu) hr.ends,
      sound_decl (by decide) hi.free.sound, ?_⟩
    simp [printImports, printedImports, spell_importLexemes, declLexemes]
  | [] | _ :: _ :: _ => exact prints_importGroup h

/-! ## Files -/

/-- Blocks with the number of empty lines behind each: one, but none behind the last. -/
def spaced {α : Type} : List α → List (α × Nat)
  | [] => []
  | [x] => [(x, 0)]
  | x :: y :: ys => (x, 1) :: spaced (y :: ys)

theorem spaced_map {α β : Type} (f : α → β) (xs : List α) :
    (spaced xs).map (fun x => (f x.1, x.2)) = spaced (xs.map f) := by
  fun_induction spaced xs with
  | case1 => rfl
  | case2 x => rfl
  | case3 x y ys ih =>
    rw [List.map_cons, ih]
    rfl

theorem spaced_fst {α : Type} (xs : List α) : (spaced xs).map Prod.fst = xs := by
  fun_induction spaced xs with
  | case1 => rfl
  | case2 x => rfl
  | case3 x y ys ih => rw [List.map_cons, ih]

theorem forall_mem_spaced {α : Type} {xs : List α} {p : α → Prop} (h : ∀ x ∈ xs, p x) :
    ∀ i ∈ spaced xs, p i.1 := by
  intro i hi
  have hmem := List.mem_map_of_mem (f := Prod.fst) hi
  rw [spaced_fst] at hmem
  exact h _ hmem

theorem spaced_cons {α : Type} (x : α) (xs : List α) :
    ∃ k, spaced (x :: xs) = (x, k) :: spaced xs := by
  cases xs with
  | nil => exact ⟨0, rfl⟩
  | cons y ys => exact ⟨1, rfl⟩

theorem spell_spaced {lss : List (List Lexeme)} {texts : List String} (hne : lss ≠ [])
    (h : texts.map String.toList = lss.map spellLexemes) :
    spellLexemes (itemsLexemes (spaced lss)) =
      (String.intercalate "\n\n" texts ++ "\n").toList := by
  rw [String.toList_append, String.toList_intercalate, h]
  clear h
  fun_induction spaced lss with
  | case1 => exact absurd rfl hne
  | case2 ls => simp [itemsLexemes, newlines]
  | case3 ls ms lss ih =>
    rw [itemsLexemes_cons, spellLexemes_append, spellLexemes_append, ih (by simp)]
    simp [newlines, List.intercalate_cons_cons]

/-- The blocks of a file behind the package clause. -/
def printedItems (file : SourceFile) : List (List Lexeme × TopLevel) :=
  (if file.imports.isEmpty then [] else [(printedImports file.imports, .imports file.imports)]) ++
    file.decls.map fun d => (printedDecl d, .decl d)

theorem importsOf_append (xs ys : List TopLevel) :
    importsOf (xs ++ ys) = importsOf xs ++ importsOf ys := List.flatMap_append

theorem declsOf_append (xs ys : List TopLevel) :
    declsOf (xs ++ ys) = declsOf xs ++ declsOf ys := List.filterMap_append

theorem importsOf_decls (ds : List Decl) : importsOf (ds.map .decl) = [] := by
  induction ds with
  | nil => rfl
  | cons d ds ih => exact ih

theorem declsOf_decls (ds : List Decl) : declsOf (ds.map .decl) = ds := by
  induction ds with
  | nil => rfl
  | cons d ds ih => exact congrArg (d :: ·) ih

theorem printedItems_snd (file : SourceFile) :
    (printedItems file).map Prod.snd =
      (if file.imports.isEmpty then [] else [.imports file.imports]) ++
        file.decls.map .decl := by
  rw [printedItems, List.map_append, List.map_map]
  split <;> rfl

theorem importsOf_printed (file : SourceFile) :
    importsOf ((printedItems file).map Prod.snd) = file.imports := by
  rw [printedItems_snd, importsOf_append, importsOf_decls, List.append_nil]
  cases file.imports with
  | nil => rfl
  | cons i is => simp [importsOf]

theorem declsOf_printed (file : SourceFile) :
    declsOf ((printedItems file).map Prod.snd) = file.decls := by
  rw [printedItems_snd, declsOf_append, declsOf_decls]
  split <;> rfl

theorem SourceFile.WellFormed.items {file : SourceFile} (h : file.WellFormed) :
    ∃ texts : List String, printBlocks file = ("package " ++ file.package) :: texts ∧
      texts.map String.toList = (printedItems file).map (fun item => spellLexemes item.1) ∧
      ∀ item ∈ printedItems file, WritesItem item.1 item.2 ∧ Sound item.1 := by
  have hi := prints_imports h.imports
  have hd := fun d hd => prints_decl (h.decls d hd)
  refine ⟨(if file.imports.isEmpty then [] else [printImports file.imports]) ++
    file.decls.map printDecl, rfl, ?_, ?_⟩
  · rw [printedItems, List.map_append, List.map_append, List.map_map, List.map_map]
    congr 1
    · split
      · rfl
      · simp [hi.spells]
    · exact List.map_congr_left fun d hm => (hd d hm).spells
  · intro item hm
    rcases List.mem_append.1 hm with hm | hm
    · split at hm
      · simp at hm
      · rw [List.mem_singleton.1 hm]
        exact ⟨hi.writes, hi.sound⟩
    · obtain ⟨d, hd', rfl⟩ := List.mem_map.1 hm
      exact ⟨(hd d hd').writes, (hd d hd').sound⟩

/-- The text of a file is spelled by the lexemes of its blocks. -/
theorem print_spells {file : SourceFile} {texts : List String}
    (hblocks : printBlocks file = ("package " ++ file.package) :: texts) {lss : List (List Lexeme)}
    (hspell : texts.map String.toList = lss.map spellLexemes) :
    ∃ k, file.print.toList = spellLexemes (fileLexemes file.package k (spaced lss)) := by
  obtain ⟨k, hk⟩ := spaced_cons [Lexeme.ofWord "package", .layout [' '], .ofWord file.package] lss
  have hpieces : (("package " ++ file.package) :: texts).map String.toList =
      ([Lexeme.ofWord "package", .layout [' '], .ofWord file.package] :: lss).map spellLexemes := by
    simp [hspell]
  have hs := spell_spaced (by simp) hpieces
  refine ⟨k, ?_⟩
  rw [SourceFile.print, hblocks, ← hs, hk, itemsLexemes_cons]
  rfl

/-- **Printing a file and then parsing gives back the file.** -/
theorem parse_print {file : SourceFile} (h : file.WellFormed) (hg : file.isGenerated = false) :
    SourceFile.parse file.print = .ok file := by
  obtain ⟨texts, hblocks, hspell, hitems⟩ := h.items
  have hspell : texts.map String.toList =
      ((printedItems file).map Prod.fst).map spellLexemes := by
    rw [hspell, List.map_map]
    rfl
  obtain ⟨k, htext⟩ := print_spells hblocks hspell
  rw [← spaced_map Prod.fst] at htext
  have hmap : (spaced (printedItems file)).map (fun i => i.1.2) =
      (printedItems file).map Prod.snd := by
    rw [← spaced_fst (printedItems file), List.map_map, spaced_fst]
    rfl
  rw [parse_fileLexemes h.package k (forall_mem_spaced fun item hm => (hitems item hm).1)
    (forall_mem_spaced fun item hm => (hitems item hm).2) htext, hmap, importsOf_printed,
    declsOf_printed, ← hg]

/-- A file with imports of two kinds, a group of variables with a struct in it, a type with a
parameter and a method with a body. -/
def sampleFile : SourceFile where
  package := "p"
  imports := [⟨none, "fmt"⟩, ⟨some "z", "k8s.io/z"⟩]
  decls := [
    .const [⟨["A"], none, [⟨"f(x, y)", false⟩]⟩],
    .var [
      ⟨["c"], some (.array (some (.literal "N")) (.ident "T")), []⟩,
      ⟨["d"], some (.struct [.mk ["x"] (.ident "T"), .mk ["xs", "ys"] (.ident "T")]), []⟩],
    .type [⟨"G", [.mk ["K"] (.union [.tilde (.ident "int"), .ident "T"])], false,
      .interface [.method "M" (.mk [] [] none)]⟩],
    .func ⟨some [.mk ["r"] (.pointer (.ident "T"))], "F",
      .mk [] [.mk [] (.ellipsis (.ident "int"))] (some [.mk ["e"] (.qualified "z" "E")]),
      some "\n\treturn\n"⟩]
  isGenerated := false

theorem isInitializer_call : IsInitializer ⟨"f(x, y)", false⟩ := by
  have hl : lexemes "f(x, y)".toList = [.token .ident ['f'], .token .lparen ['('],
      .token .ident ['x'], .token .comma [','], .layout [' '], .token .ident ['y'],
      .token .rparen [')']] := by
    decide +kernel
  have hends : EndsLine (lexemes "f(x, y)".toList) := by
    rw [hl]
    exact ((((((endsLine_token rfl _).cons _).cons _).cons _).cons _).cons _).cons _
  refine ⟨⟨_, _, _, hl⟩, ?_, by decide, ?_, ?_, hends, ?_⟩
  · rw [hl]
    decide
  · rw [hl]
    rfl
  · rw [hl]
    decide
  · rw [hl]
    rfl

theorem sampleFile_wellFormed : sampleFile.WellFormed := by
  have hname : ∀ s ∈ ["p", "z", "A", "int", "c", "N", "T", "d", "x", "xs", "ys", "G", "K", "M",
      "r", "F", "e", "E"], IsToken .ident s := by
    decide +kernel
  have ht : IsType Leaf.Reads false (.ident "T") := .ident (hname "T" (by decide))
  have hint : IsType Leaf.Reads false (.ident "int") := .ident (hname "int" (by decide))
  refine ⟨hname "p" (by decide), ?_, ?_⟩
  · refine List.forall_mem_cons.2 ⟨⟨by simp, ?_⟩, List.forall_mem_singleton.2 ⟨?_, ?_⟩⟩
    · simp [IsPlain]
    · intro n hn
      cases hn
      exact Or.inr (hname "z" (by decide))
    · simp [IsPlain]
  · refine List.forall_mem_cons.2 ⟨?_, List.forall_mem_cons.2 ⟨?_, List.forall_mem_cons.2
      ⟨?_, List.forall_mem_singleton.2 ?_⟩⟩⟩
    · refine List.forall_mem_singleton.2 ⟨by simp, ?_, by simp, ?_⟩
      · exact List.forall_mem_singleton.2 (hname "A" (by decide))
      · exact List.forall_mem_singleton.2 isInitializer_call
    · refine List.forall_mem_cons.2 ⟨⟨by simp, ?_, ?_, by simp⟩, List.forall_mem_singleton.2
        ⟨by simp, ?_, ?_, by simp⟩⟩
      · exact List.forall_mem_singleton.2 (hname "c" (by decide))
      · intro t ht'
        cases ht'
        exact .array (Or.inl (hname "N" (by decide))) ht
      · exact List.forall_mem_singleton.2 (hname "d" (by decide))
      · intro t ht'
        cases ht'
        refine .struct ?_ ?_
        · refine List.forall_mem_cons.2 ⟨?_, List.forall_mem_singleton.2 ?_⟩
          · exact List.forall_mem_singleton.2 (hname "x" (by decide))
          · exact List.forall_mem_cons.2 ⟨hname "xs" (by decide),
              List.forall_mem_singleton.2 (hname "ys" (by decide))⟩
        · exact List.forall_mem_cons.2 ⟨ht, List.forall_mem_singleton.2 ht⟩
    · refine List.forall_mem_singleton.2 ⟨hname "G" (by decide), ?_, ?_, ?_⟩
      · refine List.forall_mem_singleton.2 ⟨by simp, ?_, .union (by decide) ?_⟩
        · exact List.forall_mem_singleton.2 (hname "K" (by decide))
        · exact List.forall_mem_cons.2 ⟨.tilde hint, List.forall_mem_singleton.2 (.type ht)⟩
      · intro f hf
        cases hf
        exact Or.inr rfl
      · refine .interface (List.forall_mem_singleton.2 (.method (hname "M" (by decide)) ?_))
        exact .plain (Or.inl (by simp)) (by simp [NamesOk]) (by simp)
    · refine ⟨?_, hname "F" (by decide), by simp [Signature.typeParams], ?_, ?_⟩
      · intro fs hfs
        cases hfs
        refine ⟨Or.inr (by simp), ?_, List.forall_mem_singleton.2 (.type (.pointer ht))⟩
        exact List.forall_mem_singleton.2 (List.forall_mem_singleton.2 (hname "r" (by decide)))
      · refine .results (Or.inl (List.forall_mem_singleton.2 rfl))
          (List.forall_mem_singleton.2 (by simp)) ?_ (Or.inr (by simp)) ?_ ?_ ?_
        · exact List.forall_mem_singleton.2 (.variadic hint)
        · exact List.forall_mem_singleton.2 (List.forall_mem_singleton.2 (hname "e" (by decide)))
        · exact List.forall_mem_singleton.2 (.type (.qualified (hname "z" (by decide))
            (hname "E" (by decide))))
        · exact Or.inr ⟨by simp, by simp⟩
      · intro b hb
        cases hb
        refine ⟨by decide +kernel, by decide +kernel, ?_⟩
        unfold Balanced
        decide +kernel

theorem parse_print_sample :
    sampleFile.WellFormed ∧ sampleFile.isGenerated = false ∧
      SourceFile.parse sampleFile.print = .ok sampleFile :=
  ⟨sampleFile_wellFormed, rfl, parse_print sampleFile_wellFormed rfl⟩

end Understudy.Source

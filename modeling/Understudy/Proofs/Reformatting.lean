import Understudy.Proofs.BodyIndentation
import Understudy.Proofs.LaidOutCode
import Understudy.Proofs.PrintedFile
import Understudy.Proofs.References
import Understudy.Proofs.Sorting

/-!
# Formatting twice

The formatter prints the file that it has read, with its imports tidied. Whatever printing changes
is a matter of layout: a file whose bodies are laid out is printed like the file itself
(`print_laidOut`), and if it can be read back then

> **formatting a text again changes nothing as long as no import has come out of use**
> (`formatStub_again_iff`).

No import does, for types, bodies and initializers all keep their names before dots
(`qualifiers_formatted`), and so the formatter is idempotent (`formatAt_formatAt`). Not on all texts:
the lines of a string in a group of constants are indented each time (`formatAt_indents`).
-/

set_option autoImplicit false

namespace Understudy.Source

/-! ## Files that are laid out -/

/-- A function with its body laid out. -/
def FuncDecl.laidOut (decl : FuncDecl) : FuncDecl :=
  { decl with body := decl.body.map fun b => String.ofList (layoutInner b.toList) }

/-- A declaration with the body laid out, if it has one. -/
def Decl.laidOut : Decl → Decl
  | .func decl => .func decl.laidOut
  | d => d

/-- A file with all bodies laid out. -/
def SourceFile.laidOut (file : SourceFile) : SourceFile :=
  { file with decls := file.decls.map Decl.laidOut }

theorem FuncDecl.laidOut_laidOut (decl : FuncDecl) : decl.laidOut.laidOut = decl.laidOut := by
  simp [FuncDecl.laidOut, Function.comp_def, layoutInner_layoutInner]

theorem Decl.laidOut_laidOut (d : Decl) : d.laidOut.laidOut = d.laidOut := by
  cases d with
  | func decl => exact congrArg Decl.func decl.laidOut_laidOut
  | const | var | type => rfl

theorem SourceFile.laidOut_laidOut (file : SourceFile) : file.laidOut.laidOut = file.laidOut := by
  simp [SourceFile.laidOut, Decl.laidOut_laidOut]

theorem printFunc_laidOut (decl : FuncDecl) : printFunc decl.laidOut = printFunc decl := by
  obtain ⟨receiver, name, signature, body⟩ := decl
  cases body with
  | none => rfl
  | some body =>
    have hbody : layoutBody (String.ofList (layoutInner body.toList)) = layoutBody body := by
      simp [layoutBody, layoutInner_layoutInner]
    simp only [printFunc, FuncDecl.laidOut, Option.map_some, hbody]

/-- **A file is printed like the file with all bodies laid out.** -/
theorem print_laidOut (file : SourceFile) : file.laidOut.print = file.print := by
  have hdecl : ∀ d : Decl, printDecl d.laidOut = printDecl d := by
    intro d
    cases d with
    | func decl => exact printFunc_laidOut decl
    | const | var | type => rfl
  simp [SourceFile.print, printBlocks, SourceFile.laidOut, Function.comp_def, hdecl]

/-! ## What is kept of such files -/

/-- What is kept when bodies are laid out. -/
def Extract.laidOut : Extract → Extract
  | .body text => .body (String.ofList (layoutInner text.toList))
  | .reference package => .reference package
  | .length text => .length text
  | .unsupported text => .unsupported text
  | .value text => .value text

/-- **Laying out bodies changes nothing that is kept but the bodies.** -/
theorem extracts_laidOut (file : SourceFile) :
    file.laidOut.extracts = file.extracts.map Extract.laidOut := by
  have hleaves : ∀ ls : List Leaf, (leafExtracts ls).map Extract.laidOut = leafExtracts ls := by
    intro ls
    refine (List.map_congr_left fun e he => ?_).trans (List.map_id _)
    obtain ⟨l, -, hl⟩ := List.mem_filterMap.1 he
    cases l <;> cases hl <;> rfl
  have hvalues : ∀ spec : ValueSpec, spec.extracts.map Extract.laidOut = spec.extracts := by
    intro spec
    rw [ValueSpec.extracts, List.map_append, hleaves, List.map_map]
    rfl
  -- Only functions have a body, and of what is kept of them the body is the last.
  have hdecl : ∀ d : Decl, d.laidOut.extracts = d.extracts.map Extract.laidOut := by
    intro d
    cases d with
    | const specs | var specs =>
      show specs.flatMap ValueSpec.extracts = (specs.flatMap ValueSpec.extracts).map _
      rw [List.map_flatMap]
      exact List.flatMap_congr fun spec _ => (hvalues spec).symm
    | type specs =>
      show (specs.flatMap fun spec => leafExtracts spec.leaves) =
        (specs.flatMap fun spec => leafExtracts spec.leaves).map _
      rw [List.map_flatMap]
      exact List.flatMap_congr fun spec _ => (hleaves spec.leaves).symm
    | func decl =>
      obtain ⟨receiver, name, signature, body⟩ := decl
      rw [Decl.laidOut, Decl.extracts, Decl.extracts, FuncDecl.extracts, FuncDecl.extracts,
        List.map_append, hleaves]
      cases body <;> rfl
  rw [SourceFile.extracts, SourceFile.extracts, SourceFile.laidOut, List.flatMap_map,
    List.map_flatMap]
  exact List.flatMap_congr fun d _ => hdecl d

/-- **The leaves of a declaration can be read back** if it can be printed. -/
theorem Decl.WellFormed.leaves {d : Decl} (h : d.WellFormed) : AllLeaves Leaf.Reads d.leaves := by
  have hspecs : ∀ {specs : List ValueSpec}, (∀ spec ∈ specs, IsValueSpec spec) →
      AllLeaves Leaf.Reads (specs.flatMap ValueSpec.leaves) := by
    intro specs h l hl
    obtain ⟨spec, hs, hl⟩ := List.mem_flatMap.1 hl
    rcases List.mem_append.1 hl with hl | hl
    · obtain ⟨n, hn, rfl⟩ := List.mem_map.1 hl
      exact Or.inr ((h spec hs).names n hn)
    · obtain ⟨t, ht, hl⟩ := List.mem_flatMap.1 hl
      exact ((h spec hs).type t (Option.mem_toList.1 ht)).leaves id l hl
  cases d with
  | const specs | var specs => exact hspecs h
  | type specs =>
    intro l hl
    obtain ⟨spec, hs, hl⟩ := List.mem_flatMap.1 hl
    have hspec : IsTypeSpec spec := h spec hs
    have hall : AllLeaves Leaf.Reads spec.leaves := AllLeaves.cons hspec.name
      ((IsTypeParam.leaves id hspec.params).append (hspec.type.leaves id))
    exact hall l hl
  | func decl =>
    obtain ⟨receiver, name, ⟨typeParams, params, results⟩, body⟩ := decl
    obtain ⟨hr, hn, hp, hs, -⟩ : IsFuncDecl _ := h
    have hreceiver : AllLeaves Leaf.Reads (resultsLeaves receiver) := by
      cases receiver with
      | none => exact allLeaves_nil
      | some fs => exact (hr fs rfl).leaves id
    have hsignature := (hs.mono fun _ ht => ht.leaves id).leaves
    rw [Signature.leaves, fieldsLeaves, List.nil_append] at hsignature
    refine AllLeaves.cons hn (hreceiver.append ?_)
    rw [Signature.leaves, List.append_assoc]
    exact (IsTypeParam.leaves id hp).append hsignature

end Understudy.Source

namespace Understudy.Stub

open Source Files

/-! ## The order of imports -/

section Order

variable {a b c : Import}

theorem importLe_total (a b : Import) : (importLe a b || importLe b a) = true := by
  unfold importLe
  grind

theorem importLe_trans (hab : importLe a b = true) (hbc : importLe b c = true) :
    importLe a c = true := by
  unfold importLe at *
  grind

end Order

theorem mem_tidyImports {used : List String} {imports : List Import} {i : Import} :
    i ∈ tidyImports used imports ↔ i ∈ imports ∧ isUsed used i = true := by
  rw [tidyImports, List.mem_mergeSort, List.mem_eraseDups, List.mem_filter]

/-- Imports that are tidied stay as they are while all of them are used. -/
theorem tidyImports_tidy {used used' : List String} {imports : List Import} :
    tidyImports used' (tidyImports used imports) = tidyImports used imports ↔
      ∀ i ∈ tidyImports used imports, isUsed used' i = true := by
  refine ⟨fun h i hi => ?_, fun h => ?_⟩
  · rw [← h] at hi
    exact (mem_tidyImports.1 hi).2
  · rw [tidyImports, List.filter_eq_self.2 h]
    exact inOrder_inOrder (fun _ _ _ => importLe_trans) importLe_total

/-! ## Formatted texts -/

/-- The file that is printed when a file is formatted. -/
def formatted (used : List String) (file : SourceFile) : SourceFile :=
  { file.laidOut with imports := tidyImports used file.imports, isGenerated := false }

theorem laidOut_formatted (used : List String) (file : SourceFile) :
    (formatted used file).laidOut = formatted used file := by
  have hdecls := congrArg SourceFile.decls file.laidOut_laidOut
  simp only [formatted, SourceFile.laidOut] at hdecls ⊢
  rw [hdecls]

theorem formatStub_eq {text : String} {file : SourceFile} {ts : List Token}
    (hp : SourceFile.parse text = .ok file) (ht : tokenize text = .ok ts) :
    formatStub text = .ok (formatted (qualifiers ts) file).print := by
  have hread : readStub text = .ok (file, qualifiers ts) := by
    rw [readStub, hp, ht]
    rfl
  have hprint := print_laidOut { file with imports := tidyImports (qualifiers ts) file.imports }
  rw [formatStub, hread]
  exact congrArg Except.ok hprint.symm

theorem formatStub_eq_ok {s t : String} {file : SourceFile}
    (hs : SourceFile.parse s = .ok file) (ht : formatStub s = .ok t) :
    ∃ ts, tokenize s = .ok ts ∧ t = (formatted (qualifiers ts) file).print := by
  obtain ⟨xs, htokens, -⟩ := parse_segments hs
  rw [formatStub_eq hs htokens] at ht
  exact ⟨_, htokens, (Except.ok.inj ht).symm⟩

theorem formatAt_eq_ok_iff {path : DiskPath} {s t : String} :
    formatAt path s = .ok t ↔ formatStub s = .ok t := by
  unfold formatAt
  cases formatStub s <;> simp [Except.mapError]

section Formatted

variable {used : List String} {file : SourceFile}

section Kept

variable {e : Extract}

/-- What is kept of a file that is parsed, with bodies laid out: the names in it are the same, and so
is whether it can be read. -/
theorem extract_laidOut {s : String} (hs : SourceFile.parse s = .ok file) (he : e ∈ file.extracts) :
    extractNames e.laidOut = extractNames e ∧ (MentionsImport e.laidOut ↔ MentionsImport e) := by
  cases e with
  | reference | length | unsupported | value => exact ⟨rfl, Iff.rfl⟩
  | body text =>
    obtain ⟨ls, hls, hspell⟩ := parse_bodies hs he
    have hsound : Sound (lexemes text.toList) := by
      rw [hspell, hls.lexemes_eq]
      exact hls
    rw [Extract.laidOut, extractNames, extractNames, MentionsImport, MentionsImport,
      String.toList_ofList, lexemeNames_layoutInner hsound, tokenKinds_layoutInner hsound]
    exact ⟨rfl, Iff.rfl⟩

/-- What is kept of a file that can be printed can be read back. -/
theorem readable_of_wellFormed (hw : file.WellFormed) : ∀ e ∈ file.extracts, IsReadable e := by
  have hleaves : ∀ {ls : List Leaf}, AllLeaves Leaf.Reads ls →
      ∀ e ∈ leafExtracts ls, IsReadable e := by
    intro ls h e he
    obtain ⟨l, hl, hkept⟩ := List.mem_filterMap.1 he
    have hreads := h l hl
    cases l with
    | name | arity | entry => cases hkept
    | qualifier package =>
      cases hkept
      trivial
    | length text =>
      cases hkept
      exact Leaf.Reads.lexes (l := .length text) (hreads.resolve_left nofun)
    | unsupported text => exact (hreads.resolve_left nofun).elim
  -- Initializers and bodies can always be read back, so only leaves are left.
  intro e he
  obtain ⟨d, hd, he⟩ := List.mem_flatMap.1 he
  have hd := (hw.decls d hd).leaves
  cases d with
  | const specs | var specs =>
    obtain ⟨spec, hs, he⟩ := List.mem_flatMap.1 he
    rcases List.mem_append.1 he with he | he
    · exact hleaves (fun l hl => hd l (List.mem_flatMap.2 ⟨spec, hs, hl⟩)) e he
    · obtain ⟨v, -, rfl⟩ := List.mem_map.1 he
      trivial
  | type specs =>
    obtain ⟨spec, hs, he⟩ := List.mem_flatMap.1 he
    exact hleaves (fun l hl => hd l (List.mem_flatMap.2 ⟨spec, hs, hl⟩)) e he
  | func decl =>
    rcases List.mem_append.1 he with he | he
    · exact hleaves hd e he
    · obtain ⟨b, -, rfl⟩ := List.mem_map.1 he
      trivial

end Kept

variable (hw : file.laidOut.WellFormed)
include hw

theorem wellFormed_formatted : (formatted used file).WellFormed where
  package := hw.package
  imports i hi := hw.imports i (mem_tidyImports.1 hi).1
  decls := hw.decls

/-- A formatted file is read back. -/
theorem parse_formatted :
    SourceFile.parse (formatted used file).print = .ok (formatted used file) :=
  parse_print (wellFormed_formatted hw) rfl

variable {s t : String} (hs : SourceFile.parse s = .ok file) (ht : formatStub s = .ok t)
include hs ht

/-- **Formatting a text again changes nothing as long as no import has come out of use.** -/
theorem formatStub_again_iff : formatStub t = .ok t ↔ unusedImports t = [] := by
  obtain ⟨ts, -, rfl⟩ := formatStub_eq_ok hs ht
  generalize qualifiers ts = used
  have hparse : SourceFile.parse (formatted used file).print = .ok (formatted used file) :=
    parse_formatted hw
  obtain ⟨xs, hus, -⟩ := parse_segments hparse
  generalize Segment.allTokens xs = us at hus
  have hunused : unusedImports (formatted used file).print = [] ↔
      ∀ i ∈ tidyImports used file.imports, isUsed (qualifiers us) i = true := by
    rw [unusedImports, readStub, hparse, hus]
    simp [bind, Except.bind, pure, Except.pure, List.filter_eq_nil_iff, formatted]
  have htwice : formatted (qualifiers us) (formatted used file) = { formatted used file with
      imports := tidyImports (qualifiers us) (tidyImports used file.imports) } := by
    rw [formatted, laidOut_formatted]
    rfl
  rw [formatStub_eq hparse hus, hunused, ← tidyImports_tidy, Except.ok.injEq]
  refine ⟨fun heq => ?_, fun himports => ?_⟩
  · -- Both texts are read back, so the files are the same.
    have hagain : SourceFile.parse (formatted (qualifiers us) (formatted used file)).print =
        .ok (formatted (qualifiers us) (formatted used file)) := by
      refine parse_formatted ?_
      rw [laidOut_formatted]
      exact wellFormed_formatted hw
    rw [heq, hparse, htwice] at hagain
    exact (congrArg SourceFile.imports (Except.ok.inj hagain)).symm
  · rw [htwice, himports]
    rfl

/-- **A formatted text refers to the same packages.** -/
theorem qualifiers_formatted (hno : ∀ e ∈ file.extracts, ¬ MentionsImport e) {ts us : List Token}
    (hts : tokenize s = .ok ts) (hus : tokenize t = .ok us) : qualifiers us = qualifiers ts := by
  obtain ⟨ts', hts', rfl⟩ := formatStub_eq_ok hs ht
  rw [hts] at hts'
  obtain rfl := Except.ok.inj hts'
  have hlaidOut := extracts_laidOut file
  have hreads := readable_of_wellFormed hw
  rw [hlaidOut] at hreads
  have hold : ∀ e ∈ file.extracts, IsReadable e := by
    intro e he
    have hread := hreads _ (List.mem_map_of_mem he)
    cases e with
    | body => trivial
    | reference | length | unsupported | value => exact hread
  have hnew : ∀ e ∈ file.laidOut.extracts, ¬ MentionsImport e := by
    rw [hlaidOut]
    refine List.forall_mem_map.2 fun e he hm => hno e he ?_
    exact (extract_laidOut hs he).2.1 hm
  have hfile : (formatted (qualifiers ts) file).extracts = file.laidOut.extracts := rfl
  rw [qualifiers_eq hs hts hold hno, qualifiers_eq (parse_formatted hw) hus
    (by rw [hfile, hlaidOut]; exact hreads) (by rw [hfile]; exact hnew), hfile, hlaidOut,
    List.flatMap_map]
  exact List.flatMap_congr fun e he => (extract_laidOut hs he).1

/-- So no import comes out of use. -/
theorem unusedImports_again (hno : ∀ e ∈ file.extracts, ¬ MentionsImport e) :
    unusedImports t = [] := by
  obtain ⟨ts, hts, heq⟩ := formatStub_eq_ok hs ht
  have hparse : SourceFile.parse t = .ok (formatted (qualifiers ts) file) := by
    rw [heq]
    exact parse_formatted hw
  obtain ⟨xs, hus, -⟩ := parse_segments hparse
  rw [unusedImports, readStub, hparse, hus]
  refine List.filter_eq_nil_iff.2 fun i hi => ?_
  rw [qualifiers_formatted hw hs ht hno hts hus, (mem_tidyImports.1 hi).2]
  simp

end Formatted

/-- **The formatter is idempotent** on a text that can be read back when it is printed, if the keyword
of imports is no token of a text that is kept. -/
theorem formatAt_formatAt {path : DiskPath} {s t : String} {file : SourceFile}
    (hs : SourceFile.parse s = .ok file) (hw : file.laidOut.WellFormed)
    (hno : ∀ e ∈ file.extracts, ¬ MentionsImport e) (ht : formatAt path s = .ok t) :
    formatAt path t = .ok t := by
  rw [formatAt_eq_ok_iff] at ht ⊢
  exact (formatStub_again_iff hw hs ht).2 (unusedImports_again hw hs ht hno)

/-- A file with an import that the body of a function refers to. -/
def importingFile : SourceFile where
  package := "p"
  imports := [⟨none, "x.io/z"⟩]
  decls := [.func ⟨none, "F", .mk [] [] none, some "\n  z.G()\n"⟩]
  isGenerated := false

theorem importingFile_wellFormed : importingFile.laidOut.WellFormed := by
  have hname : ∀ s ∈ ["p", "F"], IsToken .ident s := by decide +kernel
  refine ⟨hname "p" (by decide), List.forall_mem_singleton.2 ⟨by simp, ?_⟩,
    List.forall_mem_singleton.2 ⟨nofun, hname "F" (by decide), List.forall_mem_nil _, ?_, ?_⟩⟩
  · simp [IsPlain]
  · exact .plain (Or.inl (List.forall_mem_nil _)) (List.forall_mem_nil _) (List.forall_mem_nil _)
  · intro b hb
    cases hb
    refine ⟨by decide +kernel, by decide +kernel, ?_⟩
    unfold Source.Balanced
    decide +kernel

/-- The body is laid out, and the import that only the body uses is kept both times. -/
theorem formatAt_formatAt_sample :
    formatAt ⟨"p.go"⟩ "package p\nimport \"x.io/z\"\nfunc F() \x7b\n  z.G()\n\x7d\n" =
        .ok "package p\n\nimport \"x.io/z\"\n\nfunc F() \x7b\n\tz.G()\n\x7d\n" ∧
      formatAt ⟨"p.go"⟩ "package p\n\nimport \"x.io/z\"\n\nfunc F() \x7b\n\tz.G()\n\x7d\n" =
        .ok "package p\n\nimport \"x.io/z\"\n\nfunc F() \x7b\n\tz.G()\n\x7d\n" := by
  have hparse : SourceFile.parse
      "package p\nimport \"x.io/z\"\nfunc F() \x7b\n  z.G()\n\x7d\n" = .ok importingFile := by
    cbv
  have hno : ∀ e ∈ importingFile.extracts, ¬ MentionsImport e :=
    List.forall_mem_singleton.2 (by decide +kernel)
  have hread : ∀ e ∈ importingFile.extracts, IsReadable e := List.forall_mem_singleton.2 trivial
  have hnames : importingFile.extracts.flatMap extractNames = ["z"] := by decide +kernel
  have hz : Import.boundName? ⟨none, "x.io/z"⟩ = some "z" := by decide +kernel
  have hformat : formatAt ⟨"p.go"⟩
      "package p\nimport \"x.io/z\"\nfunc F() \x7b\n  z.G()\n\x7d\n" =
      .ok "package p\n\nimport \"x.io/z\"\n\nfunc F() \x7b\n\tz.G()\n\x7d\n" := by
    obtain ⟨xs, htokens, -⟩ := parse_segments hparse
    have hused : isUsed ["z"] ⟨none, "x.io/z"⟩ = true := by
      rw [isUsed, hz]
      rfl
    have htidy : tidyImports ["z"] importingFile.imports = [⟨none, "x.io/z"⟩] := by
      rw [tidyImports, importingFile, List.filter_cons_of_pos hused, List.filter_nil,
        eraseDups_of_nodup (by simp), List.mergeSort_singleton]
    rw [formatAt, formatStub_eq hparse htokens, qualifiers_eq hparse htokens hread hno, hnames,
      formatted, htidy]
    rfl
  exact ⟨hformat, formatAt_formatAt hparse importingFile_wellFormed hno hformat⟩

/-- The lines of a string in a group of constants are indented once more each time. -/
theorem formatAt_indents :
    formatAt ⟨"p.go"⟩ "package p\nconst (\n\ta = `x\ny`\n\tb = 1\n)\n" =
        .ok "package p\n\nconst (\n\ta = `x\n\ty`\n\tb = 1\n)\n" ∧
      formatAt ⟨"p.go"⟩ "package p\n\nconst (\n\ta = `x\n\ty`\n\tb = 1\n)\n" =
        .ok "package p\n\nconst (\n\ta = `x\n\t\ty`\n\tb = 1\n)\n" := by
  constructor <;> cbv

end Understudy.Stub

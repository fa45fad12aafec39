import Understudy.Proofs.FileReading

/-!
# The shape of files

What `IsType` says about a type, for the declarations around it: names, types and literals stand
where they can be written. `SourceFile.Fits ok` is what the parser guarantees and what stubs are
made from; `ok` says what may stand at the leaves.

> **A file fits every other condition that its leaves satisfy** (`SourceFile.Fits.mono`).
-/

set_option autoImplicit false

namespace Understudy.Source

open Understudy.Source.Parser

/-! ## Literals -/

/-- The lexemes of a basic literal, or of a number with a sign. -/
inductive LiteralLexemes : List Lexeme → Prop
  | basic {k : Kind} {text : List Char} : k.isLiteral = true → LiteralLexemes [.token k text]
  | signed {k : Kind} {text number : List Char} {gap : List Lexeme} : k = .plus ∨ k = .minus →
      (∀ l ∈ gap, l.isLayout = true) →
      LiteralLexemes (.token k text :: (gap ++ [.token .number number]))

/-- Whether an initializer, if it is a literal, can be written anywhere. -/
def Initializer.Fits (value : Initializer) : Prop :=
  value.isLiteral = true →
    ∃ ls, LiteralLexemes ls ∧ Sound ls ∧ value.text.toList = spellLexemes ls

/-- The lexemes of an initializer where a blank stands behind it. -/
def Initializer.lexemes (value : Initializer) : List Lexeme :=
  (Source.lexemes (value.text.toList ++ [' '])).dropLast

theorem Initializer.Fits.lexemes {value : Initializer} (h : value.Fits)
    (hl : value.isLiteral = true) :
    LiteralLexemes value.lexemes ∧ Sound value.lexemes ∧
      value.text.toList = spellLexemes value.lexemes := by
  obtain ⟨ls, hls, hs, htext⟩ := h hl
  have hlex : Source.lexemes (spellLexemes ls ++ [' ']) = ls ++ [.layout [' ']] := by
    have hblank : next ' ' [] = (.layout [' '], []) := rfl
    rw [lexemes_spell_append (hs.stand (by decide) []), Source.lexemes, hblank, lexemes_nil]
  have heq : value.lexemes = ls := by
    rw [Initializer.lexemes, htext, hlex, List.dropLast_concat]
  rw [heq]
  exact ⟨hls, hs, htext⟩

/-- **A literal is read back as it is written.** Layout between a sign and its number can have line
ends in it, since no statement ends behind a sign. -/
theorem LiteralLexemes.writesValue {ls : List Lexeme} (h : LiteralLexemes ls)
    (hg : ∀ l ∈ ls, l.isBad = false) :
    WritesValue ls { text := String.ofList (spellLexemes ls), isLiteral := true } := by
  cases h with
  | @basic k text hk =>
    have hkind : k.opens = false ∧ k.closes = false ∧ k ∉ [Kind.comma, .semi] ∧
        k.endsStatement = true := by
      cases k <;> first | exact absurd hk (by decide) | decide
    obtain ⟨ho, hc, htop, hends⟩ := hkind
    have hv := writesValue_line ⟨k, text, [], rfl⟩ hg
      (balanced_nil.token ho hc text) (by simpa [topKinds, ho, hc] using htop) (by simp)
      (endsLine_token hends text)
    simpa [tokenKinds, isLiteralKinds, hk] using hv
  -- The gap behind the sign has no token, since a sign ends no statement.
  | @signed k text number gap hk hgap =>
    have hends : EndsLine (.token k text :: (gap ++ [.token .number number])) :=
      ((endsLine_token rfl _).append _).cons _
    refine ⟨⟨_, _, _, rfl⟩, fun s u rest hu => ?_, hends⟩
    have hsign : k.endsStatement = false ∧ k.opens = false ∧ k.closes = false ∧
        k ≠ .comma ∧ k ≠ .semi := by
      rcases hk with rfl | rfl <;> decide
    obtain ⟨hpending, ho, hc, hcomma, hsemi⟩ := hsign
    have hspell := s.spell_tokens (fun l hl => hg l (List.mem_cons_of_mem _ hl)) (s.gap_after hends)
    have hin := (Scanner.tokens_indent (s := s.step (.token k text)) hpending hgap
      [.token .number number]).1
    rw [Scanner.tokens_token, hin, Scanner.tokens_token, Scanner.tokens_nil] at hspell
    rw [Scanner.tokens_token, hin, Scanner.tokens_token, Scanner.tokens_nil]
    generalize ht : ((s.step (.token k text)).after gap).token .number number = t at hspell
    have hnumber : t.kind = .number := by
      rw [← ht]
      rfl
    have hsplit : Token.splitBalanced [.comma, .semi] 0 (s.token k text :: t :: u :: rest) =
        ([s.token k text, t], u :: rest) := by
      rw [Token.splitBalanced.eq_def]
      simp only [Scanner.token_kind, ho, hc, Bool.false_eq_true, if_false]
      rw [Token.splitBalanced.eq_def]
      simp [hnumber, Kind.opens, Kind.closes, hcomma, hsemi, splitBalanced_stop hu]
    have hliteral : isLiteralRun [s.token k text, t] = true := by
      simpa [isLiteralRun_eq, isLiteralKinds, hnumber] using hk
    simp only [List.cons_append, List.nil_append, initializer, bind_apply, remaining_apply, hsplit,
      continueAt_apply, pure_apply, hspell, hliteral]

/-! ## Declarations -/

/-- An entry of a `const` or `var` declaration. -/
structure ValueSpec.Fits (ok : Leaf → Prop) (spec : ValueSpec) : Prop where
  names : ∀ n ∈ spec.names, ok (.name n)
  type : ∀ t ∈ spec.type, IsType ok true t
  values : ∀ v ∈ spec.values, v.Fits

/-- An entry of a `type` declaration. -/
structure TypeSpec.Fits (ok : Leaf → Prop) (spec : TypeSpec) : Prop where
  name : ok (.name spec.name)
  params : ∀ f ∈ spec.typeParams, IsTypeParam ok true f
  opens : OpensTypeParams spec.typeParams
  type : IsType ok true spec.type

/-- A function. -/
structure FuncDecl.Fits (ok : Leaf → Prop) (decl : FuncDecl) : Prop where
  receiver : ∀ fs ∈ decl.receiver, IsParams ok true fs
  name : ok (.name decl.name)
  typeParams : ∀ f ∈ decl.signature.typeParams, IsTypeParam ok true f
  signature : IsSignatureOf ok true (IsType ok true)
    (.mk [] decl.signature.params decl.signature.results)

/-- An import. -/
def Import.Fits (ok : Leaf → Prop) (i : Import) : Prop := ∀ n ∈ i.name, n = "." ∨ ok (.name n)

/-- A declaration. -/
def Decl.Fits (ok : Leaf → Prop) : Decl → Prop
  | .const specs | .var specs => ∀ spec ∈ specs, spec.Fits ok
  | .type specs => ∀ spec ∈ specs, spec.Fits ok
  | .func decl => decl.Fits ok

/-- A file. -/
structure SourceFile.Fits (ok : Leaf → Prop) (file : SourceFile) : Prop where
  package : ok (.name file.package)
  imports : ∀ i ∈ file.imports, i.Fits ok
  decls : ∀ d ∈ file.decls, d.Fits ok

/-! ## Leaves -/

/-- The leaves of an entry of a `const` or `var` declaration. -/
def ValueSpec.leaves (spec : ValueSpec) : List Leaf :=
  spec.names.map .name ++ spec.type.toList.flatMap TypeExpr.leaves

/-- The leaves of an entry of a `type` declaration. -/
def TypeSpec.leaves (spec : TypeSpec) : List Leaf :=
  .name spec.name :: (fieldsLeaves spec.typeParams ++ spec.type.leaves)

/-- The leaves of a function; its body is not looked into. -/
def FuncDecl.leaves (decl : FuncDecl) : List Leaf :=
  .name decl.name :: (resultsLeaves decl.receiver ++ decl.signature.leaves)

/-- The leaves of a declaration. -/
def Decl.leaves : Decl → List Leaf
  | .const specs | .var specs => specs.flatMap ValueSpec.leaves
  | .type specs => specs.flatMap TypeSpec.leaves
  | .func decl => decl.leaves

/-- The leaves of a file. -/
def SourceFile.leaves (file : SourceFile) : List Leaf :=
  .name file.package :: (file.imports.flatMap (fun i => i.name.toList.map .name) ++
    file.decls.flatMap Decl.leaves)

section Mono

variable {ok ok' : Leaf → Prop}

theorem IsTypeParam.mono {erased : Bool} {f : FieldGroup} (h : IsTypeParam ok erased f)
    (hl : ∀ l ∈ f.leaves, ok l → ok' l) : IsTypeParam ok' erased f where
  named := h.named
  names n hn := hl _ (List.mem_append_left _ (List.mem_map_of_mem hn)) (h.names n hn)
  constraint := (h.constraint.mono fun _ ht hl => ht.mono hl).transfer fun l hm =>
    hl l (List.mem_append_right _ hm)

theorem IsParams.mono {erased : Bool} {fs : List FieldGroup} (h : IsParams ok erased fs)
    (hl : ∀ l ∈ fieldsLeaves fs, ok l → ok' l) : IsParams ok' erased fs where
  uniform := h.uniform
  names := h.names.mono hl
  types := IsParamOf.transferAll (fun f hf => (h.types f hf).mono fun _ ht hl => ht.mono hl) hl

theorem ValueSpec.Fits.mono {spec : ValueSpec} (h : spec.Fits ok)
    (hl : ∀ l ∈ spec.leaves, ok l → ok' l) : spec.Fits ok' where
  names n hn := hl _ (List.mem_append_left _ (List.mem_map_of_mem hn)) (h.names n hn)
  type t ht := (h.type t ht).mono fun l hm =>
    hl l (List.mem_append_right _ (List.mem_flatMap.2 ⟨t, Option.mem_toList.2 ht, hm⟩))
  values := h.values

theorem TypeSpec.Fits.mono {spec : TypeSpec} (h : spec.Fits ok)
    (hl : ∀ l ∈ spec.leaves, ok l → ok' l) : spec.Fits ok' := by
  simp only [TypeSpec.leaves, List.mem_cons, List.mem_append] at hl
  refine ⟨hl _ (Or.inl rfl) h.name, fun f hf => (h.params f hf).mono fun l hm => ?_, h.opens,
    h.type.mono fun l hm => hl l (Or.inr (Or.inr hm))⟩
  exact hl l (Or.inr (Or.inl (mem_fieldsLeaves.2 ⟨f, hf, hm⟩)))

theorem FuncDecl.Fits.mono {decl : FuncDecl} (h : decl.Fits ok)
    (hl : ∀ l ∈ decl.leaves, ok l → ok' l) : decl.Fits ok' := by
  obtain ⟨receiver, name, ⟨typeParams, params, results⟩, body⟩ := decl
  simp only [FuncDecl.leaves, Signature.leaves, List.mem_cons, List.mem_append] at hl
  refine ⟨fun fs hfs => (h.receiver fs hfs).mono fun l hm => ?_, hl _ (Or.inl rfl) h.name,
    fun f hf => (h.typeParams f hf).mono fun l hm => ?_,
    (h.signature.mono fun _ ht hl => ht.mono hl).transfer fun l hm => ?_⟩
  · refine hl l (Or.inr (Or.inl ?_))
    cases hfs
    exact hm
  · exact hl l (Or.inr (Or.inr (Or.inl (Or.inl (mem_fieldsLeaves.2 ⟨f, hf, hm⟩)))))
  · simp only [Signature.leaves, fieldsLeaves, List.nil_append, List.mem_append] at hm
    rcases hm with hm | hm
    · exact hl l (Or.inr (Or.inr (Or.inl (Or.inr hm))))
    · exact hl l (Or.inr (Or.inr (Or.inr hm)))

theorem Decl.Fits.mono {d : Decl} (h : d.Fits ok) (hl : ∀ l ∈ d.leaves, ok l → ok' l) :
    d.Fits ok' := by
  cases d with
  | const specs | var specs | type specs =>
    exact fun spec hs => (h spec hs).mono fun l hm => hl l (List.mem_flatMap.2 ⟨spec, hs, hm⟩)
  | func decl => exact FuncDecl.Fits.mono h hl

/-- **A file fits every other condition that its leaves satisfy.** -/
theorem SourceFile.Fits.mono {file : SourceFile} (h : file.Fits ok)
    (hl : ∀ l ∈ file.leaves, ok l → ok' l) : file.Fits ok' := by
  simp only [SourceFile.leaves, List.mem_cons, List.mem_append] at hl
  refine ⟨hl _ (Or.inl rfl) h.package, fun i hi n hn => ?_, fun d hd => ?_⟩
  · refine (h.imports i hi n hn).imp_right (hl _ (Or.inr (Or.inl (List.mem_flatMap.2 ⟨i, hi, ?_⟩))))
    exact List.mem_map_of_mem (Option.mem_toList.2 hn)
  · exact (h.decls d hd).mono fun l hm =>
      hl l (Or.inr (Or.inr (List.mem_flatMap.2 ⟨d, hd, hm⟩)))

end Mono

section AllLeaves

variable {ok : Leaf → Prop} {erased : Bool} {fs : List FieldGroup} (he : ¬ ok .entry)
include he

theorem IsTypeParam.leaves (h : ∀ f ∈ fs, IsTypeParam ok erased f) :
    AllLeaves ok (fieldsLeaves fs) :=
  NamesOk.leaves (fun f hf => (h f hf).names) fun f hf =>
    ((h f hf).constraint.mono fun _ ht => ht.leaves he).leaves

theorem IsParams.leaves (h : IsParams ok erased fs) : AllLeaves ok (fieldsLeaves fs) :=
  h.names.leaves fun f hf => ((h.types f hf).mono fun _ ht => ht.leaves he).leaves

end AllLeaves

end Understudy.Source

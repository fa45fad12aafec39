import Understudy.Proofs.Erasure
import Understudy.Proofs.FileShape
import Understudy.Proofs.PrintedText
import Understudy.Stub.Package

/-!
# The text of stubs

A stub is made in three steps that the code does in one: something of a file is kept (`Kept`), its
types are erased (`Kept.erase`), and the result is written. The first step looks at no package
names, the second at no text, so each can be followed on its own.

> **The text of a stubbed declaration is spelled by the lexemes of what is kept of it**
> (`Kept.spells`).

What the lexemes are good for depends on what the leaves satisfy: they can be written one after the
other if names are words (`Kept.Fits.sound`), and they are read back as declarations if names are
not reserved and each length is read as one (`Kept.Fits.writes`).
-/

set_option autoImplicit false

namespace Understudy.Stub

open Source

/-! ## What is kept -/

/-- What a stub keeps of a declaration. -/
inductive Kept where
  | value (kind : ValueKind) (name : String) (type : Option TypeExpr)
      (value : Option Initializer)
  | type (spec : TypeSpec)
  | func (decl : FuncDecl)

/-- Whether a function can be stubbed: a receiver has to be one entry with one name. -/
def IsCallable (decl : FuncDecl) : Prop :=
  decl.receiver = none ∨ ∃ name type, decl.receiver = some [.mk [name] type]

namespace Kept

def Fits (ok : Leaf → Prop) : Kept → Prop
  | .value _ name ty init => ok (.name name) ∧ (∀ t ∈ ty, IsType ok true t) ∧
      ∀ v ∈ init, v.isLiteral = true ∧ v.Fits
  | .type spec => spec.Fits ok
  | .func decl => decl.Fits ok ∧ IsCallable decl

theorem Fits.imp {ok ok' : Leaf → Prop} (hl : ∀ l, ok l → ok' l) {k : Kept} (h : k.Fits ok) :
    k.Fits ok' := by
  cases k with
  | value kind name ty init => exact ⟨hl _ h.1, fun t ht => (h.2.1 t ht).mono fun l _ => hl l, h.2.2⟩
  | type spec => exact TypeSpec.Fits.mono h fun l _ => hl l
  | func decl => exact ⟨FuncDecl.Fits.mono h.1 fun l _ => hl l, h.2⟩

/-- What is kept, with only the references to the packages known under the names `kept`. A type
beside a literal is left out if it is erased as a whole. -/
def erase (kept : List String) : Kept → Kept
  | .value kind name ty none => .value kind name (ty.map (eraseType kept)) none
  | .value kind name ty (some v) =>
    .value kind name ((ty.filter fun t => !erases (.erasing kept) t).map (eraseType kept)) (some v)
  | .type spec => .type {
      name := spec.name
      typeParams := spec.typeParams.map (FieldGroup.mapType (eraseType kept))
      isAlias := spec.isAlias
      type := eraseType kept spec.type }
  | .func decl => .func {
      receiver := decl.receiver.map (List.map (FieldGroup.mapType (eraseType kept)))
      name := decl.name
      signature := eraseSignature kept decl.signature
      body := decl.body }

theorem Fits.erase {kept : List String} {ok ok' : Leaf → Prop} (ht : ErasesTo kept ok ok')
    {k : Kept} (h : k.Fits ok) : (k.erase kept).Fits ok' := by
  -- A value without an initializer keeps its type; beside an initializer an erased type is left out.
  cases k with
  | value kind name ty init =>
    obtain ⟨hn, htype, hv⟩ := h
    cases init with
    | none =>
      refine ⟨ht.name _ hn, fun t hm => ?_, by simp⟩
      obtain ⟨u, hu, rfl⟩ := Option.map_eq_some_iff.1 hm
      exact (htype u hu).erase ht
    | some v =>
      refine ⟨ht.name _ hn, fun t hm => ?_, hv⟩
      obtain ⟨u, hu, rfl⟩ := Option.map_eq_some_iff.1 hm
      exact (htype u (Option.filter_eq_some_iff.1 hu).1).erase ht
  | type spec =>
    refine ⟨ht.name _ h.name, fun f hf => ?_, h.opens.erase, h.type.erase ht⟩
    obtain ⟨g, hg, rfl⟩ := List.mem_map.1 hf
    exact (h.params g hg).erase ht
  | func decl =>
    obtain ⟨h, hc⟩ := h
    obtain ⟨receiver, name, ⟨typeParams, params, results⟩, body⟩ := decl
    refine ⟨⟨fun fs hm => ?_, ht.name _ h.name, fun f hf => ?_, ?_⟩, ?_⟩
    · obtain ⟨gs, hgs, rfl⟩ := Option.map_eq_some_iff.1 hm
      exact (h.receiver gs hgs).erase ht
    · have hf : f ∈ eraseFields kept typeParams := hf
      rw [eraseFields_eq] at hf
      obtain ⟨g, hg, rfl⟩ := List.mem_map.1 hf
      exact (h.typeParams g hg).erase ht
    · exact (h.signature.mono fun _ h => h.erase ht).erase ht
    · rcases hc with hc | ⟨n, t, hc⟩
      · have hc : receiver = none := hc
        exact Or.inl (by simp [hc])
      · have hc : receiver = some [.mk [n] t] := hc
        exact Or.inr ⟨n, eraseType kept t, by simp [hc, FieldGroup.mapType]⟩

/-! ## Lexemes -/

/-- What stands between the braces of a stubbed function. -/
def bodyInner : List Lexeme :=
  [.layout ['\n'], .ofWord "panic", .token .lparen ['('], quotedLexeme "stub",
    .token .rparen [')'], .layout ['\n']]

/-- Fields that are not aligned. -/
def unaligned (fields : List FieldGroup) : List (Nat × FieldGroup) := fields.map ((0, ·))

theorem unaligned_snd (fields : List FieldGroup) : (unaligned fields).map Prod.snd = fields := by
  simp [unaligned, Function.comp_def]

/-- The lexemes of what is kept, where `plain` gives those of a type, `declared` those of the type of
a type declaration, and `inner` stands between the braces of a function. -/
def written (erased : Bool) (plain declared : TypeExpr → List Lexeme) (inner : List Lexeme) :
    Kept → List Lexeme
  | .value kind name ty init => declLexemes kind.keyword (valueSpecLexemes [name] (ty.map plain)
      (init.toList.map Initializer.lexemes))
  | .type spec => declLexemes "type" (typeSpecLexemes erased spec.name spec.typeParams spec.isAlias
      (if spec.isAlias then plain spec.type else declared spec.type))
  | .func decl => funcLexemes erased decl.receiver decl.name decl.signature (some inner)

/-- The lexemes of a stubbed declaration. -/
def lexemes : Kept → List Lexeme :=
  written true (typeLexemes true) (declaredLexemes true unaligned []) bodyInner

/-- The declaration that is read from the lexemes. -/
def tree : Kept → Decl
  | .value .const name ty init => .const [⟨[name], ty, init.toList⟩]
  | .value .var name ty init => .var [⟨[name], ty, init.toList⟩]
  | .type spec => .type [spec]
  | .func decl =>
    .func { decl with body := some (String.ofList (spellLexemes bodyInner)) }

theorem balanced_bodyInner : Balanced bodyInner := rfl

/-- The call in a stubbed function can be written before a line end. -/
theorem sound_stubCall : Sound [.ofWord "panic", .token .lparen ['('], quotedLexeme "stub",
    .token .rparen [')']] := by
  have hplain : IsPlain "stub" := by
    simp [IsPlain]
  have hargs := ((free_quoted hplain).append (free_of_isFree (l := .token .rparen [')']) rfl)).cons
    (l := .token .lparen ['(']) rfl
  refine ⟨fun hd rest => ⟨word_stands (by decide) ?_, hargs.stand _⟩, ?_⟩
  · exact endsWord_cons.2 (by decide)
  · exact List.forall_mem_cons.2 ⟨rfl, hargs.good⟩

theorem sound_bodyInner : Sound bodyInner :=
  (sound_stubCall.newline.cons (l := .layout ['\n']) rfl).sound

section Sound

variable {erased : Bool} {plain declared : TypeExpr → List Lexeme} {inner : List Lexeme}

theorem Fits.sound_written (hplain : ∀ t, IsType Leaf.Lexes true t → Sound (plain t))
    (hdeclared : ∀ t, IsType Leaf.Lexes true t → Sound (declared t)) (hinner : Sound inner)
    {k : Kept} (h : k.Fits Leaf.Lexes) : Sound (k.written erased plain declared inner) := by
  cases k with
  | value kind name ty init =>
    obtain ⟨hn, htype, hv⟩ := h
    have hkeyword : isWord kind.keyword = true := by cases kind <;> decide
    refine sound_decl hkeyword (sound_valueSpec ?_ (fun ls hm => ?_) fun ls hm => ?_)
    · exact List.forall_mem_singleton.2 hn
    · obtain ⟨t, ht, rfl⟩ := Option.map_eq_some_iff.1 hm
      exact hplain t (htype t ht)
    · obtain ⟨v, hmem, rfl⟩ := List.mem_map.1 hm
      obtain ⟨hl, hf⟩ := hv v (Option.mem_toList.1 hmem)
      exact (hf.lexemes hl).2.1
  | type spec =>
    refine sound_decl (by decide) (sound_typeSpec h.name h.params ?_)
    split
    · exact hplain _ h.type
    · exact hdeclared _ h.type
  | func decl =>
    obtain ⟨h, -⟩ := h
    refine sound_func h.receiver h.name h.typeParams h.signature fun ls hm => ?_
    cases hm
    exact hinner

end Sound

theorem Fits.sound {k : Kept} (h : k.Fits Leaf.Lexes) : Sound k.lexemes :=
  h.sound_written (fun _ ht => ht.sound) (fun _ ht => ht.declared_sound unaligned_snd free_nil)
    sound_bodyInner

theorem writes_types {ty : Option TypeExpr} (h : ∀ t ∈ ty, IsType Leaf.ReadsBack true t) :
    ∀ p ∈ ty.map fun t => (typeLexemes true t, t), Writes p.1 p.2 := by
  intro p hp
  obtain ⟨t, ht, rfl⟩ := Option.map_eq_some_iff.1 hp
  exact (h t ht).writes

theorem writes_values {init : Option Initializer}
    (h : ∀ v ∈ init, v.isLiteral = true ∧ v.Fits) :
    ∀ p ∈ init.toList.map fun v => (v.lexemes, v), WritesValue p.1 p.2 := by
  intro p hp
  obtain ⟨v, hm, rfl⟩ := List.mem_map.1 hp
  obtain ⟨hl, hf⟩ := h v (Option.mem_toList.1 hm)
  obtain ⟨hliteral, hsound, htext⟩ := hf.lexemes hl
  have hw := hliteral.writesValue hsound.good
  rw [← htext, String.ofList_toList] at hw
  obtain ⟨text, isLiteral⟩ := v
  cases hl
  exact hw

/-- **A stubbed declaration is read back.** -/
theorem Fits.writes {k : Kept} (h : k.Fits Leaf.ReadsBack) : WritesItem k.lexemes (.decl k.tree) := by
  cases k with
  | value kind name ty init =>
    obtain ⟨hn, htype, hv⟩ := h
    have hspec : SpecReads valueSpec (valueSpecLexemes [name] (ty.map (typeLexemes true))
        (init.toList.map Initializer.lexemes)) ⟨[name], ty, init.toList⟩ := by
      have hr := valueSpec_reads (by simp) (List.forall_mem_singleton.2 hn)
        (writes_types htype) (writes_values hv)
      simpa [Function.comp_def] using hr
    cases kind with
    | const => exact writesItem_const (fun s u rest hu => group_single s rest hspec hu) hspec.ends
    | var => exact writesItem_var (fun s u rest hu => group_single s rest hspec hu) hspec.ends
  | type spec =>
    have hwrites : Writes (if spec.isAlias then typeLexemes true spec.type
        else declaredLexemes true unaligned [] spec.type) spec.type := by
      split
      · exact h.type.writes
      · exact h.type.declared_writes unaligned_snd (by simp)
    have hspec : SpecReads typeSpec (typeSpecLexemes true spec.name spec.typeParams spec.isAlias _)
        spec := typeSpec_reads h.name h.params h.opens hwrites
    exact writesItem_type (fun s u rest hu => group_single s rest hspec hu) hspec.ends
  | func decl =>
    obtain ⟨h, -⟩ := h
    refine writesItem_func h.receiver h.name h.typeParams h.signature ?_ ?_
    · intro ls hm
      cases hm
      exact balanced_bodyInner
    · intro ls hm
      cases hm
      exact sound_bodyInner.good

/-! ## Spelling -/

/-- The receiver of a function that can be stubbed. -/
def receiverOf (decl : FuncDecl) : Option Receiver :=
  match decl.receiver with
  | some [.mk [name] ty] => some { name, type := ty }
  | _ => none

/-- The stub of what is kept. -/
def stub (ctx : Context) : Kept → StubDecl
  | .value kind name ty none => .value kind name (ty.map (renderType ctx.fidelity)) none
  | .value kind name ty (some v) => .value kind name
      ((ty.filter fun t => !erases ctx.fidelity t).map (renderType ctx.fidelity)) (some v.text)
  | .type spec => stubType ctx spec
  | .func decl => stubFuncOn ctx decl (receiverOf decl)

section Spells

variable {kept : List String}

theorem spell_erasedTypeParams {fs : List FieldGroup}
    (h : ∀ f ∈ fs, IsTypeParam Leaf.Erases true f) :
    spellLexemes (typeParamsLexemes true (fs.map (FieldGroup.mapType (eraseType kept)))) =
      (renderTypeParams (.erasing kept) fs).toList := by
  have hs := spell_fields (f := .erasing kept) spell_commaBlank
    fun f hf => (h f hf).constraint.spelled
  unfold typeParamsLexemes renderTypeParams
  cases fs with
  | nil => rfl
  | cons f fs =>
    rw [if_neg (by simp), if_neg (by simp), spellLexemes_cons, spellLexemes_append]
    rw [show Fidelity.isErasing (.erasing kept) = true from rfl] at hs
    rw [hs]
    simp [renderParams]

/-- A block is spelled line by line. -/
theorem spell_blockLines {α : Type} {keyword : String} {lines : List String} (hne : lines ≠ [])
    {g : α → List Lexeme} {xs : List α}
    (h : xs.map (fun x => spellLexemes (g x)) = lines.map String.toList) :
    (block keyword lines).toList = spellLexemes (blockLexemes [] keyword g xs) := by
  have hjoin : (String.join (lines.map fun l => "\t" ++ l ++ "\n")).toList =
      joinLines ((lines.map String.toList).map ('\t' :: ·)) := by
    clear h hne
    induction lines with
    | nil => rfl
    | cons l lines ih =>
      rw [List.map_cons, String.join_cons, String.toList_append, ih]
      simp [joinLines]
  rw [spell_block, block, if_neg (by simpa using hne), String.toList_append, String.toList_append,
    hjoin, ← h]
  simp [joinLines, Function.comp_def]

theorem eq_struct_of_erase {t : TypeExpr} {fs : List FieldGroup}
    (h : eraseType kept t = .struct fs) : ∃ gs, t = .struct gs := by
  cases t with
  | struct gs => exact ⟨gs, rfl⟩
  | qualified package name | pointer elem | instantiated base args =>
    simp only [eraseType] at h
    split at h <;> cases h
  | _ => cases h

theorem eq_interface_of_erase {t : TypeExpr} {e : InterfaceElem} {es : List InterfaceElem}
    (h : eraseType kept t = .interface (e :: es)) : ∃ ds, t = .interface ds := by
  cases t with
  | interface ds => exact ⟨ds, rfl⟩
  | qualified package name | pointer elem | instantiated base args =>
    simp only [eraseType] at h
    split at h <;> cases h
  | _ => cases h

theorem spell_declared {t : TypeExpr} (h : IsType Leaf.Erases true t) :
    (declaredType (.erasing kept) t).toList =
      spellLexemes (declaredLexemes true unaligned [] (eraseType kept t)) := by
  -- A struct or interface is written over several lines, unless nothing of it is left.
  fun_cases declaredType (.erasing kept) t with
  | case1 fields =>
    cases h with
    | struct hn hf =>
      have hs := spell_structLines kept false fun f hm => ⟨hf f hm, (hf f hm).spelled_erase⟩
      cases fields with
      | nil => simp [structLines, block, eraseType, eraseStruct, declaredLexemes, typeLexemes]
      | cons f fs =>
        rw [eraseType]
        cases he : eraseStruct kept false (f :: fs) with
        | nil => exact absurd he (eraseStruct_ne_nil f fs)
        | cons g gs =>
          rw [he, fieldsLexemes_eq] at hs
          rw [declaredLexemes]
          refine spell_blockLines (fun hnil => by simp [hnil] at hs) ?_
          rw [← hs]
          simp [unaligned, alignedLexemes, paddedLexemes_one, Function.comp_def]
  | case2 elems =>
    cases h with
    | interface he =>
      have hs := spell_interfaceLines kept fun d hd => (he d hd).mono fun _ h => h.spelled_erase
      rw [elemsLexemes_eq] at hs
      rw [eraseType]
      cases he : eraseElems kept elems with
      | nil =>
        rw [he, List.map_nil, List.map_nil] at hs
        rw [List.map_eq_nil_iff.1 hs.symm]
        simp [block, declaredLexemes, typeLexemes]
      | cons d ds =>
        rw [he] at hs
        rw [declaredLexemes]
        refine spell_blockLines (fun hnil => by simp [hnil] at hs) ?_
        rw [← hs, List.map_map]
        rfl
  | case3 t hs hi =>
    have hspell : ErasedAs kept t := h.spelled_erase
    obtain ⟨f, fs, he⟩ | ⟨d, ds, he⟩ | hl := declared_cases true unaligned (eraseType kept t)
    · obtain ⟨gs, rfl⟩ := eq_struct_of_erase he
      exact absurd rfl (hs gs)
    · obtain ⟨es, rfl⟩ := eq_interface_of_erase he
      exact absurd rfl (hi es)
    · rw [hl]
      exact hspell.symm

theorem spell_receiver {decl : FuncDecl} (h : decl.Fits Leaf.Erases) (hc : IsCallable decl) :
    spellLexemes (receiverLexemes true
      (decl.receiver.map (List.map (FieldGroup.mapType (eraseType kept))))) =
      (match receiverOf decl with
        | some r => "(" ++ r.name ++ " " ++ renderType (.erasing kept) r.type ++ ") "
        | none => "").toList := by
  rcases hc with hc | ⟨n, t, hc⟩
  · rw [receiverOf, hc]
    rfl
  · have hp := (h.receiver _ hc).types (.mk [n] t) List.mem_cons_self
    have hs : ErasedAs kept t := (hp.mono fun _ h => h.spelled_erase).spelled
    rw [ErasedAs] at hs
    rw [receiverOf, hc]
    simp [receiverLexemes, FieldGroup.mapType, fieldsLexemes, fieldLexemes, namesLexemes, hs]

theorem spell_typeText {ty : Option TypeExpr} (hs : ∀ t ∈ ty, ErasedAs kept t) :
    spellLexemes ((((ty.map (eraseType kept)).map (typeLexemes true)).map
      (.layout [' '] :: ·)).getD []) =
      (((ty.map (renderType (.erasing kept))).map (" " ++ ·)).getD "").toList := by
  cases ty with
  | none => rfl
  | some t =>
    have ht : ErasedAs kept t := hs t rfl
    rw [ErasedAs] at ht
    simp [ht]

theorem spells_value {ctx : Context} {kind : ValueKind} {name : String} {ty : Option TypeExpr}
    {init : Option Initializer} (h : (Kept.value kind name ty init).Fits Leaf.Erases) :
    ((Kept.value kind name ty init).stub ctx).render.toList =
      spellLexemes (((Kept.value kind name ty init).erase ctx.kept).lexemes ++ newlines 1) := by
  obtain ⟨-, htype, hv⟩ := h
  have hs : ∀ t ∈ ty, ErasedAs ctx.kept t := fun t ht => (htype t ht).spelled_erase
  cases init with
  | none =>
    have ht := spell_typeText hs
    simp only [stub, StubDecl.render, erase, lexemes, written, declLexemes, valueSpecLexemes,
      namesLexemes_singleton, spellLexemes_append, spellLexemes_cons, ht, Context.fidelity,
      String.toList_append]
    simp [newlines]
  | some v =>
    obtain ⟨hl, hf⟩ := hv v rfl
    have htext := (hf.lexemes hl).2.2
    have ht := @spell_typeText ctx.kept (ty.filter fun t => !erases (.erasing ctx.kept) t)
      fun t ht => hs t (Option.filter_eq_some_iff.1 ht).1
    simp only [stub, StubDecl.render, erase, lexemes, written, declLexemes, valueSpecLexemes,
      namesLexemes_singleton, spellLexemes_append, spellLexemes_cons, ht, Context.fidelity,
      String.toList_append]
    simp [newlines, htext]

theorem spells_type {ctx : Context} {spec : TypeSpec} (h : spec.Fits Leaf.Erases) :
    (stubType ctx spec).render.toList =
      spellLexemes (((Kept.type spec).erase ctx.kept).lexemes ++ newlines 1) := by
  have hp := @spell_erasedTypeParams ctx.kept _ h.params
  have ht : ErasedAs ctx.kept spec.type := h.type.spelled_erase
  have hd := @spell_declared ctx.kept _ h.type
  rw [ErasedAs] at ht
  simp only [stubType, StubDecl.render, erase, lexemes, written, declLexemes, typeSpecLexemes,
    spellLexemes_append, spellLexemes_cons, hp, Context.fidelity, String.toList_append]
  cases spec.isAlias with
  | true => simp [newlines, ht]
  | false => simp [newlines, hd]

theorem spells_func {ctx : Context} (ho : ctx.overrides = .empty) {decl : FuncDecl}
    (h : decl.Fits Leaf.Erases) (hc : IsCallable decl) :
    (stubFuncOn ctx decl (receiverOf decl)).render.toList =
      spellLexemes (((Kept.func decl).erase ctx.kept).lexemes ++ newlines 1) := by
  have hr := @spell_receiver ctx.kept decl h hc
  have hp : spellLexemes (typeParamsLexemes true
      (eraseSignature ctx.kept decl.signature).typeParams) =
      (renderTypeParams (.erasing ctx.kept) decl.signature.typeParams).toList := by
    have hp := h.typeParams
    cases hsig : decl.signature with
    | mk typeParams params results =>
      rw [hsig] at hp
      rw [eraseSignature_eq]
      exact spell_erasedTypeParams hp
  -- The type parameters are not part of what `renderSignature` writes.
  have hs : spellLexemes (signatureLexemes true (eraseSignature ctx.kept decl.signature)) =
      (renderSignature (.erasing ctx.kept) decl.signature).toList := by
    have hs := (h.signature.mono fun t ht => (ht.spelled_erase : ErasedAs ctx.kept t)).spelled
    cases hsig : decl.signature with
    | mk typeParams params results =>
      rw [hsig] at hs
      exact hs
  have hbody : ctx.overrides.get? (overrideKey ctx decl (receiverOf decl)) = none := by
    rw [ho]
    rfl
  have hpanic : spellLexemes bodyInner = ("\n" ++ defaultBody ++ "\n").toList := by
    simp [bodyInner, defaultBody, quotedLexeme]
  simp only [stubFuncOn, StubDecl.render, erase, lexemes, written, funcLexemes, bodyLexemes, hbody,
    spellLexemes_append, spellLexemes_cons, hr, hp, hs, hpanic, Context.fidelity,
    String.toList_append]
  cases receiverOf decl with
  | none => simp [newlines]
  | some r => simp [newlines]

/-- **The text of a stubbed declaration is spelled by the lexemes of what is kept of it.** -/
theorem spells {ctx : Context} (ho : ctx.overrides = .empty) {k : Kept}
    (h : k.Fits Leaf.Erases) :
    (k.stub ctx).render.toList = spellLexemes ((k.erase ctx.kept).lexemes ++ newlines 1) := by
  cases k with
  | value kind name ty init => exact spells_value h
  | type spec => exact spells_type h
  | func decl => exact spells_func ho h.1 h.2

end Spells

end Kept

end Understudy.Stub

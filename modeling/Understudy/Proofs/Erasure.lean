import Understudy.Proofs.TypeLexemes

/-!
# Erasing trees

The renderer erases while it writes: whether a pointer, an instance or an embedded field has
collapsed is read off the text of its part. `eraseType` says the same about trees, with no text in
sight, and this file shows that the two agree:

> **the lexemes of the erased tree spell the erased text** (`IsType.spelled_erase`).

The step that needs an argument is the comparison of texts. It is sound because no type but the
empty interface is written like it (`spell_eq_opaque_iff`), which is true only if names are words
and no text of an unknown form happens to be `interface{}`; this is all that `Leaf.Erases` asks
for.

Erasing a tree that stands for a type gives one again (`IsType.erase`), with fewer leaves: embedded
entries of interfaces and texts of unknown form are gone.
-/

set_option autoImplicit false

namespace Understudy.Source

/-- Whether a type is the empty interface. -/
def TypeExpr.isEmptyInterface : TypeExpr → Bool
  | .interface [] => true
  | _ => false

theorem TypeExpr.eq_of_isEmptyInterface {t : TypeExpr} (h : t.isEmptyInterface = true) :
    t = .interface [] := by
  unfold isEmptyInterface at h
  split at h
  · rfl
  · exact absurd h Bool.false_ne_true

/-! ## Erasing -/

mutual

/-- A type with only the references to the packages known under the names `kept`. -/
def eraseType (kept : List String) : TypeExpr → TypeExpr
  | .ident name => .ident name
  | .qualified package name =>
    if kept.contains package then .qualified package name else .interface []
  | .pointer elem =>
    let inner := eraseType kept elem
    if inner.isEmptyInterface then .interface [] else .pointer inner
  | .array length elem => .array length (eraseType kept elem)
  | .ellipsis elem => .ellipsis (eraseType kept elem)
  | .func signature => .func (eraseSignature kept signature)
  | .map key value => .map (eraseType kept key) (eraseType kept value)
  | .chan dir elem => .chan dir (eraseType kept elem)
  | .literal text => .literal text
  | .struct fields => .struct (eraseStruct kept false fields)
  | .interface elems => .interface (eraseElems kept elems)
  | .instantiated base args =>
    let base := eraseType kept base
    if base.isEmptyInterface then .interface [] else .instantiated base (eraseTypes kept args)
  | .union terms => .union (eraseTypes kept terms)
  | .tilde elem => .tilde (eraseType kept elem)
  | .unsupported _ => .interface []

/-- Each of some types erased. -/
def eraseTypes (kept : List String) : List TypeExpr → List TypeExpr
  | [] => []
  | type :: types => eraseType kept type :: eraseTypes kept types

/-- Some parameters or results with erased types. -/
def eraseFields (kept : List String) : List FieldGroup → List FieldGroup
  | [] => []
  | .mk names type :: fields => .mk names (eraseType kept type) :: eraseFields kept fields

/-- The results of a function with erased types. -/
def eraseResults (kept : List String) : Option (List FieldGroup) → Option (List FieldGroup)
  | none => none
  | some fields => some (eraseFields kept fields)

/-- A signature with erased types. -/
def eraseSignature (kept : List String) : Signature → Signature
  | .mk typeParams params results =>
    .mk (eraseFields kept typeParams) (eraseFields kept params) (eraseResults kept results)

/-- The entries of a struct. The first embedded type that becomes the empty interface without
being written as one is replaced by the sentinel, further ones are left out. -/
def eraseStruct (kept : List String) (used : Bool) : List FieldGroup → List FieldGroup
  | [] => []
  | .mk names type :: fields =>
    let erased := eraseType kept type
    if names.isEmpty && erased.isEmptyInterface && !type.isEmptyInterface then
      if used then eraseStruct kept true fields
      else .mk [] (.ident embedSentinel) :: eraseStruct kept true fields
    else .mk names erased :: eraseStruct kept used fields

/-- The methods of an interface. -/
def eraseElems (kept : List String) : List InterfaceElem → List InterfaceElem
  | [] => []
  | .method name signature :: elems =>
    .method name (eraseSignature kept signature) :: eraseElems kept elems
  | .embedded _ :: elems => eraseElems kept elems

end

variable {kept : List String}

theorem eraseTypes_eq (ts : List TypeExpr) : eraseTypes kept ts = ts.map (eraseType kept) := by
  induction ts with
  | nil => rfl
  | cons t ts ih => rw [eraseTypes, ih, List.map_cons]

theorem eraseFields_eq (fs : List FieldGroup) :
    eraseFields kept fs = fs.map (FieldGroup.mapType (eraseType kept)) := by
  induction fs with
  | nil => rfl
  | cons f fs ih =>
    obtain ⟨names, type⟩ := f
    rw [eraseFields, ih]
    rfl

theorem eraseSignature_eq (s : Signature) :
    eraseSignature kept s = s.mapTypes (eraseType kept) := by
  obtain ⟨typeParams, params, results⟩ := s
  cases results <;>
    simp [eraseSignature, eraseResults, eraseFields_eq, Signature.mapTypes]

/-- The parentheses of a channel of channels stay where they were. -/
theorem isRecv_eraseType (t : TypeExpr) : (eraseType kept t).isRecv = t.isRecv := by
  cases t with
  | chan dir elem => cases dir <;> rfl
  | qualified package name =>
    rw [eraseType]
    split <;> rfl
  | pointer elem | instantiated base args =>
    rw [eraseType]
    split <;> rfl
  | _ => rfl

/-- A struct keeps an entry if it has one. -/
theorem eraseStruct_ne_nil (f : FieldGroup) (fs : List FieldGroup) :
    eraseStruct kept false (f :: fs) ≠ [] := by
  obtain ⟨names, type⟩ := f
  rw [eraseStruct]
  split <;> simp

/-! ## Texts like the empty interface -/

/-- What the leaves of a type have to satisfy for erasing to see through texts. -/
def Leaf.Erases : Leaf → Prop
  | .name s | .qualifier s => isWord s = true
  | .length _ => True
  | .arity _ => True
  | .entry => True
  | .unsupported s => s ≠ opaqueType

/-- **Only the empty interface is written like it.** -/
theorem spell_eq_opaque_iff {ok : Leaf → Prop} {e erased : Bool} {t : TypeExpr}
    (h : IsType ok e t) (hl : ∀ l ∈ t.leaves, ok l → l.Erases) :
    spellLexemes (typeLexemes erased t) = opaqueType.toList ↔ t.isEmptyInterface = true := by
  -- Every other form begins with another character, or has one in it that the text lacks.
  have hmem : ∀ {cs : List Char} {c : Char}, c ∈ cs → c ∉ opaqueType.toList →
      ¬ cs = opaqueType.toList := by
    intro cs c hc hn he
    exact hn (he ▸ hc)
  cases h with
  | @ident name hn =>
    have hw : isWord name = true := hl (.name name) (by simp [TypeExpr.leaves]) hn
    obtain ⟨c, cs, hc, hstart, hcont⟩ := isWord_iff.1 hw
    simp only [typeLexemes, spellLexemes_cons, Lexeme.ofWord_text, spellLexemes_nil,
      List.append_nil, TypeExpr.isEmptyInterface, Bool.false_eq_true, iff_false, hc]
    intro he
    have hb : '{' ∈ cs := by
      have h : cs = "nterface\x7b\x7d".toList := (List.cons.inj he).2
      rw [h]
      decide
    exact absurd (hcont _ hb) (by decide +kernel)
  | qualified _ _ =>
    simp only [TypeExpr.isEmptyInterface, Bool.false_eq_true, iff_false]
    exact hmem (c := '.') (by simp [typeLexemes]) (by decide)
  | pointer _ | slice _ | array _ _ | func _ | map _ _ =>
    simp [typeLexemes, TypeExpr.isEmptyInterface, opaqueType]
  | @chan dir elem _ =>
    cases dir with
    | both =>
      rw [typeLexemes]
      split <;> simp [TypeExpr.isEmptyInterface, opaqueType]
    | send | recv => simp [typeLexemes, TypeExpr.isEmptyInterface, opaqueType]
  | @struct fields _ _ =>
    cases fields <;> simp [typeLexemes, TypeExpr.isEmptyInterface, opaqueType]
  | @interface elems _ =>
    cases elems <;> simp [typeLexemes, TypeExpr.isEmptyInterface, opaqueType]
  | generic _ _ _ | qualifiedGeneric _ _ _ _ =>
    simp only [TypeExpr.isEmptyInterface, Bool.false_eq_true, iff_false]
    exact hmem (c := '[') (by simp [typeLexemes]) (by decide)
  | @unsupported text hu =>
    have hne : text ≠ opaqueType := hl (.unsupported text) (by simp [TypeExpr.leaves]) hu
    simp only [typeLexemes, spellLexemes_lexemes, TypeExpr.isEmptyInterface, Bool.false_eq_true,
      iff_false, String.toList_inj]
    exact hne

/-! ## Erased trees stand for types -/

section Erase

variable {ok ok' : Leaf → Prop} {e : Bool}

/-- What erasing asks of the leaves that are left. -/
structure ErasesTo (kept : List String) (ok ok' : Leaf → Prop) : Prop where
  name : ∀ s, ok (.name s) → ok' (.name s)
  qualifier : ∀ s ∈ kept, ok (.qualifier s) → ok' (.qualifier s)
  length : ∀ s, ok (.length s) → ok' (.length s)
  arity : ∀ n, ok (.arity n) → ok' (.arity n)
  sentinel : ok' (.name embedSentinel)

theorem ErasesTo.imp {ok'' : Leaf → Prop} (h : ErasesTo kept ok ok') (hl : ∀ l, ok' l → ok'' l) :
    ErasesTo kept ok ok'' where
  name s hs := hl _ (h.name s hs)
  qualifier s hk hs := hl _ (h.qualifier s hk hs)
  length s hs := hl _ (h.length s hs)
  arity n hn := hl _ (h.arity n hn)
  sentinel := hl _ h.sentinel

theorem Uniform.mapType {fs : List FieldGroup} (φ : TypeExpr → TypeExpr) (h : Uniform fs) :
    Uniform (fs.map (FieldGroup.mapType φ)) := by
  rcases h with h | h
  · refine Or.inl fun f hf => ?_
    obtain ⟨g, hg, rfl⟩ := List.mem_map.1 hf
    exact h g hg
  · refine Or.inr fun f hf => ?_
    obtain ⟨g, hg, rfl⟩ := List.mem_map.1 hf
    exact h g hg

theorem NamesOk.erase {fs : List FieldGroup} (ht : ErasesTo kept ok ok') (φ : TypeExpr → TypeExpr)
    (h : NamesOk ok fs) : NamesOk ok' (fs.map (FieldGroup.mapType φ)) := by
  intro f hf n hn
  obtain ⟨g, hg, rfl⟩ := List.mem_map.1 hf
  exact ht.name n (h g hg n hn)

/-- What `IsType.erase` shows of a type. -/
def ErasesWell (ok' : Leaf → Prop) (kept : List String) (t : TypeExpr) : Prop :=
  IsType ok' true (eraseType kept t)

theorem IsParamOf.erase {t : TypeExpr} (h : IsParamOf (ErasesWell ok' kept) t) :
    IsParamOf (IsType ok' true) (eraseType kept t) := by
  cases h with
  | type h => exact .type h
  | variadic h => exact .variadic h

theorem IsParamOf.eraseAll {fs : List FieldGroup}
    (h : ∀ f ∈ fs, IsParamOf (ErasesWell ok' kept) f.type) :
    ∀ f ∈ fs.map (FieldGroup.mapType (eraseType kept)), IsParamOf (IsType ok' true) f.type := by
  intro f hf
  obtain ⟨g, hg, rfl⟩ := List.mem_map.1 hf
  exact (h g hg).erase

theorem IsSignatureOf.erase {s : Signature} (ht : ErasesTo kept ok ok')
    (h : IsSignatureOf ok e (ErasesWell ok' kept) s) :
    IsSignatureOf ok' true (IsType ok' true) (eraseSignature kept s) := by
  rw [eraseSignature_eq]
  cases h with
  | plain hu hn hp => exact .plain (hu.mapType _) (hn.erase ht _) (IsParamOf.eraseAll hp)
  | results hu hn hp hu' hn' hp' _ =>
    exact .results (hu.mapType _) (hn.erase ht _) (IsParamOf.eraseAll hp) (hu'.mapType _)
      (hn'.erase ht _) (IsParamOf.eraseAll hp') (Or.inl rfl)

theorem eraseStruct_isType {fs : List FieldGroup} (ht : ErasesTo kept ok ok') (used : Bool)
    (hn : NamesOk ok fs) (h : ∀ f ∈ fs, ErasesWell ok' kept f.type) :
    NamesOk ok' (eraseStruct kept used fs) ∧
      ∀ f ∈ eraseStruct kept used fs, IsType ok' true f.type := by
  induction fs generalizing used with
  | nil =>
    exact ⟨fun f hf => absurd hf List.not_mem_nil, fun f hf => absurd hf List.not_mem_nil⟩
  | cons f fs ih =>
    obtain ⟨names, type⟩ := f
    have ih := fun used => ih used (fun f hf => hn f (List.mem_cons_of_mem _ hf))
      fun f hf => h f (List.mem_cons_of_mem _ hf)
    rw [eraseStruct]
    split
    · split
      · exact ih true
      · refine ⟨?_, List.forall_mem_cons.2 ⟨.ident ht.sentinel, (ih true).2⟩⟩
        exact List.forall_mem_cons.2 ⟨fun n hm => absurd hm List.not_mem_nil, (ih true).1⟩
    · refine ⟨?_, List.forall_mem_cons.2 ⟨h _ List.mem_cons_self, (ih used).2⟩⟩
      refine List.forall_mem_cons.2 ⟨fun n hm => ht.name n ?_, (ih used).1⟩
      exact hn _ List.mem_cons_self n hm

theorem eraseElems_isType {es : List InterfaceElem} (ht : ErasesTo kept ok ok')
    (h : ∀ d ∈ es, IsElemOf ok e (ErasesWell ok' kept) d) :
    ∀ d ∈ eraseElems kept es, IsElemOf ok' true (IsType ok' true) d := by
  induction es with
  | nil => exact fun d hd => absurd hd List.not_mem_nil
  | cons d es ih =>
    have ih := ih fun d hd => h d (List.mem_cons_of_mem _ hd)
    have hd := h d List.mem_cons_self
    cases d with
    | method name signature =>
      cases hd with
      | method hn hs =>
        rw [eraseElems]
        exact List.forall_mem_cons.2 ⟨.method (ht.name _ hn) (hs.erase ht), ih⟩
    | embedded type =>
      rw [eraseElems]
      exact ih

/-- **Erasing keeps the shape of a type.** -/
theorem IsType.erase {t : TypeExpr} (h : IsType ok e t) (ht : ErasesTo kept ok ok') :
    IsType ok' true (eraseType kept t) := by
  -- What is not kept becomes the opaque type, which is an empty interface at each place.
  induction h with
  | ident hn => exact .ident (ht.name _ hn)
  | qualified hp hn =>
    rw [eraseType]
    split
    · next hk => exact .qualified (ht.qualifier _ (by simpa using hk) hp) (ht.name _ hn)
    · exact .interface fun d hd => absurd hd List.not_mem_nil
  | pointer _ ih =>
    rw [eraseType]
    split
    · exact .interface fun d hd => absurd hd List.not_mem_nil
    · exact .pointer ih
  | slice _ ih => exact .slice ih
  | array hl _ ih => exact .array (ht.length _ hl) ih
  | func _ hs => exact .func ((hs.mono fun _ h => h.2).erase ht)
  | map _ _ ihk ihv => exact .map ihk ihv
  | chan _ ih => exact .chan ih
  | struct _ hn ih =>
    obtain ⟨hn, hs⟩ := eraseStruct_isType ht false hn fun f hf => (ih f hf).2
    exact .struct hn hs
  | interface _ ih =>
    exact .interface (eraseElems_isType ht fun d hd => (ih d hd).mono fun _ h => h.2)
  | @generic name args _ hn ha ih =>
    rw [eraseType, eraseTypes_eq]
    refine .generic (ht.name _ hn) (ht.arity _ (by rwa [List.length_map])) fun a hm => ?_
    obtain ⟨b, hb, rfl⟩ := List.mem_map.1 hm
    exact (ih b hb).2
  | @qualifiedGeneric package name args _ hp hn ha ih =>
    rw [eraseType, eraseType, eraseTypes_eq]
    by_cases hk : kept.contains package = true
    · rw [if_pos hk]
      refine .qualifiedGeneric (ht.qualifier _ (by simpa using hk) hp) (ht.name _ hn)
        (ht.arity _ (by rwa [List.length_map])) fun a hm => ?_
      obtain ⟨b, hb, rfl⟩ := List.mem_map.1 hm
      exact (ih b hb).2
    · rw [if_neg hk]
      exact .interface fun d hd => absurd hd List.not_mem_nil
  | unsupported _ => exact .interface fun d hd => absurd hd List.not_mem_nil

/-! The same for what stands around types in a declaration. -/

theorem IsTermOf.erase {t : TypeExpr} (h : IsTermOf (IsType ok e) t) (ht : ErasesTo kept ok ok') :
    IsTermOf (IsType ok' true) (eraseType kept t) := by
  cases h with
  | type h => exact .type (h.erase ht)
  | tilde h =>
    rw [eraseType]
    exact .tilde (h.erase ht)

theorem IsConstraintOf.erase {t : TypeExpr} (h : IsConstraintOf (IsType ok e) t)
    (ht : ErasesTo kept ok ok') : IsConstraintOf (IsType ok' true) (eraseType kept t) := by
  cases h with
  | term h => exact .term (h.erase ht)
  | union hlen h =>
    rw [eraseType, eraseTypes_eq]
    refine .union (by rwa [List.length_map]) fun s hs => ?_
    obtain ⟨t, hm, rfl⟩ := List.mem_map.1 hs
    exact (h t hm).erase ht

theorem IsTypeParam.erase {f : FieldGroup} (h : IsTypeParam ok e f) (ht : ErasesTo kept ok ok') :
    IsTypeParam ok' true (f.mapType (eraseType kept)) where
  named := h.named
  names n hn := ht.name n (h.names n hn)
  constraint := h.constraint.erase ht

theorem IsParams.erase {fs : List FieldGroup} (h : IsParams ok e fs) (ht : ErasesTo kept ok ok') :
    IsParams ok' true (fs.map (FieldGroup.mapType (eraseType kept))) where
  uniform := h.uniform.mapType _
  names := h.names.erase ht _
  types := IsParamOf.eraseAll fun f hf => (h.types f hf).mono fun _ h => h.erase ht

theorem firstTerm_eraseType (t : TypeExpr) :
    (eraseType kept t).firstTerm = eraseType kept t.firstTerm := by
  cases t with
  | union terms => cases terms <;> rfl
  | qualified package name =>
    show (eraseType kept (.qualified package name)).firstTerm = eraseType kept (.qualified package name)
    rw [eraseType]
    split <;> rfl
  | pointer elem =>
    show (eraseType kept (.pointer elem)).firstTerm = eraseType kept (.pointer elem)
    rw [eraseType]
    split <;> rfl
  | instantiated base args =>
    show (eraseType kept (.instantiated base args)).firstTerm =
      eraseType kept (.instantiated base args)
    rw [eraseType]
    split <;> rfl
  | _ => rfl

theorem isSigned_eraseType {t : TypeExpr} (h : t.isSigned = false) :
    (eraseType kept t).isSigned = false := by
  cases t with
  | chan dir elem => cases dir <;> first | rfl | exact h
  | pointer elem => exact absurd h (by simp [TypeExpr.isSigned])
  | qualified package name | instantiated base args =>
    rw [eraseType]
    split <;> rfl
  | _ => rfl

/-- The token behind the first name of type parameters still tells what they are. -/
theorem OpensTypeParams.erase {fs : List FieldGroup} (h : OpensTypeParams fs) :
    OpensTypeParams (fs.map (FieldGroup.mapType (eraseType kept))) := by
  cases fs with
  | nil => exact h
  | cons f fs =>
    intro g hg
    cases hg
    refine (h f rfl).imp_right fun hs => ?_
    show ((eraseType kept f.type).firstTerm).isSigned = false
    rw [firstTerm_eraseType]
    exact isSigned_eraseType hs

/-- The type that a method belongs to survives. -/
theorem receiverName?_eraseType (t : TypeExpr) :
    (eraseType kept t).receiverName? = t.receiverName? := by
  have hempty : ∀ {t : TypeExpr}, t.isEmptyInterface = true → t.receiverName? = none := by
    intro t h
    rw [TypeExpr.eq_of_isEmptyInterface h]
    rfl
  induction t with
  | qualified package name =>
    rw [eraseType]
    split <;> rfl
  | pointer elem ih | instantiated base args ih _ =>
    simp only [eraseType]
    split
    · next h => exact (hempty h).symm.trans ih
    · exact ih
  | _ => rfl

end Erase

/-! ## The lexemes of erased trees spell erased text -/

section Spell

variable {e : Bool}

theorem erasesTo_erases (kept : List String) : ErasesTo kept Leaf.Erases Leaf.Erases where
  name _ h := h
  qualifier _ _ h := h
  length _ h := h
  arity _ h := h
  sentinel := by show isWord embedSentinel = true; decide +kernel

/-- Whether the lexemes of an erased type spell its erased text. -/
def ErasedAs (kept : List String) (t : TypeExpr) : Prop :=
  spellLexemes (typeLexemes true (eraseType kept t)) = (renderType (.erasing kept) t).toList

/-- A type is erased as text where it is erased as a tree. -/
theorem render_beq_isEmpty {t : TypeExpr} (h : IsType Leaf.Erases e t)
    (hs : ErasedAs kept t) :
    (renderType (.erasing kept) t == opaqueType) = (eraseType kept t).isEmptyInterface := by
  rw [ErasedAs] at hs
  rw [Bool.eq_iff_iff, beq_iff_eq, ← String.toList_inj, ← hs]
  exact spell_eq_opaque_iff (h.erase (erasesTo_erases kept)) fun _ _ hl => hl

/-- A type is written as the empty interface only if it is one. -/
theorem verbatim_beq_isEmpty {t : TypeExpr} (h : IsType Leaf.Erases e t) :
    (renderType .verbatim t == opaqueType) = t.isEmptyInterface := by
  rw [Bool.eq_iff_iff, beq_iff_eq, ← String.toList_inj, ← spell_typeLexemes_verbatim]
  exact spell_eq_opaque_iff h fun _ _ hl => hl

theorem IsParamOf.spelled {t : TypeExpr} (h : IsParamOf (ErasedAs kept) t) : ErasedAs kept t := by
  cases h with
  | type h => exact h
  | variadic h =>
    rw [ErasedAs] at h ⊢
    simp [eraseType, typeLexemes, renderType, h]

theorem IsSignatureOf.spelled {ok : Leaf → Prop} {s : Signature}
    (h : IsSignatureOf ok e (ErasedAs kept) s) :
    spellLexemes (signatureLexemes true (eraseSignature kept s)) =
      (renderSignature (.erasing kept) s).toList := by
  rw [eraseSignature_eq]
  exact spell_signature (f := .erasing kept) fun g hg => (h.fields g hg).spelled

/-- The entries of a struct are erased as text as they are as trees. -/
theorem spell_structLines (kept : List String) {fs : List FieldGroup} (used : Bool)
    (h : ∀ f ∈ fs, ∃ _ : IsType Leaf.Erases e f.type, ErasedAs kept f.type) :
    (fieldsLexemes true (eraseStruct kept used fs)).map spellLexemes =
      (structLines (.erasing kept) used fs).map String.toList := by
  induction fs generalizing used with
  | nil => rfl
  | cons f fs ih =>
    obtain ⟨names, type⟩ := f
    have ih := fun used => ih used fun f hf => h f (List.mem_cons_of_mem _ hf)
    obtain ⟨ht, hs⟩ := h _ List.mem_cons_self
    simp only [FieldGroup.type] at ht hs
    rw [eraseStruct, structLines]
    simp only [render_beq_isEmpty ht hs, bne, verbatim_beq_isEmpty ht, Fidelity.isErasing,
      Bool.and_true]
    split
    · split
      · exact ih true
      · rw [fieldsLexemes, List.map_cons, List.map_cons, ih true]
        simp [fieldLexemes, typeLexemes]
    · rw [fieldsLexemes, List.map_cons, List.map_cons, ih used]
      exact congrArg (· :: _) (spell_fieldLexemes hs)

/-- The entries of an interface are erased as text as they are as trees. -/
theorem spell_interfaceLines (kept : List String) {ok : Leaf → Prop} {es : List InterfaceElem}
    (h : ∀ d ∈ es, IsElemOf ok e (ErasedAs kept) d) :
    (elemsLexemes true (eraseElems kept es)).map spellLexemes =
      (interfaceLines (.erasing kept) es).map String.toList := by
  induction es with
  | nil => rfl
  | cons d es ih =>
    have ih := ih fun d hd => h d (List.mem_cons_of_mem _ hd)
    have hd := h d List.mem_cons_self
    cases d with
    | method name signature =>
      cases hd with
      | method _ hs =>
        rw [eraseElems, interfaceLines, elemsLexemes, List.map_cons, List.map_cons, ih]
        simp [hs.spelled]
    | embedded type =>
      rw [eraseElems, interfaceLines]
      exact ih

theorem spell_lines {lss : List (List Lexeme)} {lines : List String}
    (h : lss.map spellLexemes = lines.map String.toList) :
    spellLexemes (List.intercalate [.token .semi [';'], .layout [' ']] lss) =
      (String.intercalate "; " lines).toList := by
  rw [spellLexemes_intercalate, h, String.toList_intercalate, spell_semiBlank]

theorem spell_erased_qualified {package name : String} :
    ErasedAs kept (.qualified package name) := by
  rw [ErasedAs, eraseType, renderType, Fidelity.keeps]
  split <;> simp [typeLexemes, opaqueType]

theorem spell_instance {base : TypeExpr} {args : List TypeExpr} (hb : IsType Leaf.Erases e base)
    (hs : ErasedAs kept base) (h : ∀ a ∈ args, ErasedAs kept a) :
    ErasedAs kept (.instantiated base args) := by
  have ha := spell_intercalate spell_commaBlank h
  rw [ErasedAs, eraseType, renderType]
  simp only [render_beq_isEmpty hb hs, Fidelity.isErasing, Bool.true_and]
  rw [ErasedAs] at hs
  split
  · next hi => rw [← hs, TypeExpr.eq_of_isEmptyInterface hi]
  · rw [typeLexemes, typesLexemes_eq, eraseTypes_eq, renderTypes_eq, List.map_map]
    simp only [spellLexemes_append, spellLexemes_cons, Lexeme.text_token, spellLexemes_nil, hs]
    simp only [String.toList_append, List.append_assoc, ← ha]
    rfl

/-- **The lexemes of the erased tree spell the erased text.** -/
theorem IsType.spelled_erase {t : TypeExpr} (h : IsType Leaf.Erases e t) : ErasedAs kept t := by
  show spellLexemes (typeLexemes true (eraseType kept t)) = _
  -- Text and tree are made from those of the parts. What is left out is decided on the text in one
  -- and on the tree in the other, so each case compares the two tests.
  induction h with
  | ident hn => simp [eraseType, typeLexemes, renderType]
  | qualified hp hn => exact spell_erased_qualified
  | pointer h ih =>
    rw [eraseType, renderType]
    simp only [render_beq_isEmpty h ih, Fidelity.isErasing, Bool.true_and]
    split
    · next hi => rw [← ih, TypeExpr.eq_of_isEmptyInterface hi]
    · simp [typeLexemes, ih]
  | slice _ ih => simp [eraseType, typeLexemes, lengthLexemes, renderType, renderLength, ih]
  | array _ _ ih =>
    simp [eraseType, typeLexemes, lengthLexemes, renderType, renderLength, ih,
      spellLexemes_lexemes]
  | func _ hs => simp [eraseType, typeLexemes, renderType, (hs.mono fun _ h => h.2).spelled]
  | map _ _ ihk ihv => simp [eraseType, typeLexemes, renderType, ihk, ihv]
  | @chan dir elem _ ih =>
    cases dir with
    | both =>
      rw [eraseType, typeLexemes, renderType_both, isRecv_eraseType]
      split <;> simp [ih]
    | send => simp [eraseType, typeLexemes, renderType, ih]
    | recv => simp [eraseType, typeLexemes, renderType, ih]
  | @struct fields _ _ ih =>
    cases fields with
    | nil => simp [eraseType, eraseStruct, typeLexemes, renderType]
    | cons f fs =>
      have hs := spell_lines (spell_structLines kept false ih)
      rw [eraseType, renderType]
      cases hf : eraseStruct kept false (f :: fs) with
      | nil => exact absurd hf (eraseStruct_ne_nil f fs)
      | cons g gs =>
        rw [hf] at hs
        simp [typeLexemes, hs]
  | @interface elems _ ih =>
    have hm := spell_interfaceLines kept fun d hd => (ih d hd).mono fun _ h => h.2
    have hs := spell_lines hm
    rw [eraseType, renderType]
    cases he : eraseElems kept elems with
    | nil =>
      rw [he, elemsLexemes, List.map_nil] at hm
      rw [List.map_eq_nil_iff.1 hm.symm]
      simp [typeLexemes, opaqueType]
    | cons d ds =>
      cases hl : interfaceLines (.erasing kept) elems with
      | nil =>
        rw [he, hl] at hm
        cases d <;> simp [elemsLexemes] at hm
      | cons l ls =>
        rw [he, hl] at hs
        simp [typeLexemes, hs]
  | generic _ hn _ ih =>
    refine spell_instance (e := e) (.ident hn) ?_ fun a ha => (ih a ha).2
    simp [ErasedAs, eraseType, typeLexemes, renderType]
  | qualifiedGeneric _ hp hn _ ih =>
    exact spell_instance (e := e) (.qualified hp hn) spell_erased_qualified fun a ha => (ih a ha).2
  | unsupported _ => simp [eraseType, typeLexemes, renderType, Fidelity.isErasing, opaqueType]

theorem IsTermOf.spelled {t : TypeExpr} (h : IsTermOf (IsType Leaf.Erases e) t) :
    ErasedAs kept t := by
  cases h with
  | type h => exact h.spelled_erase
  | tilde h =>
    have hs : ErasedAs kept _ := h.spelled_erase
    rw [ErasedAs] at hs ⊢
    simp [eraseType, typeLexemes, renderType, hs]

theorem IsConstraintOf.spelled {t : TypeExpr} (h : IsConstraintOf (IsType Leaf.Erases e) t) :
    ErasedAs kept t := by
  cases h with
  | term h => exact h.spelled
  | @union terms _ h =>
    have hbar : spellLexemes [.layout [' '], .token .pipe ['|'], .layout [' ']] = " | ".toList := by
      simp
    have hs := spell_intercalate hbar fun t ht => ((h t ht).spelled : ErasedAs kept t)
    rw [ErasedAs, eraseType, eraseTypes_eq, typeLexemes, typesLexemes_eq, renderType,
      renderTypes_eq, List.map_map]
    exact hs

end Spell

end Understudy.Source

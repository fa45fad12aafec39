import Understudy.Proofs.Lexing
import Understudy.Proofs.TypeShape

/-!
# The lexemes of types

The text of a type, written down as its lexemes.
-/

set_option autoImplicit false

namespace Understudy.Source

/-! ## Writing a type as lexemes -/

/-- Some names with commas between them. -/
def namesLexemes (names : List String) : List Lexeme :=
  List.intercalate [.token .comma [','], .layout [' ']] (names.map fun name => [.ofWord name])

/-- Some names and their type. -/
def fieldLexemes (names : List String) (type : List Lexeme) : List Lexeme :=
  if names.isEmpty then type else namesLexemes names ++ .layout [' '] :: type

/-- Whether a type is a channel that can only be received from. -/
def TypeExpr.isRecv : TypeExpr → Bool
  | .chan .recv _ => true
  | _ => false

mutual

/-- The lexemes of a type. -/
def typeLexemes (erased : Bool) : TypeExpr → List Lexeme
  | .ident name => [.ofWord name]
  | .qualified package name => [.ofWord package, .token .dot ['.'], .ofWord name]
  | .pointer elem => .token .star ['*'] :: typeLexemes erased elem
  | .array length elem =>
    .token .lbrack ['['] :: (lengthLexemes erased length ++
      .token .rbrack [']'] :: typeLexemes erased elem)
  | .ellipsis elem => .token .ellipsis ['.', '.', '.'] :: typeLexemes erased elem
  | .func signature => .ofWord "func" :: signatureLexemes erased signature
  | .map key value =>
    .ofWord "map" :: .token .lbrack ['['] :: (typeLexemes erased key ++
      .token .rbrack [']'] :: typeLexemes erased value)
  | .chan .send elem =>
    .ofWord "chan" :: .token .arrow ['<', '-'] :: .layout [' '] :: typeLexemes erased elem
  | .chan .recv elem =>
    .token .arrow ['<', '-'] :: .ofWord "chan" :: .layout [' '] :: typeLexemes erased elem
  | .chan .both elem =>
    if elem.isRecv then
      .ofWord "chan" :: .layout [' '] :: .token .lparen ['('] :: (typeLexemes erased elem ++
        [.token .rparen [')']])
    else .ofWord "chan" :: .layout [' '] :: typeLexemes erased elem
  | .literal text => lexemes text.toList
  | .struct [] => [.ofWord "struct", .token .lbrace ['{'], .token .rbrace ['}']]
  | .struct (field :: fields) =>
    .ofWord "struct" :: .token .lbrace ['{'] :: .layout [' '] ::
      (List.intercalate [.token .semi [';'], .layout [' ']]
        (fieldsLexemes erased (field :: fields)) ++ [.layout [' '], .token .rbrace ['}']])
  | .interface [] => [.ofWord "interface", .token .lbrace ['{'], .token .rbrace ['}']]
  | .interface (elem :: elems) =>
    .ofWord "interface" :: .token .lbrace ['{'] :: .layout [' '] ::
      (List.intercalate [.token .semi [';'], .layout [' ']]
        (elemsLexemes erased (elem :: elems)) ++ [.layout [' '], .token .rbrace ['}']])
  | .instantiated base args =>
    typeLexemes erased base ++ .token .lbrack ['['] ::
      (List.intercalate [.token .comma [','], .layout [' ']] (typesLexemes erased args) ++
        [.token .rbrack [']']])
  | .union terms =>
    List.intercalate [.layout [' '], .token .pipe ['|'], .layout [' ']]
      (typesLexemes erased terms)
  | .tilde elem => .token .tilde ['~'] :: typeLexemes erased elem
  | .unsupported text => lexemes text.toList

/-- The lexemes of an array length. -/
def lengthLexemes (erased : Bool) : Option TypeExpr → List Lexeme
  | none => []
  | some length => typeLexemes erased length

/-- The lexemes of each of some types. -/
def typesLexemes (erased : Bool) : List TypeExpr → List (List Lexeme)
  | [] => []
  | type :: types => typeLexemes erased type :: typesLexemes erased types

/-- The lexemes of each of some fields. -/
def fieldsLexemes (erased : Bool) : List FieldGroup → List (List Lexeme)
  | [] => []
  | .mk names type :: fields =>
    fieldLexemes names (typeLexemes erased type) :: fieldsLexemes erased fields

/-- The lexemes of results, with a blank before them. -/
def resultsLexemes (erased : Bool) : Option (List FieldGroup) → List Lexeme
  | none => []
  | some [] =>
    if erased then [.layout [' '], .token .lparen ['('], .token .rparen [')']] else []
  | some (.mk names type :: fields) =>
    let first := typeLexemes erased type
    if !erased && names.isEmpty && fields.isEmpty then .layout [' '] :: first
    else
      .layout [' '] :: .token .lparen ['('] ::
        (List.intercalate [.token .comma [','], .layout [' ']]
          (fieldLexemes names first :: fieldsLexemes erased fields) ++ [.token .rparen [')']])

/-- The lexemes of a signature. -/
def signatureLexemes (erased : Bool) : Signature → List Lexeme
  | .mk _ params results =>
    .token .lparen ['('] ::
      (List.intercalate [.token .comma [','], .layout [' ']] (fieldsLexemes erased params) ++
        .token .rparen [')'] :: resultsLexemes erased results)

/-- The lexemes of each entry of an interface. -/
def elemsLexemes (erased : Bool) : List InterfaceElem → List (List Lexeme)
  | [] => []
  | .method name signature :: elems =>
    (.ofWord name :: signatureLexemes erased signature) :: elemsLexemes erased elems
  | .embedded type :: elems => typeLexemes erased type :: elemsLexemes erased elems

end

/-! ## Lists inside types

The functions on lists of types and fields, of the writer here and of the renderer, do one thing to
every member. -/

/-- The lexemes of an entry of an interface. -/
def elemLexemes (erased : Bool) : InterfaceElem → List Lexeme
  | .method name signature => .ofWord name :: signatureLexemes erased signature
  | .embedded type => typeLexemes erased type

theorem typesLexemes_eq (erased : Bool) (ts : List TypeExpr) :
    typesLexemes erased ts = ts.map (typeLexemes erased) := by
  induction ts with
  | nil => rfl
  | cons t ts ih => rw [typesLexemes, ih, List.map_cons]

theorem fieldsLexemes_eq (erased : Bool) (fs : List FieldGroup) :
    fieldsLexemes erased fs =
      fs.map fun f => fieldLexemes f.names (typeLexemes erased f.type) := by
  induction fs with
  | nil => rfl
  | cons f fs ih =>
    obtain ⟨names, type⟩ := f
    rw [fieldsLexemes, ih]
    rfl

theorem elemsLexemes_eq (erased : Bool) (es : List InterfaceElem) :
    elemsLexemes erased es = es.map (elemLexemes erased) := by
  induction es with
  | nil => rfl
  | cons e es ih => cases e <;> rw [elemsLexemes, ih] <;> rfl

theorem renderTypes_eq (f : Fidelity) (ts : List TypeExpr) :
    renderTypes f ts = ts.map (renderType f) := by
  induction ts with
  | nil => rfl
  | cons t ts ih => rw [renderTypes, ih, List.map_cons]

theorem renderFields_eq (f : Fidelity) (fs : List FieldGroup) :
    renderFields f fs = fs.map fun g => fieldText g.names (renderType f g.type) := by
  induction fs with
  | nil => rfl
  | cons g fs ih =>
    obtain ⟨names, type⟩ := g
    rw [renderFields, ih]
    rfl

theorem renderType_both (f : Fidelity) (elem : TypeExpr) :
    renderType f (.chan .both elem) =
      if elem.isRecv then "chan (" ++ renderType f elem ++ ")"
      else "chan " ++ renderType f elem := by
  cases elem with
  | chan dir e => cases dir <;> rfl
  | _ => rfl

/-! ## Lexemes that spell the rendered text

`Spelled f φ t` says that the text of `t` is spelled by the lexemes of `φ t`. For verbatim text
`φ` changes nothing; for erased text it is the erasure of trees. What holds of the parts of a
field list or a signature holds of the whole for the same reason in both. -/

/-- A field with another type. -/
def FieldGroup.mapType (φ : TypeExpr → TypeExpr) (f : FieldGroup) : FieldGroup :=
  .mk f.names (φ f.type)

/-- A signature with other types. -/
def Signature.mapTypes (φ : TypeExpr → TypeExpr) : Signature → Signature
  | .mk typeParams params results =>
    .mk (typeParams.map (FieldGroup.mapType φ)) (params.map (FieldGroup.mapType φ))
      (results.map (List.map (FieldGroup.mapType φ)))

/-- Whether the text of `t` is spelled by the lexemes of `φ t`. -/
def Spelled (f : Fidelity) (φ : TypeExpr → TypeExpr) (t : TypeExpr) : Prop :=
  spellLexemes (typeLexemes f.isErasing (φ t)) = (renderType f t).toList

theorem spellLexemes_intercalate (sep : List Lexeme) (lss : List (List Lexeme)) :
    spellLexemes (List.intercalate sep lss) =
      List.intercalate (spellLexemes sep) (lss.map spellLexemes) := by
  induction lss with
  | nil => rfl
  | cons ls lss ih =>
    cases lss with
    | nil => simp
    | cons ms lss =>
      rw [List.intercalate_cons_cons, spellLexemes_append, spellLexemes_append, ih]
      simp [List.intercalate_cons_cons]

theorem spell_intercalate {α : Type} {sep : List Lexeme} {s : String} {xs : List α}
    {g : α → List Lexeme} {r : α → String} (hs : spellLexemes sep = s.toList)
    (h : ∀ x ∈ xs, spellLexemes (g x) = (r x).toList) :
    spellLexemes (List.intercalate sep (xs.map g)) =
      (String.intercalate s (xs.map r)).toList := by
  rw [spellLexemes_intercalate, String.toList_intercalate, hs, List.map_map, List.map_map]
  congr 1
  exact List.map_congr_left h

theorem spell_commaBlank :
    spellLexemes [.token .comma [','], .layout [' ']] = ", ".toList := by simp

theorem spell_semiBlank :
    spellLexemes [.token .semi [';'], .layout [' ']] = "; ".toList := by simp

theorem spell_namesLexemes (names : List String) :
    spellLexemes (namesLexemes names) = (String.intercalate ", " names).toList := by
  have h : spellLexemes (List.intercalate [.token .comma [','], .layout [' ']]
      (names.map fun name => [.ofWord name])) =
      (String.intercalate ", " (names.map id)).toList :=
    spell_intercalate spell_commaBlank (by simp)
  rwa [List.map_id] at h

theorem spell_fieldLexemes {names : List String} {ls : List Lexeme} {text : String}
    (h : spellLexemes ls = text.toList) :
    spellLexemes (fieldLexemes names ls) = (fieldText names text).toList := by
  unfold fieldLexemes fieldText
  split
  · exact h
  · simp [spell_namesLexemes, h]

section Spelled

variable {f : Fidelity} {φ : TypeExpr → TypeExpr}

theorem spell_fields {fs : List FieldGroup} {sep : List Lexeme} {s : String}
    (hs : spellLexemes sep = s.toList) (h : ∀ g ∈ fs, Spelled f φ g.type) :
    spellLexemes (List.intercalate sep
      (fieldsLexemes f.isErasing (fs.map (FieldGroup.mapType φ)))) =
      (String.intercalate s (renderFields f fs)).toList := by
  rw [fieldsLexemes_eq, renderFields_eq, List.map_map]
  exact spell_intercalate hs fun g hg => spell_fieldLexemes (h g hg)

theorem spell_results {results : Option (List FieldGroup)}
    (h : ∀ g ∈ results.getD [], Spelled f φ g.type) :
    spellLexemes (resultsLexemes f.isErasing (results.map (List.map (FieldGroup.mapType φ)))) =
      (renderResults f results).toList := by
  match results, h with
  | none, _ => rfl
  | some [], _ => cases f <;> simp [resultsLexemes, renderResults, Fidelity.isErasing]
  | some (.mk names type :: fields), h =>
    have h : ∀ g ∈ FieldGroup.mk names type :: fields, Spelled f φ g.type := h
    have hs := spell_fields spell_commaBlank h
    have hf : Spelled f φ type := h (.mk names type) List.mem_cons_self
    rw [List.map_cons, FieldGroup.mapType, fieldsLexemes, renderFields] at hs
    rw [Option.map_some, List.map_cons, FieldGroup.mapType, resultsLexemes, renderResults]
    simp only [FieldGroup.names, FieldGroup.type, List.isEmpty_map] at hs ⊢
    split
    · rw [spellLexemes_cons, hf]
      simp
    · rw [spellLexemes_cons, spellLexemes_cons, spellLexemes_append, hs]
      simp

theorem spell_signature {s : Signature} (h : ∀ g ∈ s.fields, Spelled f φ g.type) :
    spellLexemes (signatureLexemes f.isErasing (s.mapTypes φ)) =
      (renderSignature f s).toList := by
  obtain ⟨typeParams, params, results⟩ := s
  simp only [Signature.fields, List.mem_append] at h
  have hp := spell_fields spell_commaBlank fun g hg => h g (Or.inl (Or.inr hg))
  have hr := spell_results fun g hg => h g (Or.inr hg)
  rw [Signature.mapTypes, signatureLexemes, renderSignature, spellLexemes_cons,
    spellLexemes_append, hp, spellLexemes_cons, hr]
  simp

end Spelled

/-! ## Verbatim text -/

theorem FieldGroup.mapType_id (fs : List FieldGroup) : fs.map (FieldGroup.mapType id) = fs := by
  induction fs with
  | nil => rfl
  | cons f fs ih =>
    obtain ⟨names, type⟩ := f
    rw [List.map_cons, ih]
    rfl

theorem Signature.mapTypes_id (s : Signature) : s.mapTypes id = s := by
  obtain ⟨typeParams, params, results⟩ := s
  cases results <;> simp [Signature.mapTypes, FieldGroup.mapType_id]

theorem structLines_verbatim (used : Bool) (fs : List FieldGroup) :
    structLines .verbatim used fs = renderFields .verbatim fs := by
  induction fs with
  | nil => rfl
  | cons g fs ih =>
    obtain ⟨names, type⟩ := g
    rw [structLines, renderFields, ih]
    simp [Fidelity.isErasing]

/-- The verbatim text of an entry of an interface. -/
def elemText : InterfaceElem → String
  | .method name signature => name ++ renderSignature .verbatim signature
  | .embedded type => renderType .verbatim type

theorem interfaceLines_verbatim (es : List InterfaceElem) :
    interfaceLines .verbatim es = es.map elemText := by
  induction es with
  | nil => rfl
  | cons e es ih => cases e <;> simp [interfaceLines, elemText, Fidelity.isErasing, ih]

theorem spell_fields_verbatim {fs : List FieldGroup} {sep : List Lexeme} {s : String}
    (hs : spellLexemes sep = s.toList)
    (h : ∀ g ∈ fs, spellLexemes (typeLexemes false g.type) =
      (renderType .verbatim g.type).toList) :
    spellLexemes (List.intercalate sep (fieldsLexemes false fs)) =
      (String.intercalate s (renderFields .verbatim fs)).toList := by
  have h := spell_fields (f := .verbatim) (φ := id) hs h
  rwa [FieldGroup.mapType_id] at h

theorem spell_signature_verbatim {s : Signature}
    (h : ∀ g ∈ s.fields, spellLexemes (typeLexemes false g.type) =
      (renderType .verbatim g.type).toList) :
    spellLexemes (signatureLexemes false s) = (renderSignature .verbatim s).toList := by
  have h := spell_signature (f := .verbatim) (φ := id) h
  rwa [Signature.mapTypes_id] at h

theorem spell_elem_verbatim {e : InterfaceElem}
    (h : ∀ t ∈ e.types, spellLexemes (typeLexemes false t) = (renderType .verbatim t).toList) :
    spellLexemes (elemLexemes false e) = (elemText e).toList := by
  cases e with
  | method name signature =>
    have hs := spell_signature_verbatim fun g hg => h g.type (List.mem_map_of_mem hg)
    simp [elemLexemes, elemText, hs]
  | embedded type => exact h type (List.mem_singleton_self type)

/-- **The lexemes of a type spell its verbatim text.** -/
theorem spell_typeLexemes_verbatim (t : TypeExpr) :
    spellLexemes (typeLexemes false t) = (renderType .verbatim t).toList := by
  induction t with
  | ident name => simp [typeLexemes, renderType]
  | qualified package name => simp [typeLexemes, renderType, Fidelity.keeps]
  | pointer elem ih => simp [typeLexemes, renderType, Fidelity.isErasing, ih]
  | array length elem ihl ih =>
    cases length with
    | none => simp [typeLexemes, renderType, lengthLexemes, renderLength, ih]
    | some l => simp [typeLexemes, renderType, lengthLexemes, renderLength, ih, ihl l rfl]
  | ellipsis elem ih => simp [typeLexemes, renderType, ih]
  | func signature ih => simp [typeLexemes, renderType, spell_signature_verbatim ih]
  | map key value ihk ihv => simp [typeLexemes, renderType, ihk, ihv]
  | chan dir elem ih =>
    cases dir with
    | both =>
      rw [typeLexemes, renderType_both]
      split <;> simp [ih]
    | send => simp [typeLexemes, renderType, ih]
    | recv => simp [typeLexemes, renderType, ih]
  | literal text => simp [typeLexemes, renderType, spellLexemes_lexemes]
  | struct fields ih =>
    cases fields with
    | nil => simp [typeLexemes, renderType]
    | cons f fs =>
      have h := spell_fields_verbatim spell_semiBlank ih
      rw [typeLexemes, renderType, structLines_verbatim]
      simp [h]
  | interface elems ih =>
    cases elems with
    | nil => simp [typeLexemes, renderType, interfaceLines, opaqueType]
    | cons e es =>
      have h := spell_intercalate spell_semiBlank fun e he => spell_elem_verbatim (ih e he)
      rw [typeLexemes, renderType, interfaceLines_verbatim, elemsLexemes_eq]
      rw [List.map_cons] at h ⊢
      simp [h]
  | instantiated base args ihb iha =>
    have h := spell_intercalate spell_commaBlank iha
    simp [typeLexemes, renderType, Fidelity.isErasing, typesLexemes_eq, renderTypes_eq, ihb, h]
  | union terms ih =>
    rw [typeLexemes, renderType, typesLexemes_eq, renderTypes_eq]
    exact spell_intercalate (by simp) ih
  | tilde elem ih => simp [typeLexemes, renderType, ih]
  | unsupported text => simp [typeLexemes, renderType, Fidelity.isErasing, spellLexemes_lexemes]

/-! ## Standing

The lexemes of a type stand before everything that ends a word, so a type can be put anywhere but
in front of a letter. -/

/-- What the leaves of a type have to satisfy for its lexemes to stand: names are words, and the
text of a length has no fault in it and is not carried on by the bracket behind it. -/
def Leaf.Lexes : Leaf → Prop
  | .name s | .qualifier s => isWord s = true
  | .length s => (∀ rest, StandBefore (lexemes s.toList) (']' :: rest)) ∧
      ∀ l ∈ lexemes s.toList, l.isBad = false
  | .arity _ => True
  | .entry => False
  | .unsupported _ => False

/-- Whether some lexemes stand before everything that ends a word. -/
def Stand (ls : List Lexeme) : Prop := ∀ rest, EndsWord rest → StandBefore ls rest

theorem stand_intercalate {sep : List Lexeme} {lss : List (List Lexeme)}
    (hsep : ∀ rest, StandBefore sep rest) (hend : ∀ rest, EndsWord (spellLexemes sep ++ rest))
    (h : ∀ ls ∈ lss, Stand ls) : Stand (List.intercalate sep lss) := by
  refine intercalate_induction (fun _ => ?_) h fun ls hm ms hms rest hr => ?_
  · exact fun _ _ => trivial
  · rw [standBefore_append, standBefore_append]
    refine ⟨?_, hsep _, hms rest hr⟩
    rw [spellLexemes_append, List.append_assoc]
    exact h ls hm _ (hend _)

theorem stand_separated (kind : Kind) (c : Char) {lss : List (List Lexeme)}
    (hfree : (Lexeme.token kind [c]).isFree = true)
    (hc : continuesWord c = false ∧ c ≠ '\ufeff') (h : ∀ ls ∈ lss, Stand ls) :
    Stand (List.intercalate [.token kind [c], .layout [' ']] lss) := by
  refine stand_intercalate (fun rest => ?_) (fun rest => endsWord_cons.2 hc) h
  exact ⟨Lexeme.standsBefore_of_isFree hfree _, Lexeme.standsBefore_of_isFree rfl _, trivial⟩

theorem stand_bars {lss : List (List Lexeme)} (h : ∀ ls ∈ lss, Stand ls) :
    Stand (List.intercalate [.layout [' '], .token .pipe ['|'], .layout [' ']] lss) := by
  refine stand_intercalate (fun rest => ?_) (fun rest => endsWord_cons.2 (by decide)) h
  exact ⟨Lexeme.standsBefore_of_isFree rfl _, pipe_stands _, Lexeme.standsBefore_of_isFree rfl _,
    trivial⟩

theorem stand_names {names : List String} (h : ∀ n ∈ names, isWord n = true) :
    Stand (namesLexemes names) := by
  refine stand_separated .comma ',' rfl (by decide) fun ls hm => ?_
  obtain ⟨n, hn, rfl⟩ := List.mem_map.1 hm
  exact fun rest hr => ⟨word_stands (h n hn) hr, trivial⟩

theorem stand_field {names : List String} {ls : List Lexeme}
    (hn : ∀ n ∈ names, isWord n = true) (h : Stand ls) : Stand (fieldLexemes names ls) := by
  intro rest hr
  unfold fieldLexemes
  split
  · exact h rest hr
  · rw [standBefore_append, standBefore_cons]
    exact ⟨stand_names hn _ (endsWord_cons.2 (by decide)), Lexeme.standsBefore_of_isFree rfl _,
      h rest hr⟩

/-- A keyword before a character that ends it. -/
theorem keyword_stands (s : String) {c : Char} {rest : List Char} (hs : isWord s = true)
    (hc : continuesWord c = false ∧ c ≠ '\ufeff') :
    (Lexeme.ofWord s).StandsBefore (c :: rest) :=
  word_stands hs (endsWord_cons.2 hc)

/-- The lexemes that a type can begin with. -/
inductive Opens (ok : Leaf → Prop) : Lexeme → Prop
  | name {s : String} : ok (.name s) → Opens ok (.ofWord s)
  | qualifier {s : String} : ok (.qualifier s) → Opens ok (.ofWord s)
  | keyword {s : String} : s ∈ ["func", "map", "chan", "struct", "interface"] →
      Opens ok (.ofWord s)
  | star : Opens ok (.token .star ['*'])
  | lbrack : Opens ok (.token .lbrack ['['])
  | arrow : Opens ok (.token .arrow ['<', '-'])

theorem typeLexemes_opens {ok : Leaf → Prop} {erased shape : Bool} {t : TypeExpr}
    (h : IsType ok shape t) (hu : ∀ s, ¬ ok (.unsupported s)) :
    ∃ l ls, typeLexemes erased t = l :: ls ∧ Opens ok l := by
  cases h with
  | ident hn => exact ⟨_, _, by rw [typeLexemes], .name hn⟩
  | qualified hp _ => exact ⟨_, _, by rw [typeLexemes], .qualifier hp⟩
  | pointer _ => exact ⟨_, _, by rw [typeLexemes], .star⟩
  | slice _ | array _ _ => exact ⟨_, _, by rw [typeLexemes], .lbrack⟩
  | func _ => exact ⟨_, _, by rw [typeLexemes], .keyword (by decide)⟩
  | map _ _ => exact ⟨_, _, by rw [typeLexemes], .keyword (by decide)⟩
  | @chan dir elem _ =>
    cases dir with
    | send => exact ⟨_, _, by rw [typeLexemes], .keyword (by decide)⟩
    | recv => exact ⟨_, _, by rw [typeLexemes], .arrow⟩
    | both =>
      rw [typeLexemes]
      split
      · exact ⟨_, _, rfl, .keyword (by decide)⟩
      · exact ⟨_, _, rfl, .keyword (by decide)⟩
  | @struct fields _ _ =>
    cases fields <;> exact ⟨_, _, by rw [typeLexemes], .keyword (by decide)⟩
  | @interface elems _ =>
    cases elems <;> exact ⟨_, _, by rw [typeLexemes], .keyword (by decide)⟩
  | generic hn _ _ => exact ⟨_, _, by rw [typeLexemes, typeLexemes]; rfl, .name hn⟩
  | qualifiedGeneric hp _ _ _ => exact ⟨_, _, by rw [typeLexemes, typeLexemes]; rfl, .qualifier hp⟩
  | unsupported h => exact absurd h (hu _)

section Stand

variable {erased shape : Bool}

/-- The first character of a type is no equals sign. -/
theorem typeLexemes_head {t : TypeExpr} (h : IsType Leaf.Lexes shape t) (rest : List Char) :
    (spellLexemes (typeLexemes erased t) ++ rest).head? ≠ some '=' := by
  have hword : ∀ {s : String} (cs : List Char), isWord s = true →
      (s.toList ++ cs).head? ≠ some '=' := by
    intro s cs hs
    obtain ⟨c, ds, hc, hstart, -⟩ := isWord_iff.1 hs
    rw [hc, List.cons_append, List.head?_cons, ne_eq, Option.some.injEq]
    exact startsWord_ne hstart (by decide)
  obtain ⟨l, ls, hl, ho⟩ := typeLexemes_opens h fun s hs => hs
  rw [hl, spellLexemes_cons, List.append_assoc]
  cases ho with
  | name hn | qualifier hn => exact hword _ hn
  | @keyword s hs =>
    refine hword _ ?_
    have : ∀ s ∈ ["func", "map", "chan", "struct", "interface"], isWord s = true := by decide
    exact this s hs
  | star | lbrack | arrow => simp

theorem IsParamOf.stand {t : TypeExpr} (h : IsParamOf (fun t => Stand (typeLexemes erased t)) t) :
    Stand (typeLexemes erased t) := by
  intro rest hr
  cases h with
  | type h => exact h rest hr
  | variadic h =>
    rw [typeLexemes]
    exact ⟨Lexeme.standsBefore_of_isFree rfl _, h rest hr⟩

theorem stand_fields {fs : List FieldGroup} (hn : NamesOk Leaf.Lexes fs)
    (h : ∀ f ∈ fs, Stand (typeLexemes erased f.type)) :
    ∀ ls ∈ fieldsLexemes erased fs, Stand ls := by
  intro ls hm
  rw [fieldsLexemes_eq] at hm
  obtain ⟨f, hf, rfl⟩ := List.mem_map.1 hm
  exact stand_field (hn f hf) (h f hf)

theorem stand_results {fs : List FieldGroup} (hn : NamesOk Leaf.Lexes fs)
    (h : ∀ f ∈ fs, Stand (typeLexemes erased f.type)) :
    Stand (resultsLexemes erased (some fs)) := by
  intro rest hr
  cases fs with
  | nil =>
    rw [resultsLexemes]
    split
    · exact ⟨Lexeme.standsBefore_of_isFree rfl _, Lexeme.standsBefore_of_isFree rfl _,
        Lexeme.standsBefore_of_isFree rfl _, trivial⟩
    · trivial
  | cons f fs =>
    obtain ⟨names, type⟩ := f
    have hs := stand_fields hn h
    rw [fieldsLexemes] at hs
    rw [resultsLexemes]
    split
    · exact ⟨Lexeme.standsBefore_of_isFree rfl _, h _ List.mem_cons_self rest hr⟩
    · rw [standBefore_cons, standBefore_cons, standBefore_append]
      exact ⟨Lexeme.standsBefore_of_isFree rfl _, Lexeme.standsBefore_of_isFree rfl _,
        stand_separated .comma ',' rfl (by decide) hs _ (endsWord_cons.2 (by decide)),
        Lexeme.standsBefore_of_isFree rfl _, trivial⟩

theorem IsSignatureOf.stand {s : Signature}
    (h : IsSignatureOf Leaf.Lexes shape (fun t => Stand (typeLexemes erased t)) s) :
    Stand (signatureLexemes erased s) := by
  -- The parentheses around the parameters are common to both cases.
  have hparens : ∀ {params : List FieldGroup} {ls : List Lexeme}, NamesOk Leaf.Lexes params →
      (∀ f ∈ params, IsParamOf (fun t => Stand (typeLexemes erased t)) f.type) → Stand ls →
      Stand (.token .lparen ['('] ::
        (List.intercalate [.token .comma [','], .layout [' ']] (fieldsLexemes erased params) ++
          .token .rparen [')'] :: ls)) := by
    intro params ls hn hp hls rest hr
    have hs := stand_separated .comma ',' rfl (by decide)
      (stand_fields hn fun f hf => (hp f hf).stand)
    rw [standBefore_cons, standBefore_append, standBefore_cons]
    exact ⟨Lexeme.standsBefore_of_isFree rfl _, hs _ (endsWord_cons.2 (by decide)),
      Lexeme.standsBefore_of_isFree rfl _, hls rest hr⟩
  cases h with
  | plain _ hn hp =>
    rw [signatureLexemes, resultsLexemes]
    exact hparens hn hp fun _ _ => trivial
  | results _ hn hp _ hn' hp' _ =>
    rw [signatureLexemes]
    exact hparens hn hp (stand_results hn' fun f hf => (hp' f hf).stand)

/-- A word before the parameters of a signature. -/
theorem stand_call {s : String} (hw : isWord s = true) {signature : Signature}
    (h : IsSignatureOf Leaf.Lexes shape (fun t => Stand (typeLexemes erased t)) signature) :
    Stand (.ofWord s :: signatureLexemes erased signature) := by
  intro rest hr
  refine ⟨?_, h.stand rest hr⟩
  obtain ⟨typeParams, params, results⟩ := signature
  rw [signatureLexemes]
  exact keyword_stands s hw (by decide)

theorem IsTermOf.stand {t : TypeExpr} (h : IsTermOf (fun t => Stand (typeLexemes erased t)) t) :
    Stand (typeLexemes erased t) := by
  intro rest hr
  cases h with
  | type h => exact h rest hr
  | tilde h =>
    rw [typeLexemes]
    exact ⟨Lexeme.standsBefore_of_isFree rfl _, h rest hr⟩

theorem IsConstraintOf.stand {t : TypeExpr}
    (h : IsConstraintOf (fun t => Stand (typeLexemes erased t)) t) :
    Stand (typeLexemes erased t) := by
  cases h with
  | term h => exact h.stand
  | union _ h =>
    rw [typeLexemes, typesLexemes_eq]
    refine stand_bars fun ls hm => ?_
    obtain ⟨t, ht, rfl⟩ := List.mem_map.1 hm
    exact (h t ht).stand

theorem IsElemOf.stand {e : InterfaceElem}
    (h : IsElemOf Leaf.Lexes shape (fun t => Stand (typeLexemes erased t)) e) :
    Stand (elemLexemes erased e) := by
  cases h with
  | method hn h => exact stand_call hn h
  | embedded h => exact h.stand
  | entry h => exact h.elim

theorem stand_qualified {package name : String} (hp : isWord package = true)
    (hn : isWord name = true) : Stand (typeLexemes erased (.qualified package name)) := by
  intro rest hr
  obtain ⟨c, cs, hc, hstart, -⟩ := isWord_iff.1 hn
  rw [typeLexemes]
  refine ⟨word_stands hp (endsWord_cons.2 (by decide)), ?_, word_stands hn hr, trivial⟩
  rw [spellLexemes_cons, Lexeme.ofWord_text, hc]
  exact dot_stands (startsWord_not_digit hstart) (startsWord_ne hstart (by decide))

/-- A generic type before its arguments. -/
theorem stand_generic {base : List Lexeme} (hb : Stand base) {args : List TypeExpr}
    (h : ∀ a ∈ args, Stand (typeLexemes erased a)) :
    Stand (base ++ .token .lbrack ['['] ::
      (List.intercalate [.token .comma [','], .layout [' ']] (typesLexemes erased args) ++
        [.token .rbrack [']']])) := by
  intro rest hr
  have hs : ∀ ls ∈ typesLexemes erased args, Stand ls := by
    intro ls hm
    rw [typesLexemes_eq] at hm
    obtain ⟨a, ha, rfl⟩ := List.mem_map.1 hm
    exact h a ha
  rw [standBefore_append, standBefore_cons, standBefore_append]
  exact ⟨hb _ (endsWord_cons.2 (by decide)), Lexeme.standsBefore_of_isFree rfl _,
    stand_separated .comma ',' rfl (by decide) hs _ (endsWord_cons.2 (by decide)),
    Lexeme.standsBefore_of_isFree rfl _, trivial⟩

/-- **The lexemes of a type stand.** -/
theorem IsType.stand {t : TypeExpr} (h : IsType Leaf.Lexes shape t) :
    Stand (typeLexemes erased t) := by
  induction h with
  | ident hn => exact fun rest hr => ⟨word_stands hn hr, trivial⟩
  | qualified hp hn => exact stand_qualified hp hn
  | pointer h ih =>
    intro rest hr
    rw [typeLexemes]
    exact ⟨star_stands (typeLexemes_head h rest), ih rest hr⟩
  | slice _ ih =>
    intro rest hr
    rw [typeLexemes, lengthLexemes, List.nil_append]
    exact ⟨Lexeme.standsBefore_of_isFree rfl _, Lexeme.standsBefore_of_isFree rfl _, ih rest hr⟩
  | array hl _ ih =>
    intro rest hr
    rw [typeLexemes, lengthLexemes, typeLexemes, standBefore_cons, standBefore_append]
    exact ⟨Lexeme.standsBefore_of_isFree rfl _, hl.1 _, Lexeme.standsBefore_of_isFree rfl _,
      ih rest hr⟩
  | func _ hs => exact stand_call (by decide) (hs.mono fun _ ht => ht.2)
  | map _ _ ihk ihv =>
    intro rest hr
    rw [typeLexemes, standBefore_cons, standBefore_cons, standBefore_append, standBefore_cons]
    exact ⟨keyword_stands "map" (by decide) (by decide), Lexeme.standsBefore_of_isFree rfl _,
      ihk _ (endsWord_cons.2 (by decide)), Lexeme.standsBefore_of_isFree rfl _, ihv rest hr⟩
  | @chan dir elem _ ih =>
    intro rest hr
    have hkey : ∀ {c : Char} {cs : List Char}, continuesWord c = false ∧ c ≠ '\ufeff' →
        (Lexeme.ofWord "chan").StandsBefore (c :: cs) := keyword_stands "chan" (by decide)
    cases dir with
    | send =>
      rw [typeLexemes]
      exact ⟨hkey (by decide), Lexeme.standsBefore_of_isFree rfl _,
        Lexeme.standsBefore_of_isFree rfl _, ih rest hr⟩
    | recv =>
      rw [typeLexemes]
      exact ⟨Lexeme.standsBefore_of_isFree rfl _, hkey (by decide),
        Lexeme.standsBefore_of_isFree rfl _, ih rest hr⟩
    | both =>
      rw [typeLexemes]
      split
      · rw [standBefore_cons, standBefore_cons, standBefore_cons, standBefore_append]
        exact ⟨hkey (by decide), Lexeme.standsBefore_of_isFree rfl _,
          Lexeme.standsBefore_of_isFree rfl _, ih _ (endsWord_cons.2 (by decide)),
          Lexeme.standsBefore_of_isFree rfl _, trivial⟩
      · exact ⟨hkey (by decide), Lexeme.standsBefore_of_isFree rfl _, ih rest hr⟩
  | @struct fields _ hn ih =>
    intro rest hr
    have hkey : ∀ {cs : List Char}, (Lexeme.ofWord "struct").StandsBefore ('{' :: cs) :=
      keyword_stands "struct" (by decide) (by decide)
    cases fields with
    | nil =>
      rw [typeLexemes]
      exact ⟨hkey, Lexeme.standsBefore_of_isFree rfl _, Lexeme.standsBefore_of_isFree rfl _,
        trivial⟩
    | cons f fs =>
      have hs := stand_separated .semi ';' rfl (by decide) (stand_fields hn fun f hf => (ih f hf).2)
      rw [typeLexemes, standBefore_cons, standBefore_cons, standBefore_cons, standBefore_append]
      exact ⟨hkey, Lexeme.standsBefore_of_isFree rfl _, Lexeme.standsBefore_of_isFree rfl _,
        hs _ (endsWord_cons.2 (by decide)), Lexeme.standsBefore_of_isFree rfl _,
        Lexeme.standsBefore_of_isFree rfl _, trivial⟩
  | @interface elems _ ih =>
    intro rest hr
    have hkey : ∀ {cs : List Char}, (Lexeme.ofWord "interface").StandsBefore ('{' :: cs) :=
      keyword_stands "interface" (by decide) (by decide)
    cases elems with
    | nil =>
      rw [typeLexemes]
      exact ⟨hkey, Lexeme.standsBefore_of_isFree rfl _, Lexeme.standsBefore_of_isFree rfl _,
        trivial⟩
    | cons e es =>
      have hs : ∀ ls ∈ elemsLexemes erased (e :: es), Stand ls := by
        intro ls hm
        rw [elemsLexemes_eq] at hm
        obtain ⟨e, he, rfl⟩ := List.mem_map.1 hm
        exact ((ih e he).mono fun _ ht => ht.2).stand
      rw [typeLexemes, standBefore_cons, standBefore_cons, standBefore_cons, standBefore_append]
      exact ⟨hkey, Lexeme.standsBefore_of_isFree rfl _, Lexeme.standsBefore_of_isFree rfl _,
        stand_separated .semi ';' rfl (by decide) hs _ (endsWord_cons.2 (by decide)),
        Lexeme.standsBefore_of_isFree rfl _, Lexeme.standsBefore_of_isFree rfl _, trivial⟩
  | generic _ hn _ ih =>
    rw [typeLexemes, typeLexemes]
    refine stand_generic ?_ fun a ha => (ih a ha).2
    exact fun rest hr => ⟨word_stands hn hr, trivial⟩
  | qualifiedGeneric _ hp hn _ ih =>
    rw [typeLexemes]
    exact stand_generic (stand_qualified hp hn) fun a ha => (ih a ha).2
  | unsupported hu => exact hu.elim

end Stand

end Understudy.Source

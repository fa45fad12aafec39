import Understudy.Proofs.Scanning
import Understudy.Proofs.TypeLexemes
import Understudy.Source.FileParser

/-!
# Looking ahead at types

What a parser sees of a written type before it reads it: the token that the type begins with, and
brackets that all have their partners in it.

> **The brackets of a type are balanced** (`IsType.balanced`).

Where the parser has to tell a name from a type, in parameter lists, structs and interfaces, it
looks one or two tokens ahead and counts brackets. It never takes a type for a name
(`beginsNamedParam_type`, `beginsNamedField_type`, `beginsMethod_type`) nor a name for a type
(`beginsNamedParam_name`, `beginsNamedField_name`).
-/

set_option autoImplicit false

namespace Understudy.Source

/-! ## Words -/

/-- No word is a bracket. -/
theorem Kind.ofWord_not_bracket (w : String) :
    (Kind.ofWord w).opens = false ∧ (Kind.ofWord w).closes = false := by
  rcases Kind.ofWord_mem w with h | h
  · rw [h]
    exact ⟨rfl, rfl⟩
  · have hall : ∀ p ∈ Kind.keywords, p.2.opens = false ∧ p.2.closes = false := by decide
    exact hall _ h

theorem Kind.ofWord_not_literal (w : String) :
    Kind.ofWord w ∉ [Kind.string, .rune, .rawString] := by
  rcases Kind.ofWord_mem w with h | h
  · rw [h]
    decide
  · have hall : ∀ p ∈ Kind.keywords, p.2 ∉ [Kind.string, .rune, .rawString] := by decide
    exact hall _ h

theorem Kind.ofWord_ne_arrow (w : String) : Kind.ofWord w ≠ .arrow := by
  rcases Kind.ofWord_mem w with h | h
  · rw [h]
    decide
  · have hall : ∀ p ∈ Kind.keywords, p.2 ≠ .arrow := by decide
    exact hall _ h

theorem Kind.ofWord_ne_dot (w : String) : Kind.ofWord w ≠ .dot := by
  rcases Kind.ofWord_mem w with h | h
  · rw [h]
    decide
  · have hall : ∀ p ∈ Kind.keywords, p.2 ≠ .dot := by decide
    exact hall _ h

@[simp] theorem Scanner.tokens_ofWord (s : Scanner) (w : String) (ls : List Lexeme) :
    s.tokens (.ofWord w :: ls) =
      s.token (Kind.ofWord w) w.toList :: (s.step (.ofWord w)).tokens ls := rfl

theorem Balanced.word {ls : List Lexeme} (h : Balanced ls) (w : String) :
    Balanced (.ofWord w :: ls) :=
  h.token (Kind.ofWord_not_bracket w).1 (Kind.ofWord_not_bracket w).2 _

@[simp] theorem Kind.ofWord_func : Kind.ofWord "func" = .kwFunc := by decide
@[simp] theorem Kind.ofWord_map : Kind.ofWord "map" = .kwMap := by decide
@[simp] theorem Kind.ofWord_chan : Kind.ofWord "chan" = .kwChan := by decide
@[simp] theorem Kind.ofWord_struct : Kind.ofWord "struct" = .kwStruct := by decide
@[simp] theorem Kind.ofWord_interface : Kind.ofWord "interface" = .kwInterface := by decide

/-! ## Leaves -/

/-- Whether a text between brackets is read as the length of an array: it has a token, its own
brackets have their partners, nothing in it is carried on by the bracket behind it, and it is not
taken for type parameters. -/
structure IsLength (text : String) : Prop where
  lexes : (Leaf.length text).Lexes
  balanced : Balanced (lexemes text.toList)
  trimmed : Text.trim text.toList = text.toList
  written : ∃ kind t, .token kind t ∈ lexemes text.toList
  plain : beginsTypeParams (Scanner.start.tokens
    (.token .lbrack ['['] :: (lexemes text.toList ++ [.token .rbrack [']']]))) = false

/-- What the leaves of a type have to satisfy for it to be read back. -/
def Leaf.ReadsBack : Leaf → Prop
  | .name s | .qualifier s => IsToken .ident s
  | .length s => IsLength s
  | .arity n => 0 < n
  | .entry => False
  | .unsupported _ => False

theorem Leaf.ReadsBack.lexes {l : Leaf} (h : l.ReadsBack) : l.Lexes := by
  cases l with
  | name s | qualifier s => exact (isToken_ident_iff.1 h).1
  | length s => exact IsLength.lexes h
  | arity n => trivial
  | entry => exact h
  | unsupported s => exact h

/-- What the leaves of a type have to satisfy for it to be printed. Lengths are single tokens here. -/
def Leaf.Reads : Leaf → Prop
  | .name s | .qualifier s => IsToken .ident s
  | .length s => IsToken .ident s ∨ IsToken .number s
  | .arity n => 0 < n
  | .entry => False
  | .unsupported _ => False

/-- A name or a number is a length. -/
theorem isLength_token {k : Kind} {s : String} (hk : k = .ident ∨ k = .number) (h : IsToken k s) :
    IsLength s := by
  have hl : lexemes s.toList = [.token k s.toList] := h
  refine ⟨?_, ?_, ?_, ⟨k, s.toList, by simp [hl]⟩, ?_⟩
  · rw [Leaf.Lexes, hl]
    exact ⟨h.stand rfl, List.forall_mem_singleton.2 rfl⟩
  · rw [hl]
    rcases hk with rfl | rfl <;> exact balanced_nil.token rfl rfl _
  · rcases hk with rfl | rfl
    · exact h.trim_ident
    · exact h.trim_number
  · rw [hl]
    rcases hk with rfl | rfl <;> simp [beginsTypeParams]

/-- A name in another package is a length. -/
theorem isLength_qualified {package name : String} (hp : IsToken .ident package)
    (hn : IsToken .ident name) : IsLength (package ++ "." ++ name) := by
  obtain ⟨hpackage, hkind⟩ := isToken_ident_iff.1 hp
  have hname := (isToken_ident_iff.1 hn).1
  have hstand : Stand [.ofWord package, .token .dot ['.'], .ofWord name] := by
    have hs : Stand (typeLexemes false (.qualified package name)) := stand_qualified hpackage hname
    rwa [typeLexemes] at hs
  have hl : lexemes (package ++ "." ++ name).toList =
      [.ofWord package, .token .dot ['.'], .ofWord name] := by
    have hspell := lexemes_spell (hstand [] endsWord_nil)
    simpa [spellLexemes] using hspell
  refine ⟨?_, ?_, trim_eq_self fun c hc => ?_, ⟨.dot, ['.'], ?_⟩, ?_⟩
  · rw [Leaf.Lexes, hl]
    refine ⟨fun rest => hstand _ (endsWord_cons.2 (by decide)), fun l hm => ?_⟩
    simp only [List.mem_cons, List.not_mem_nil, or_false] at hm
    rcases hm with rfl | rfl | rfl <;> rfl
  · rw [hl]
    exact .word (.token (.word balanced_nil _) rfl rfl _) _
  · have hc : c ∈ package.toList ∨ c = '.' ∨ c ∈ name.toList := by simpa using hc
    rcases hc with hc | rfl | hc
    · exact not_isBlank_of_isWord hpackage c hc
    · decide
    · exact not_isBlank_of_isWord hname c hc
  · rw [hl]
    simp
  · rw [hl]
    simp [beginsTypeParams, hkind]

/-- A length is nowhere taken for type parameters: the bracket and two tokens behind it tell. -/
theorem IsLength.not_typeParams {len : String} (h : IsLength len) (s : Scanner) (text : List Char)
    (ls : List Lexeme) (rest : List Token) :
    beginsTypeParams (s.token .lbrack text :: ((s.step (.token .lbrack text)).tokens
      (lexemes len.toList ++ .token .rbrack [']'] :: ls) ++ rest)) = false := by
  have hface : ((s.step (.token .lbrack text)).tokens (lexemes len.toList)).map Token.face =
      ((Scanner.start.step (.token .lbrack ['['])).tokens (lexemes len.toList)).map Token.face :=
    Scanner.face_tokens (by rfl) _
  obtain ⟨t, ts, ht, -⟩ := Scanner.first_tokens
    (rfl : (s.step (.token .lbrack text)).pending = false) h.balanced h.written
  obtain ⟨u, us, hu, -⟩ := Scanner.first_tokens
    (rfl : (Scanner.start.step (.token .lbrack ['['])).pending = false) h.balanced h.written
  have hplain := h.plain
  rw [Scanner.tokens_token, Scanner.tokens_append, hu] at hplain
  rw [Scanner.tokens_append, ht]
  rw [ht, hu, List.map_cons, List.map_cons] at hface
  obtain ⟨hfirst, htail⟩ := List.cons.inj hface
  have hkind : t.kind = u.kind := congrArg Prod.fst hfirst
  cases ts with
  | nil =>
    rw [List.map_nil, eq_comm, List.map_eq_nil_iff] at htail
    subst htail
    simpa [beginsTypeParams, hkind] using hplain
  | cons v ts =>
    obtain ⟨w, ws, rfl⟩ := List.exists_cons_of_ne_nil fun hnil : us = [] => by simp [hnil] at htail
    have hsecond : v.kind = w.kind := congrArg Prod.fst (List.cons.inj htail).1
    simpa [beginsTypeParams, hkind, hsecond] using hplain

theorem Leaf.Reads.readsBack {l : Leaf} (h : l.Reads) : l.ReadsBack := by
  cases l with
  | length s => exact h.elim (isLength_token (Or.inl rfl)) (isLength_token (Or.inr rfl))
  | name s | qualifier s | arity n | entry | unsupported s => exact h

theorem Leaf.Reads.lexes {l : Leaf} (h : l.Reads) : l.Lexes := h.readsBack.lexes

section Shape

variable {erased : Bool}

/-! ## The first token -/

theorem IsType.first {t : TypeExpr} (h : IsType Leaf.ReadsBack erased t) :
    ∃ k text ls, typeLexemes erased t = .token k text :: ls ∧ k.startsType = true := by
  obtain ⟨l, ls, hl, ho⟩ := typeLexemes_opens h fun s hs => hs
  cases ho with
  | @name s hn | @qualifier s hn =>
    exact ⟨_, _, ls, hl, by rw [(isToken_ident_iff.1 hn).2]; rfl⟩
  | @keyword s hs =>
    refine ⟨_, _, ls, hl, ?_⟩
    have hall : ∀ s ∈ ["func", "map", "chan", "struct", "interface"],
        (Kind.ofWord s).startsType = true := by decide
    exact hall s hs
  | star => exact ⟨_, _, ls, hl, rfl⟩
  | lbrack => exact ⟨_, _, ls, hl, rfl⟩
  | arrow => exact ⟨_, _, ls, hl, rfl⟩

/-- How a type can begin, with as much of what stands behind it as a parser looks at. -/
inductive Opening (erased : Bool) : TypeExpr → List Lexeme → Prop
  | alone {t : TypeExpr} {name : String} : Kind.ofWord name = .ident →
      Opening erased t [.ofWord name]
  | point {t : TypeExpr} {name : String} {ls : List Lexeme} : Kind.ofWord name = .ident →
      Opening erased t (.ofWord name :: .token .dot ['.'] :: ls)
  | generic {t : TypeExpr} {name : String} {args : List TypeExpr} : Kind.ofWord name = .ident →
      (∀ a ∈ args, IsType Leaf.ReadsBack erased a) → 0 < args.length →
      Opening erased t (.ofWord name :: .token .lbrack ['['] ::
        (List.intercalate [.token .comma [','], .layout [' ']] (typesLexemes erased args) ++
          [.token .rbrack [']']]))
  | keyword {t : TypeExpr} {w : String} {ls : List Lexeme} :
      w ∈ ["func", "map", "chan", "struct", "interface"] → Opening erased t (.ofWord w :: ls)
  | star {elem : TypeExpr} {ls : List Lexeme} :
      Opening erased (.pointer elem) (.token .star ['*'] :: ls)
  | slice {elem : TypeExpr} : IsType Leaf.ReadsBack erased elem →
      Opening erased (.array none elem)
        (.token .lbrack ['['] :: .token .rbrack [']'] :: typeLexemes erased elem)
  | array {len : String} {elem : TypeExpr} : IsLength len → IsType Leaf.ReadsBack erased elem →
      Opening erased (.array (some (.literal len)) elem) (.token .lbrack ['['] ::
        (lexemes len.toList ++ .token .rbrack [']'] :: typeLexemes erased elem))
  | arrow {elem : TypeExpr} {ls : List Lexeme} :
      Opening erased (.chan .recv elem) (.token .arrow ['<', '-'] :: ls)

theorem IsType.opening {t : TypeExpr} (h : IsType Leaf.ReadsBack erased t) :
    Opening erased t (typeLexemes erased t) := by
  have hname : ∀ {s : String}, Leaf.ReadsBack (.name s) → Kind.ofWord s = .ident :=
    fun hs => (isToken_ident_iff.1 hs).2
  cases h with
  | ident hn =>
    rw [typeLexemes]
    exact .alone (hname hn)
  | qualified hp _ =>
    rw [typeLexemes]
    exact .point (hname hp)
  | pointer _ =>
    rw [typeLexemes]
    exact .star
  | slice helem =>
    rw [typeLexemes, lengthLexemes]
    exact .slice helem
  | array hlen helem =>
    rw [typeLexemes, lengthLexemes, typeLexemes]
    exact .array hlen helem
  | func _ | map _ _ =>
    rw [typeLexemes]
    exact .keyword (by decide)
  | @chan dir elem _ =>
    cases dir with
    | send =>
      rw [typeLexemes]
      exact .keyword (by decide)
    | recv =>
      rw [typeLexemes]
      exact .arrow
    | both =>
      rw [typeLexemes]
      split
      · exact .keyword (by decide)
      · exact .keyword (by decide)
  | @struct fields _ _ =>
    cases fields with
    | nil | cons _ _ =>
      rw [typeLexemes]
      exact .keyword (by decide)
  | @interface elems _ =>
    cases elems with
    | nil | cons _ _ =>
      rw [typeLexemes]
      exact .keyword (by decide)
  | generic hn ha hargs =>
    rw [typeLexemes, typeLexemes]
    exact .generic (hname hn) hargs ha
  | qualifiedGeneric hp _ _ _ =>
    rw [typeLexemes, typeLexemes]
    exact .point (hname hp)
  | unsupported hu => exact hu.elim

/-- Only a channel that can only be received from begins with an arrow. -/
theorem IsType.first_ne_arrow {t : TypeExpr} (h : IsType Leaf.ReadsBack erased t)
    (hr : t.isRecv = false) {k : Kind} {text : List Char} {ls : List Lexeme}
    (hl : typeLexemes erased t = .token k text :: ls) : k ≠ .arrow := by
  have ho := h.opening
  rw [hl] at ho
  cases ho with
  | alone _ | point _ | generic _ _ _ | keyword _ => exact Kind.ofWord_ne_arrow _
  | star | slice _ | array _ _ => decide
  | arrow => exact absurd hr (by simp [TypeExpr.isRecv])

/-- Any other type begins with a name, a keyword or a bracket. -/
theorem IsType.first_unsigned {t : TypeExpr} (h : IsType Leaf.ReadsBack erased t)
    (hs : t.isSigned = false) :
    ∃ k text ls, typeLexemes erased t = .token k text :: ls ∧
      k ∈ [Kind.ident, .lbrack, .kwFunc, .kwMap, .kwChan, .kwStruct, .kwInterface] := by
  have ho := h.opening
  generalize typeLexemes erased t = ls at ho
  cases ho with
  | alone hn | point hn | generic hn _ _ =>
    refine ⟨_, _, _, rfl, ?_⟩
    rw [hn]
    decide
  | @keyword _ w _ hw =>
    have hall : ∀ w ∈ ["func", "map", "chan", "struct", "interface"], Kind.ofWord w ∈
        [Kind.ident, .lbrack, .kwFunc, .kwMap, .kwChan, .kwStruct, .kwInterface] := by decide
    exact ⟨_, _, _, rfl, hall w hw⟩
  | slice _ | array _ _ => exact ⟨_, _, _, rfl, by decide⟩
  | star | arrow => exact absurd hs (by simp [TypeExpr.isSigned])

end Shape

/-! ## Everywhere in a type

What holds of the lexemes of every type: a property of lists that holds of words, blanks and
signs, that brackets keep, and that goes from two lists to the list of both. -/

/-- The signs in types that are no brackets, dots apart. -/
def signs : List (Kind × List Char) :=
  [(.star, ['*']), (.arrow, ['<', '-']), (.comma, [',']), (.semi, [';']),
    (.pipe, ['|']), (.tilde, ['~']), (.ellipsis, ['.', '.', '.'])]

/-- The brackets in types, each with its partner. -/
def brackets : List (Lexeme × Lexeme) :=
  [(.token .lparen ['('], .token .rparen [')']), (.token .lbrack ['['], .token .rbrack [']']),
    (.token .lbrace ['{'], .token .rbrace ['}'])]

/-- Whether the lexemes of types with leaves as `ok` says have a property because their parts
have it. -/
structure Closed (ok : Leaf → Prop) (C : List Lexeme → Prop) : Prop where
  nil : C []
  append : ∀ {ls ms : List Lexeme}, C ls → C ms → C (ls ++ ms)
  word : ∀ w : String, C [.ofWord w]
  blank : C [.layout [' ']]
  sign : ∀ {k : Kind} {text : List Char}, (k, text) ∈ signs → C [.token k text]
  qualified : ∀ {p : String}, ok (.qualifier p) →
    ∀ n, C [.ofWord p, .token .dot ['.'], .ofWord n]
  bracket : ∀ {op cl : Lexeme} {ls : List Lexeme}, (op, cl) ∈ brackets → C ls →
    C (op :: (ls ++ [cl]))
  length : ∀ {s : String}, ok (.length s) → C (lexemes s.toList)
  entry : ¬ ok .entry
  unsupported : ∀ s, ¬ ok (.unsupported s)

section Closed

variable {ok : Leaf → Prop} {C : List Lexeme → Prop} {erased shape : Bool}

theorem forall_typesLexemes {ts : List TypeExpr} (h : ∀ t ∈ ts, C (typeLexemes erased t)) :
    ∀ ls ∈ typesLexemes erased ts, C ls := by
  intro ls hm
  rw [typesLexemes_eq] at hm
  obtain ⟨t, ht, rfl⟩ := List.mem_map.1 hm
  exact h t ht

namespace Closed

variable (hC : Closed ok C)
include hC

theorem consWord {ls : List Lexeme} (w : String) (h : C ls) : C (.ofWord w :: ls) :=
  hC.append (hC.word w) h

theorem consBlank {ls : List Lexeme} (h : C ls) : C (.layout [' '] :: ls) :=
  hC.append hC.blank h

theorem consSign {ls : List Lexeme} {k : Kind} {text : List Char} (hk : (k, text) ∈ signs)
    (h : C ls) : C (.token k text :: ls) :=
  hC.append (hC.sign hk) h

theorem consBracket {op cl : Lexeme} {ls ms : List Lexeme} (hb : (op, cl) ∈ brackets) (hl : C ls)
    (hm : C ms) : C (op :: (ls ++ cl :: ms)) := by
  have h := hC.append (hC.bracket hb hl) hm
  rwa [List.cons_append, List.append_assoc, List.singleton_append] at h

theorem intercalate {between : List Lexeme} {lss : List (List Lexeme)} (hb : C between)
    (h : ∀ ls ∈ lss, C ls) : C (List.intercalate between lss) :=
  intercalate_induction (fun _ => hC.nil) h fun ls hm _ hms => hC.append (h ls hm) (hC.append hb hms)

theorem commas {lss : List (List Lexeme)} (h : ∀ ls ∈ lss, C ls) :
    C (List.intercalate [.token .comma [','], .layout [' ']] lss) :=
  hC.intercalate (hC.consSign (by decide) hC.blank) h

theorem names (names : List String) : C (namesLexemes names) := by
  refine hC.commas fun ls hm => ?_
  obtain ⟨n, -, rfl⟩ := List.mem_map.1 hm
  exact hC.word n

theorem field {names : List String} {ls : List Lexeme} (h : C ls) :
    C (fieldLexemes names ls) := by
  unfold fieldLexemes
  split
  · exact h
  · exact hC.append (hC.names names) (hC.consBlank h)

theorem fields {fs : List FieldGroup} (h : ∀ f ∈ fs, C (typeLexemes erased f.type)) :
    ∀ ls ∈ fieldsLexemes erased fs, C ls := by
  intro ls hm
  rw [fieldsLexemes_eq] at hm
  obtain ⟨f, hf, rfl⟩ := List.mem_map.1 hm
  exact hC.field (h f hf)

theorem results {results : Option (List FieldGroup)}
    (h : ∀ f ∈ results.getD [], C (typeLexemes erased f.type)) :
    C (resultsLexemes erased results) := by
  match results, h with
  | none, _ => exact hC.nil
  | some [], _ =>
    rw [resultsLexemes]
    split
    · exact hC.consBlank (hC.bracket (by decide) hC.nil)
    · exact hC.nil
  | some (.mk names type :: fields), h =>
    have h : ∀ f ∈ FieldGroup.mk names type :: fields, C (typeLexemes erased f.type) := h
    have hs := hC.fields h
    rw [fieldsLexemes] at hs
    rw [resultsLexemes]
    split
    · exact hC.consBlank (h _ List.mem_cons_self)
    · exact hC.consBlank (hC.bracket (by decide) (hC.commas hs))

theorem signature {s : Signature} (h : ∀ f ∈ s.fields, C (typeLexemes erased f.type)) :
    C (signatureLexemes erased s) := by
  obtain ⟨typeParams, params, results⟩ := s
  simp only [Signature.fields, List.mem_append] at h
  rw [signatureLexemes]
  exact hC.consBracket (by decide)
    (hC.commas (hC.fields fun f hf => h f (Or.inl (Or.inr hf))))
    (hC.results fun f hf => h f (Or.inr hf))

theorem param {t : TypeExpr} (h : IsParamOf (fun t => C (typeLexemes erased t)) t) :
    C (typeLexemes erased t) := by
  cases h with
  | type h => exact h
  | variadic h =>
    rw [typeLexemes]
    exact hC.consSign (by decide) h

theorem term {t : TypeExpr} (h : IsTermOf (fun t => C (typeLexemes erased t)) t) :
    C (typeLexemes erased t) := by
  cases h with
  | type h => exact h
  | tilde h =>
    rw [typeLexemes]
    exact hC.consSign (by decide) h

theorem constraint {t : TypeExpr} (h : IsConstraintOf (fun t => C (typeLexemes erased t)) t) :
    C (typeLexemes erased t) := by
  cases h with
  | term h => exact hC.term h
  | union _ h =>
    rw [typeLexemes]
    exact hC.intercalate (hC.consBlank (hC.consSign (by decide) hC.blank))
      (forall_typesLexemes fun t ht => hC.term (h t ht))

theorem elem {e : InterfaceElem}
    (h : IsElemOf ok shape (fun t => C (typeLexemes erased t)) e) :
    C (elemLexemes erased e) := by
  cases h with
  | method _ h => exact hC.consWord _ (hC.signature fun f hf => hC.param (h.fields f hf))
  | embedded h => exact hC.constraint h
  | entry h => exact absurd h hC.entry

theorem braces {lss : List (List Lexeme)} (h : ∀ ls ∈ lss, C ls) :
    C (.token .lbrace ['{'] :: .layout [' '] ::
      (List.intercalate [.token .semi [';'], .layout [' ']] lss ++
        [.layout [' '], .token .rbrace ['}']])) := by
  have hs : C (List.intercalate [.token .semi [';'], .layout [' ']] lss) :=
    hC.intercalate (hC.consSign (by decide) hC.blank) h
  have hmem : (.token .lbrace ['{'], .token .rbrace ['}']) ∈ brackets := by decide
  have hb := hC.bracket hmem (hC.consBlank (hC.append hs hC.blank))
  rwa [List.cons_append, List.append_assoc, List.singleton_append] at hb

theorem args {args : List TypeExpr} (h : ∀ a ∈ args, C (typeLexemes erased a)) :
    C (.token .lbrack ['['] ::
      (List.intercalate [.token .comma [','], .layout [' ']] (typesLexemes erased args) ++
        [.token .rbrack [']']])) :=
  hC.bracket (by decide) (hC.commas (forall_typesLexemes h))

end Closed

/-- **What the parts of types pass on to the whole holds of every type.** -/
theorem IsType.closed {t : TypeExpr} (h : IsType ok shape t) (hC : Closed ok C) :
    C (typeLexemes erased t) := by
  -- One case for each constructor, along its lexemes.
  induction h with
  | ident _ =>
    rw [typeLexemes]
    exact hC.word _
  | qualified hp _ =>
    rw [typeLexemes]
    exact hC.qualified hp _
  | pointer _ ih =>
    rw [typeLexemes]
    exact hC.consSign (by decide) ih
  | slice _ ih =>
    rw [typeLexemes, lengthLexemes]
    exact hC.consBracket (by decide) hC.nil ih
  | array hl _ ih =>
    rw [typeLexemes, lengthLexemes, typeLexemes]
    exact hC.consBracket (by decide) (hC.length hl) ih
  | func _ hs =>
    rw [typeLexemes]
    have hs := hs.mono fun _ h => h.2
    exact hC.consWord _ (hC.signature fun f hf => hC.param (hs.fields f hf))
  | map _ _ ihk ihv =>
    rw [typeLexemes]
    exact hC.consWord _ (hC.consBracket (by decide) ihk ihv)
  | @chan dir elem _ ih =>
    cases dir with
    | send =>
      rw [typeLexemes]
      exact hC.consWord _ (hC.consSign (by decide) (hC.consBlank ih))
    | recv =>
      rw [typeLexemes]
      exact hC.consSign (by decide) (hC.consWord _ (hC.consBlank ih))
    | both =>
      rw [typeLexemes]
      split
      · exact hC.consWord _ (hC.consBlank (hC.bracket (by decide) ih))
      · exact hC.consWord _ (hC.consBlank ih)
  | @struct fields _ _ ih =>
    cases fields with
    | nil =>
      rw [typeLexemes]
      exact hC.consWord _ (hC.bracket (by decide) hC.nil)
    | cons f fs =>
      rw [typeLexemes]
      exact hC.consWord _ (hC.braces (hC.fields fun f hf => (ih f hf).2))
  | @interface elems _ ih =>
    cases elems with
    | nil =>
      rw [typeLexemes]
      exact hC.consWord _ (hC.bracket (by decide) hC.nil)
    | cons e es =>
      rw [typeLexemes, elemsLexemes_eq]
      refine hC.consWord _ (hC.braces fun ls hm => ?_)
      obtain ⟨e, he, rfl⟩ := List.mem_map.1 hm
      exact hC.elem ((ih e he).mono fun _ h => h.2)
  | generic _ _ _ ih =>
    rw [typeLexemes, typeLexemes]
    exact hC.append (hC.word _) (hC.args fun a ha => (ih a ha).2)
  | qualifiedGeneric _ hp _ _ ih =>
    rw [typeLexemes, typeLexemes]
    exact hC.append (hC.qualified hp _) (hC.args fun a ha => (ih a ha).2)
  | unsupported hu => exact absurd hu (hC.unsupported _)

end Closed

/-! ## Brackets -/

/-- Types close their brackets if lengths do. -/
theorem closed_balanced_of {ok : Leaf → Prop}
    (hlength : ∀ s, ok (.length s) → Balanced (lexemes s.toList)) (hentry : ¬ ok .entry)
    (hunsupported : ∀ s, ¬ ok (.unsupported s)) : Closed ok Balanced where
  nil := balanced_nil
  append := Balanced.append
  word w := balanced_nil.word w
  blank := rfl
  sign := by
    intro k text hk
    have hall : ∀ p ∈ signs, p.1.opens = false ∧ p.1.closes = false := by decide
    exact balanced_nil.token (hall _ hk).1 (hall _ hk).2 text
  qualified _ n := ((balanced_nil.word n).token rfl rfl _).word _
  bracket := by
    intro op cl ls hb hl
    simp only [brackets, List.mem_cons, Prod.mk.injEq, List.not_mem_nil, or_false] at hb
    rcases hb with ⟨rfl, rfl⟩ | ⟨rfl, rfl⟩ | ⟨rfl, rfl⟩ <;>
    exact hl.bracket rfl rfl rfl _ _ balanced_nil
  length hs := hlength _ hs
  entry := hentry
  unsupported := hunsupported

theorem closed_balanced : Closed Leaf.ReadsBack Balanced :=
  closed_balanced_of (fun _ hs => hs.balanced) id fun _ => id

/-- A property of single lexemes. Lengths apart, no type has a literal in it. -/
theorem closed_forall {ok : Leaf → Prop} {P : Lexeme → Prop} (hblank : P (.layout [' ']))
    (htoken : ∀ k text, k ∉ [Kind.string, .rune, .rawString] → P (.token k text))
    (hlength : ∀ s, ok (.length s) → ∀ l ∈ lexemes s.toList, P l) (hentry : ¬ ok .entry)
    (hunsupported : ∀ s, ¬ ok (.unsupported s)) : Closed ok (fun ls => ∀ l ∈ ls, P l) where
  nil := by simp
  append := by
    intro ls ms hl hm l h
    rcases List.mem_append.1 h with h | h
    · exact hl l h
    · exact hm l h
  word w := List.forall_mem_singleton.2 (htoken _ w.toList (Kind.ofWord_not_literal w))
  blank := by simpa using hblank
  sign := by
    intro k text hk
    have hall : ∀ p ∈ signs, p.1 ∉ [Kind.string, .rune, .rawString] := by decide
    simpa using htoken k text (hall _ hk)
  qualified := by
    intro p _ n
    have hword := fun w : String => htoken _ w.toList (Kind.ofWord_not_literal w)
    exact List.forall_mem_cons.2 ⟨hword p, List.forall_mem_cons.2
      ⟨htoken _ _ (by decide), List.forall_mem_singleton.2 (hword n)⟩⟩
  bracket := by
    intro op cl ls hb hl
    have hall : ∀ p ∈ brackets, P p.1 ∧ P p.2 := by
      simpa [brackets] using ⟨⟨htoken _ _ (by decide), htoken _ _ (by decide)⟩,
        ⟨htoken _ _ (by decide), htoken _ _ (by decide)⟩,
        ⟨htoken _ _ (by decide), htoken _ _ (by decide)⟩⟩
    intro l h
    rw [List.mem_cons, List.mem_append, List.mem_singleton] at h
    rcases h with rfl | h | rfl
    · exact (hall _ hb).1
    · exact hl l h
    · exact (hall _ hb).2
  length := hlength _
  entry := hentry
  unsupported := hunsupported

/-- **The brackets of a type have their partners in it.** -/
theorem IsType.balanced {erased : Bool} {t : TypeExpr} (h : IsType Leaf.ReadsBack erased t) :
    Balanced (typeLexemes erased t) :=
  h.closed closed_balanced

theorem closed_good : Closed Leaf.Lexes (fun ls => ∀ l ∈ ls, l.isBad = false) :=
  closed_forall rfl (fun _ _ _ => rfl) (fun _ hs => hs.2) id fun _ => id

/-- No lexeme of a type is a fault. -/
theorem IsType.good {erased shape : Bool} {t : TypeExpr} (h : IsType Leaf.Lexes shape t) :
    ∀ l ∈ typeLexemes erased t, l.isBad = false :=
  h.closed closed_good

theorem balanced_typeList {erased : Bool} {args : List TypeExpr}
    (h : ∀ a ∈ args, IsType Leaf.ReadsBack erased a) :
    Balanced (List.intercalate [.token .comma [','], .layout [' ']]
      (typesLexemes erased args)) :=
  closed_balanced.commas (forall_typesLexemes fun a ha => (h a ha).balanced)

/-! ## The last token

A line end behind a type ends the statement. -/

section Last

variable {erased : Bool}

theorem endsLine_name {s : String} (h : Leaf.ReadsBack (.name s)) : EndsLine [.ofWord s] :=
  endsLine_token (by rw [(isToken_ident_iff.1 h).2]; rfl) _

theorem IsParamOf.endsLine {t : TypeExpr}
    (h : IsParamOf (fun t => EndsLine (typeLexemes erased t)) t) :
    EndsLine (typeLexemes erased t) := by
  cases h with
  | type h => exact h
  | variadic h =>
    rw [typeLexemes]
    exact h.cons _

theorem endsLine_signature {s : Signature}
    (h : ∀ f ∈ s.fields, EndsLine (typeLexemes erased f.type)) :
    EndsLine (signatureLexemes erased s) := by
  have hparen : EndsLine [.token .rparen [')']] := endsLine_token rfl _
  obtain ⟨typeParams, params, results⟩ := s
  rw [signatureLexemes]
  refine EndsLine.cons (EndsLine.append ?_ _) _
  obtain _ | _ | ⟨⟨names, type⟩, fields⟩ := results
  · exact hparen
  · rw [resultsLexemes]
    split
    · exact ((hparen.cons _).cons _).cons _
    · exact hparen
  · rw [resultsLexemes]
    split
    · exact ((h (.mk names type) (by simp [Signature.fields])).cons _).cons _
    · exact (((hparen.append _).cons _).cons _).cons _

theorem IsTermOf.endsLine {t : TypeExpr}
    (h : IsTermOf (fun t => EndsLine (typeLexemes erased t)) t) :
    EndsLine (typeLexemes erased t) := by
  cases h with
  | type h => exact h
  | tilde h =>
    rw [typeLexemes]
    exact h.cons _

theorem IsConstraintOf.endsLine {t : TypeExpr}
    (h : IsConstraintOf (fun t => EndsLine (typeLexemes erased t)) t) :
    EndsLine (typeLexemes erased t) := by
  cases h with
  | term h => exact h.endsLine
  | @union terms hlen h =>
    have hne : terms ≠ [] := by
      rintro rfl
      simp at hlen
    rw [typeLexemes]
    refine EndsLine.intercalate ?_ (forall_typesLexemes fun t ht => (h t ht).endsLine)
    rw [typesLexemes_eq]
    simpa using hne

theorem IsElemOf.endsLine {e : InterfaceElem}
    (h : IsElemOf Leaf.ReadsBack erased (fun t => EndsLine (typeLexemes erased t)) e) :
    EndsLine (elemLexemes erased e) := by
  cases h with
  | method _ h => exact (endsLine_signature fun f hf => (h.fields f hf).endsLine).cons _
  | embedded h => exact h.endsLine
  | entry h => exact h.elim

theorem IsType.endsLine {t : TypeExpr} (h : IsType Leaf.ReadsBack erased t) :
    EndsLine (typeLexemes erased t) := by
  have hbrack : EndsLine [.token .rbrack [']']] := endsLine_token rfl _
  have hbrace : EndsLine [.token .rbrace ['}']] := endsLine_token rfl _
  -- The last lexeme of a type is a name, a closing bracket, or that of its last part.
  induction h with
  | ident hn => exact endsLine_name hn
  | qualified _ hn =>
    rw [typeLexemes]
    exact ((endsLine_name hn).cons _).cons _
  | pointer _ ih =>
    rw [typeLexemes]
    exact ih.cons _
  | slice _ ih | array _ _ ih =>
    rw [typeLexemes]
    exact ((ih.cons _).append _).cons _
  | func _ hs =>
    rw [typeLexemes]
    exact (endsLine_signature fun f hf => ((hs.mono fun _ h => h.2).fields f hf).endsLine).cons _
  | map _ _ _ ihv =>
    rw [typeLexemes]
    exact (((ihv.cons _).append _).cons _).cons _
  | @chan dir elem _ ih =>
    cases dir with
    | send | recv =>
      rw [typeLexemes]
      exact ((ih.cons _).cons _).cons _
    | both =>
      rw [typeLexemes]
      split
      · exact ((((endsLine_token rfl _).append _).cons _).cons _).cons _
      · exact (ih.cons _).cons _
  | @struct fields _ _ _ =>
    cases fields with
    | nil =>
      rw [typeLexemes]
      exact (hbrace.cons _).cons _
    | cons f fs =>
      rw [typeLexemes]
      exact ((((hbrace.cons _).append _).cons _).cons _).cons _
  | @interface elems _ _ =>
    cases elems with
    | nil =>
      rw [typeLexemes]
      exact (hbrace.cons _).cons _
    | cons e es =>
      rw [typeLexemes]
      exact ((((hbrace.cons _).append _).cons _).cons _).cons _
  | generic _ _ _ _ | qualifiedGeneric _ _ _ _ _ =>
    rw [typeLexemes]
    exact ((hbrack.append _).cons _).append _
  | unsupported hu => exact hu.elim

end Last

/-! ## Looking ahead -/

section Reading

variable {erased : Bool}

/-- Behind the arguments of a generic type stands what ends it. -/
theorem bracketFollowsName_args {terminators : List Kind} {args : List TypeExpr}
    (h : ∀ a ∈ args, IsType Leaf.ReadsBack erased a) (hne : 0 < args.length) (s : Scanner)
    {close u : Token} (hc : close.kind = .rbrack) (hu : u.kind ∈ terminators)
    (rest : List Token) :
    bracketFollowsName terminators
      (s.tokens (List.intercalate [.token .comma [','], .layout [' ']]
        (typesLexemes erased args)) ++ close :: u :: rest) = false := by
  have hopens : close.kind.opens = false := by rw [hc]; rfl
  have hcloses : close.kind.closes = true := by rw [hc]; rfl
  have hsplit := splitClose?_balanced s (balanced_typeList h) hopens hcloses (u :: rest)
  obtain ⟨a, args, rfl⟩ := List.exists_cons_of_length_pos hne
  obtain ⟨k, text, ls, hl, hk⟩ := (h a List.mem_cons_self).first
  have hfirst : ∃ ms, List.intercalate [.token .comma [','], .layout [' ']]
      (typesLexemes erased (a :: args)) = .token k text :: ms := by
    rw [typesLexemes]
    cases typesLexemes erased args with
    | nil => exact ⟨ls, by simp [hl]⟩
    | cons ms mss => exact ⟨_, by rw [List.intercalate_cons_cons, hl]; rfl⟩
  obtain ⟨ms, hms⟩ := hfirst
  have hr : k ≠ .rbrack := by
    rintro rfl
    exact absurd hk (by decide)
  unfold bracketFollowsName
  rw [hsplit]
  rw [hms]
  simp [hr, hu]

/-- What the lexemes of a type look like to a parser that wants to tell a name from a type. -/
inductive Ahead (erased : Bool) : List Lexeme → Prop
  | other {kind : Kind} {text : List Char} {ls : List Lexeme} : kind ≠ .ident →
      Ahead erased (.token kind text :: ls)
  | alone {name : String} : Kind.ofWord name = .ident → Ahead erased [.ofWord name]
  | point {name : String} {text : List Char} {ls : List Lexeme} : Kind.ofWord name = .ident →
      Ahead erased (.ofWord name :: .token .dot text :: ls)
  | generic {name : String} {args : List TypeExpr} : Kind.ofWord name = .ident →
      (∀ a ∈ args, IsType Leaf.ReadsBack erased a) → 0 < args.length →
      Ahead erased (.ofWord name :: .token .lbrack ['['] ::
        (List.intercalate [.token .comma [','], .layout [' ']] (typesLexemes erased args) ++
          [.token .rbrack [']']]))

theorem IsType.ahead {t : TypeExpr} (h : IsType Leaf.ReadsBack erased t) :
    Ahead erased (typeLexemes erased t) := by
  have ho := h.opening
  generalize typeLexemes erased t = ls at ho ⊢
  cases ho with
  | alone hn => exact .alone hn
  | point hn => exact .point hn
  | generic hn hargs hne => exact .generic hn hargs hne
  | @keyword _ w _ hw =>
    have hall : ∀ w ∈ ["func", "map", "chan", "struct", "interface"],
        Kind.ofWord w ≠ .ident := by decide
    exact .other (hall w hw)
  | star | slice _ | array _ _ | arrow => exact .other (by decide)

theorem beginsNamedParam_of_ne {t : Token} (ht : t.kind ≠ .ident) (ts : List Token) :
    beginsNamedParam (t :: ts) = false := by
  cases ts with
  | nil => rfl
  | cons u us => simp [beginsNamedParam, ht]

theorem beginsNamedField_of_ne {t : Token} (ht : t.kind ≠ .ident) (ts : List Token) :
    beginsNamedField (t :: ts) = false := by
  cases ts with
  | nil => rfl
  | cons u us => simp [beginsNamedField, ht]

/-- A type in a parameter list is not taken for a name. -/
theorem beginsNamedParam_type {t : TypeExpr} (h : IsType Leaf.ReadsBack erased t) (s : Scanner)
    {u : Token} (hu : u.kind ∈ [Kind.comma, .rparen]) (rest : List Token) :
    beginsNamedParam (s.tokens (typeLexemes erased t) ++ u :: rest) = false := by
  generalize hls : typeLexemes erased t = ls
  have ha := h.ahead
  rw [hls] at ha
  cases ha with
  | other hk => exact beginsNamedParam_of_ne hk _
  | alone hk =>
    simp only [List.mem_cons, List.not_mem_nil, or_false] at hu
    rcases hu with hu | hu <;> simp [beginsNamedParam, hu, Kind.startsType]
  | point hk => simp [beginsNamedParam, Kind.startsType]
  | generic hk hargs hne =>
    simp only [Scanner.tokens_ofWord, Scanner.tokens_token, Scanner.tokens_append,
      Scanner.tokens_nil, List.cons_append, List.append_assoc, List.nil_append, beginsNamedParam]
    rw [bracketFollowsName_args hargs hne _ rfl hu]
    simp

/-- A type in a struct is not taken for a name. -/
theorem beginsNamedField_type {t : TypeExpr} (h : IsType Leaf.ReadsBack erased t) (s : Scanner)
    {u : Token} (hu : u.kind ∈ [Kind.semi, .rbrace]) (rest : List Token) :
    beginsNamedField (s.tokens (typeLexemes erased t) ++ u :: rest) = false := by
  generalize hls : typeLexemes erased t = ls
  have ha := h.ahead
  rw [hls] at ha
  cases ha with
  | other hk => exact beginsNamedField_of_ne hk _
  | alone hk =>
    simp only [List.mem_cons, List.not_mem_nil, or_false] at hu
    rcases hu with hu | hu <;> simp [beginsNamedField, hu, Kind.startsType]
  | point hk => simp [beginsNamedField, Kind.startsType]
  | generic hk hargs hne =>
    have hu : u.kind ∈ [Kind.semi, .rbrace, .string, .rawString] := by
      simp only [List.mem_cons, List.not_mem_nil, or_false] at hu
      rcases hu with hu | hu <;> simp [hu]
    simp only [Scanner.tokens_ofWord, Scanner.tokens_token, Scanner.tokens_append,
      Scanner.tokens_nil, List.cons_append, List.append_assoc, List.nil_append, beginsNamedField]
    rw [bracketFollowsName_args hargs hne _ rfl hu]
    simp

/-- A type in an interface is not taken for a method. -/
theorem beginsMethod_type {t : TypeExpr} (h : IsType Leaf.ReadsBack erased t) (s : Scanner)
    {u : Token} (hu : u.kind ≠ .lparen) (rest : List Token) :
    beginsMethod (s.tokens (typeLexemes erased t) ++ u :: rest) = false := by
  generalize hls : typeLexemes erased t = ls
  have ha := h.ahead
  rw [hls] at ha
  cases ha with
  | other hk => simp [beginsMethod, hk]
  | alone hk => simp [beginsMethod, hu]
  | point hk => simp [beginsMethod]
  | generic hk hargs hne => simp [beginsMethod]

/-- A bracket that a type begins with belongs to a slice or an array. -/
theorem IsType.of_lbrack {t : TypeExpr} (h : IsType Leaf.ReadsBack erased t) {text : List Char}
    {ls : List Lexeme} (hl : typeLexemes erased t = .token .lbrack text :: ls) :
    ∃ elem, IsType Leaf.ReadsBack erased elem ∧
      (ls = .token .rbrack [']'] :: typeLexemes erased elem ∨
        ∃ len, IsLength len ∧
          ls = lexemes len.toList ++ .token .rbrack [']'] :: typeLexemes erased elem) := by
  have hword : ∀ w : String, Kind.ofWord w ≠ .lbrack := by
    intro w he
    have := (Kind.ofWord_not_bracket w).1
    rw [he] at this
    exact absurd this (by decide)
  have ho := h.opening
  rw [hl] at ho
  generalize hk : Kind.lbrack = k at ho
  cases ho with
  | slice helem => exact ⟨_, helem, Or.inl rfl⟩
  | array hlen helem => exact ⟨_, helem, Or.inr ⟨_, hlen, rfl⟩⟩
  | alone _ | point _ | generic _ _ _ | keyword _ => exact absurd hk.symm (hword _)
  | star | arrow => exact absurd hk (by decide)

/-- What stands behind the partner of such a bracket begins a type. -/
theorem IsType.bracket {t : TypeExpr} (h : IsType Leaf.ReadsBack erased t) {terminators : List Kind}
    (hterm : ∀ k ∈ terminators, k.startsType = false) {text : List Char} {ls : List Lexeme}
    (hl : typeLexemes erased t = .token .lbrack text :: ls) (s : Scanner) (rest : List Token) :
    bracketFollowsName terminators (s.tokens ls ++ rest) = true := by
  obtain ⟨elem, helem, rfl | ⟨len, hlen, rfl⟩⟩ := h.of_lbrack hl
  · simp [bracketFollowsName]
  · obtain ⟨k', text', ms, hfirst, hstart⟩ := helem.first
    have hnot : k' ∉ terminators := by
      intro hm
      rw [hterm k' hm] at hstart
      exact absurd hstart Bool.false_ne_true
    rw [hfirst, Scanner.tokens_append, Scanner.tokens_token _ .rbrack, List.append_assoc,
      List.cons_append]
    unfold bracketFollowsName
    rw [splitClose?_balanced s hlen.balanced rfl rfl]
    simp [hnot]

/-- A name before its type is seen in a parameter list. -/
theorem beginsNamedParam_name {t : TypeExpr} (h : IsParamOf (IsType Leaf.ReadsBack erased) t)
    {v : Token} (hv : v.kind = .ident) (s : Scanner) (rest : List Token) :
    beginsNamedParam (v :: (s.tokens (typeLexemes erased t) ++ rest)) = true := by
  cases h with
  | variadic h =>
    rw [typeLexemes]
    simp [beginsNamedParam, hv]
  | type h =>
    obtain ⟨k, text, ls, hl, hk⟩ := h.first
    have hterm : ∀ k ∈ [Kind.comma, .rparen], k.startsType = false := by decide
    have hb := fun hk' : k = .lbrack => h.bracket hterm (hk' ▸ hl)
    rw [hl]
    simp only [Scanner.tokens_token, List.cons_append, beginsNamedParam, hv, beq_self_eq_true,
      Bool.true_and, Scanner.token_kind]
    split
    · exact hb rfl _ _
    · rfl
    · exact hk

/-- A name before its type is seen in a struct. -/
theorem beginsNamedField_name {t : TypeExpr} (h : IsType Leaf.ReadsBack erased t)
    {v : Token} (hv : v.kind = .ident) (s : Scanner) (rest : List Token) :
    beginsNamedField (v :: (s.tokens (typeLexemes erased t) ++ rest)) = true := by
  obtain ⟨k, text, ls, hl, hk⟩ := h.first
  have hterm : ∀ k ∈ [Kind.semi, .rbrace, .string, .rawString], k.startsType = false := by decide
  have hb := fun hk' : k = .lbrack => h.bracket hterm (hk' ▸ hl)
  rw [hl]
  simp only [Scanner.tokens_token, List.cons_append, beginsNamedField, hv, beq_self_eq_true,
    Bool.true_and, Scanner.token_kind]
  split
  · rfl
  · exact hb rfl _ _
  · exact hk

end Reading

end Understudy.Source

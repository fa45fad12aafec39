import Mathlib
import Understudy.Source.Tree
import Understudy.Source.TypeText

/-!
# The shape of types

A type expression is a tree that can be put together in more ways than source text has forms:
nothing stops a variadic type from standing inside a map. `IsType` singles out the trees that
stand for a type, and with it the parts that only stand in one place: a variadic type in a
parameter list, a union in a constraint, a text in the brackets of an array.

What may stand at the leaves (the names, the texts of array lengths, how many arguments an
instance has) is not fixed here but given as a predicate `ok`. Several are in use: what the
parser guarantees, what the printer needs in order to be read back, what a file is assumed to
satisfy. `IsType.mono` passes from one to another, and needs to know it only of the leaves that
the type really has.

Every statement about types is proved by one induction, `TypeExpr.induction`. It goes over the
type alone: the lists of fields, entries and arguments inside it come with a hypothesis for each
of their members.
-/

set_option autoImplicit false

namespace Understudy.Source

@[simp] theorem FieldGroup.names_mk (names : List String) (type : TypeExpr) :
    (FieldGroup.mk names type).names = names := rfl

@[simp] theorem FieldGroup.type_mk (names : List String) (type : TypeExpr) :
    (FieldGroup.mk names type).type = type := rfl

/-! ## Induction -/

/-- All fields of a signature. -/
def Signature.fields : Signature → List FieldGroup
  | mk typeParams params results => typeParams ++ params ++ results.getD []

/-- The types directly in an entry of an interface. -/
def InterfaceElem.types : InterfaceElem → List TypeExpr
  | method _ signature => signature.fields.map FieldGroup.type
  | embedded type => [type]

/-- Induction over a type, with a hypothesis for every type directly inside it. -/
@[induction_eliminator]
theorem TypeExpr.induction {P : TypeExpr → Prop}
    (ident : ∀ name, P (.ident name))
    (qualified : ∀ package name, P (.qualified package name))
    (pointer : ∀ elem, P elem → P (.pointer elem))
    (array : ∀ length elem, (∀ t, length = some t → P t) → P elem → P (.array length elem))
    (ellipsis : ∀ elem, P elem → P (.ellipsis elem))
    (func : ∀ signature, (∀ f ∈ signature.fields, P f.type) → P (.func signature))
    (map : ∀ key value, P key → P value → P (.map key value))
    (chan : ∀ dir elem, P elem → P (.chan dir elem))
    (literal : ∀ text, P (.literal text))
    (struct : ∀ fields, (∀ f ∈ fields, P f.type) → P (.struct fields))
    (interface : ∀ elems, (∀ e ∈ elems, ∀ t ∈ e.types, P t) → P (.interface elems))
    (instantiated : ∀ base args, P base → (∀ a ∈ args, P a) → P (.instantiated base args))
    (union : ∀ terms, (∀ t ∈ terms, P t) → P (.union terms))
    (tilde : ∀ elem, P elem → P (.tilde elem))
    (unsupported : ∀ text, P (.unsupported text)) (type : TypeExpr) : P type := by
  -- The recursor of the mutual types and of the lists inside of them, where the hypothesis for a
  -- list is that of its members.
  refine @TypeExpr.rec P (fun f => P f.type) (fun s => ∀ f ∈ s.fields, P f.type)
    (fun e => ∀ t ∈ e.types, P t) (fun o => ∀ t, o = some t → P t)
    (fun fs => ∀ f ∈ fs, P f.type) (fun es => ∀ e ∈ es, ∀ t ∈ e.types, P t)
    (fun ts => ∀ t ∈ ts, P t) (fun o => ∀ f ∈ o.getD [], P f.type)
    ident qualified pointer array ellipsis func map chan literal struct interface instantiated
    union tilde unsupported ?_ ?_ ?_ ?_ ?_ ?_ ?_ ?_ ?_ ?_ ?_ ?_ ?_ ?_ type
  · intro names type h
    exact h
  · intro typeParams params results h₁ h₂ h₃ f hf
    simp only [Signature.fields, List.mem_append] at hf
    rcases hf with (hf | hf) | hf
    · exact h₁ f hf
    · exact h₂ f hf
    · exact h₃ f hf
  · intro name signature h t ht
    obtain ⟨f, hf, rfl⟩ := List.mem_map.1 ht
    exact h f hf
  · intro type h t ht
    rw [List.mem_singleton.1 ht]
    exact h
  · intro t ht
    simp at ht
  · intro type h t ht
    rw [← Option.some.inj ht]
    exact h
  · intro f hf
    simp at hf
  · intro f fs h hs g hg
    rcases List.mem_cons.1 hg with rfl | hg
    · exact h
    · exact hs g hg
  · intro e he
    simp at he
  · intro e es h hs d hd
    rcases List.mem_cons.1 hd with rfl | hd
    · exact h
    · exact hs d hd
  · intro t ht
    simp at ht
  · intro t ts h hs s hs'
    rcases List.mem_cons.1 hs' with rfl | hs'
    · exact h
    · exact hs s hs'
  · intro f hf
    simp at hf
  · intro fs h
    exact h

/-! ## Leaves -/

/-- What a type is made of in the end. -/
inductive Leaf where
  /-- The name of a type, field, parameter or method. -/
  | name (name : String)
  /-- The name of a package, before the name of a type. -/
  | qualifier (name : String)
  /-- The text of an array length. -/
  | length (text : String)
  /-- The number of arguments of an instance. -/
  | arity (args : Nat)
  /-- An embedded entry of an interface. -/
  | entry
  /-- The text of a type of no known form. -/
  | unsupported (text : String)
  deriving Repr, DecidableEq

mutual

/-- The leaves of a type. -/
def TypeExpr.leaves : TypeExpr → List Leaf
  | .ident name => [.name name]
  | .qualified package name => [.qualifier package, .name name]
  | .pointer elem | .ellipsis elem | .chan _ elem | .tilde elem => elem.leaves
  | .array length elem => lengthLeaves length ++ elem.leaves
  | .func signature => signature.leaves
  | .map key value => key.leaves ++ value.leaves
  | .literal text => [.length text]
  | .struct fields => fieldsLeaves fields
  | .interface elems => elemsLeaves elems
  | .instantiated base args => .arity args.length :: (base.leaves ++ typesLeaves args)
  | .union terms => typesLeaves terms
  | .unsupported text => [.unsupported text]

/-- The leaves of an array length. -/
def lengthLeaves : Option TypeExpr → List Leaf
  | none => []
  | some length => length.leaves

/-- The leaves of some types. -/
def typesLeaves : List TypeExpr → List Leaf
  | [] => []
  | type :: types => type.leaves ++ typesLeaves types

/-- The leaves of some fields. -/
def fieldsLeaves : List FieldGroup → List Leaf
  | [] => []
  | .mk names type :: fields => names.map .name ++ type.leaves ++ fieldsLeaves fields

/-- The leaves of the results of a signature. -/
def resultsLeaves : Option (List FieldGroup) → List Leaf
  | none => []
  | some fields => fieldsLeaves fields

/-- The leaves of a signature. -/
def Signature.leaves : Signature → List Leaf
  | .mk typeParams params results =>
    fieldsLeaves typeParams ++ fieldsLeaves params ++ resultsLeaves results

/-- The leaves of the entries of an interface. -/
def elemsLeaves : List InterfaceElem → List Leaf
  | [] => []
  | .method name signature :: elems => .name name :: (signature.leaves ++ elemsLeaves elems)
  | .embedded type :: elems => .entry :: (type.leaves ++ elemsLeaves elems)

end

/-- The leaves of a field. -/
def FieldGroup.leaves (f : FieldGroup) : List Leaf := f.names.map .name ++ f.type.leaves

theorem typesLeaves_eq (ts : List TypeExpr) : typesLeaves ts = ts.flatMap TypeExpr.leaves := by
  induction ts with
  | nil => rfl
  | cons t ts ih => rw [typesLeaves, ih, List.flatMap_cons]

theorem fieldsLeaves_eq (fs : List FieldGroup) :
    fieldsLeaves fs = fs.flatMap FieldGroup.leaves := by
  induction fs with
  | nil => rfl
  | cons f fs ih =>
    obtain ⟨names, t⟩ := f
    rw [fieldsLeaves, ih, List.flatMap_cons]
    rfl

theorem elemsLeaves_eq (es : List InterfaceElem) :
    elemsLeaves es = es.flatMap fun e => elemsLeaves [e] := by
  induction es with
  | nil => rfl
  | cons e es ih =>
    rw [List.flatMap_cons, ← ih]
    cases e <;> simp [elemsLeaves]

theorem mem_typesLeaves {l : Leaf} {ts : List TypeExpr} :
    l ∈ typesLeaves ts ↔ ∃ t ∈ ts, l ∈ t.leaves := by
  rw [typesLeaves_eq, List.mem_flatMap]

theorem mem_fieldsLeaves {l : Leaf} {fs : List FieldGroup} :
    l ∈ fieldsLeaves fs ↔ ∃ f ∈ fs, l ∈ f.leaves := by
  rw [fieldsLeaves_eq, List.mem_flatMap]

theorem mem_elemsLeaves {l : Leaf} {es : List InterfaceElem} :
    l ∈ elemsLeaves es ↔ ∃ e ∈ es, l ∈ elemsLeaves [e] := by
  rw [elemsLeaves_eq, List.mem_flatMap]

/-! ## Shapes

The flag `erased` tells the two kinds of text apart that types are written in. Erased text has
parentheses around all results, so any results can be written. Verbatim text leaves them out
around one type, and writes nothing for an empty list, so that neither an empty list nor a single
variadic result could be read back from it. -/

/-- Whether the entries of a parameter list all have names or all have none. -/
def Uniform (fields : List FieldGroup) : Prop :=
  (∀ f ∈ fields, f.names = []) ∨ (∀ f ∈ fields, f.names ≠ [])

/-- Whether some fields have names that satisfy `ok`. -/
def NamesOk (ok : Leaf → Prop) (fields : List FieldGroup) : Prop :=
  ∀ f ∈ fields, ∀ n ∈ f.names, ok (.name n)

/-- Whether the results can be written: verbatim text needs parentheses around a variadic result,
and has them around several or around names. -/
def Writable (erased : Bool) (fields : List FieldGroup) : Prop :=
  erased = true ∨ (fields ≠ [] ∧ ∀ elem, fields ≠ [.mk [] (.ellipsis elem)])

section Parts

variable (ok : Leaf → Prop) (erased : Bool) (Q : TypeExpr → Prop)

/-- The type of a parameter, where `Q` says what a type is. -/
inductive IsParamOf : TypeExpr → Prop
  | type {type : TypeExpr} : Q type → IsParamOf type
  | variadic {elem : TypeExpr} : Q elem → IsParamOf (.ellipsis elem)

/-- The signature of a function type or method, which has no type parameters. -/
inductive IsSignatureOf : Signature → Prop
  | plain {params : List FieldGroup} : Uniform params → NamesOk ok params →
      (∀ f ∈ params, IsParamOf Q f.type) → IsSignatureOf (.mk [] params none)
  | results {params results : List FieldGroup} : Uniform params → NamesOk ok params →
      (∀ f ∈ params, IsParamOf Q f.type) → Uniform results → NamesOk ok results →
      (∀ f ∈ results, IsParamOf Q f.type) → Writable erased results →
      IsSignatureOf (.mk [] params (some results))

/-- A term of a constraint. -/
inductive IsTermOf : TypeExpr → Prop
  | type {type : TypeExpr} : Q type → IsTermOf type
  | tilde {elem : TypeExpr} : Q elem → IsTermOf (.tilde elem)

/-- A constraint: one term, or several. -/
inductive IsConstraintOf : TypeExpr → Prop
  | term {type : TypeExpr} : IsTermOf Q type → IsConstraintOf type
  | union {terms : List TypeExpr} : 2 ≤ terms.length → (∀ t ∈ terms, IsTermOf Q t) →
      IsConstraintOf (.union terms)

/-- An entry of an interface. -/
inductive IsElemOf : InterfaceElem → Prop
  | method {name : String} {signature : Signature} : ok (.name name) →
      IsSignatureOf ok erased Q signature → IsElemOf (.method name signature)
  | embedded {type : TypeExpr} : IsConstraintOf Q type → IsElemOf (.embedded type)
  | entry {type : TypeExpr} : ok .entry → IsElemOf (.embedded type)

end Parts

/-- The trees that stand for a type, with leaves that satisfy `ok`. -/
inductive IsType (ok : Leaf → Prop) (erased : Bool) : TypeExpr → Prop
  | ident {name : String} : ok (.name name) → IsType ok erased (.ident name)
  | qualified {package name : String} : ok (.qualifier package) → ok (.name name) →
      IsType ok erased (.qualified package name)
  | pointer {elem : TypeExpr} : IsType ok erased elem → IsType ok erased (.pointer elem)
  | slice {elem : TypeExpr} : IsType ok erased elem → IsType ok erased (.array none elem)
  | array {text : String} {elem : TypeExpr} : ok (.length text) → IsType ok erased elem →
      IsType ok erased (.array (some (.literal text)) elem)
  | func {signature : Signature} : IsSignatureOf ok erased (IsType ok erased) signature →
      IsType ok erased (.func signature)
  | map {key value : TypeExpr} : IsType ok erased key → IsType ok erased value →
      IsType ok erased (.map key value)
  | chan {dir : ChanDir} {elem : TypeExpr} : IsType ok erased elem →
      IsType ok erased (.chan dir elem)
  | struct {fields : List FieldGroup} : NamesOk ok fields →
      (∀ f ∈ fields, IsType ok erased f.type) → IsType ok erased (.struct fields)
  | interface {elems : List InterfaceElem} :
      (∀ e ∈ elems, IsElemOf ok erased (IsType ok erased) e) →
      IsType ok erased (.interface elems)
  | generic {name : String} {args : List TypeExpr} : ok (.name name) → ok (.arity args.length) →
      (∀ a ∈ args, IsType ok erased a) → IsType ok erased (.instantiated (.ident name) args)
  | qualifiedGeneric {package name : String} {args : List TypeExpr} : ok (.qualifier package) →
      ok (.name name) → ok (.arity args.length) → (∀ a ∈ args, IsType ok erased a) →
      IsType ok erased (.instantiated (.qualified package name) args)
  | unsupported {text : String} : ok (.unsupported text) → IsType ok erased (.unsupported text)

/-- A parameter list. -/
structure IsParams (ok : Leaf → Prop) (erased : Bool) (fs : List FieldGroup) : Prop where
  uniform : Uniform fs
  names : NamesOk ok fs
  types : ∀ f ∈ fs, IsParamOf (IsType ok erased) f.type

/-- A type parameter, or several with one constraint. -/
structure IsTypeParam (ok : Leaf → Prop) (erased : Bool) (f : FieldGroup) : Prop where
  named : f.names ≠ []
  names : ∀ n ∈ f.names, ok (.name n)
  constraint : IsConstraintOf (IsType ok erased) f.type

/-- Whether a type begins with a star or an arrow. -/
def TypeExpr.isSigned : TypeExpr → Bool
  | .pointer _ | .chan .recv _ => true
  | _ => false

/-- The first term of a constraint. -/
def TypeExpr.firstTerm : TypeExpr → TypeExpr
  | .union (term :: _) => term
  | type => type

/-- Whether type parameters behind the name of a declared type are not taken for the length of an
array: the token behind their first name has to tell. -/
def OpensTypeParams (params : List FieldGroup) : Prop :=
  ∀ f ∈ params.head?, 2 ≤ f.names.length ∨ f.type.firstTerm.isSigned = false

/-! ## Changing what the parts satisfy -/

section Mono

variable {ok ok' : Leaf → Prop} {erased : Bool} {Q Q' : TypeExpr → Prop}

theorem IsParamOf.mono {t : TypeExpr} (h : IsParamOf Q t) (hq : ∀ s, Q s → Q' s) :
    IsParamOf Q' t := by
  cases h with
  | type h => exact .type (hq _ h)
  | variadic h => exact .variadic (hq _ h)

theorem IsSignatureOf.mono {s : Signature} (h : IsSignatureOf ok erased Q s)
    (hq : ∀ t, Q t → Q' t) : IsSignatureOf ok erased Q' s := by
  cases h with
  | plain hu hn hp => exact .plain hu hn fun f hf => (hp f hf).mono hq
  | results hu hn hp hu' hn' hp' hw =>
    exact .results hu hn (fun f hf => (hp f hf).mono hq) hu' hn'
      (fun f hf => (hp' f hf).mono hq) hw

theorem IsTermOf.mono {t : TypeExpr} (h : IsTermOf Q t) (hq : ∀ s, Q s → Q' s) :
    IsTermOf Q' t := by
  cases h with
  | type h => exact .type (hq _ h)
  | tilde h => exact .tilde (hq _ h)

theorem IsConstraintOf.mono {t : TypeExpr} (h : IsConstraintOf Q t) (hq : ∀ s, Q s → Q' s) :
    IsConstraintOf Q' t := by
  cases h with
  | term h => exact .term (h.mono hq)
  | union hl h => exact .union hl fun t ht => (h t ht).mono hq

theorem IsElemOf.mono {e : InterfaceElem} (h : IsElemOf ok erased Q e) (hq : ∀ t, Q t → Q' t) :
    IsElemOf ok erased Q' e := by
  cases h with
  | method hn h => exact .method hn (h.mono hq)
  | embedded h => exact .embedded (h.mono hq)
  | entry h => exact .entry h

/-- Every field of a signature has the type of a parameter. -/
theorem IsSignatureOf.fields {s : Signature} (h : IsSignatureOf ok erased Q s) :
    ∀ f ∈ s.fields, IsParamOf Q f.type := by
  intro f hf
  cases h with
  | plain _ _ hp => exact hp f (by simpa [Signature.fields] using hf)
  | results _ _ hp _ _ hp' _ =>
    simp only [Signature.fields, List.nil_append, Option.getD_some, List.mem_append] at hf
    rcases hf with hf | hf
    · exact hp f hf
    · exact hp' f hf

end Mono

/-- Induction over the derivation that a tree stands for a type. The parts of a type come with
their own derivation and the induction hypothesis. -/
@[induction_eliminator]
theorem IsType.induction {ok : Leaf → Prop} {erased : Bool}
    {motive : (t : TypeExpr) → IsType ok erased t → Prop}
    (ident : ∀ {name : String} (hn : ok (.name name)), motive (.ident name) (.ident hn))
    (qualified : ∀ {package name : String} (hp : ok (.qualifier package)) (hn : ok (.name name)),
      motive (.qualified package name) (.qualified hp hn))
    (pointer : ∀ {elem : TypeExpr} (h : IsType ok erased elem), motive elem h →
      motive (.pointer elem) (.pointer h))
    (slice : ∀ {elem : TypeExpr} (h : IsType ok erased elem), motive elem h →
      motive (.array none elem) (.slice h))
    (array : ∀ {text : String} {elem : TypeExpr} (hl : ok (.length text))
      (h : IsType ok erased elem), motive elem h →
      motive (.array (some (.literal text)) elem) (.array hl h))
    (func : ∀ {signature : Signature} (h : IsType ok erased (.func signature)),
      IsSignatureOf ok erased (fun t => ∃ h, motive t h) signature → motive (.func signature) h)
    (map : ∀ {key value : TypeExpr} (hk : IsType ok erased key) (hv : IsType ok erased value),
      motive key hk → motive value hv → motive (.map key value) (.map hk hv))
    (chan : ∀ {dir : ChanDir} {elem : TypeExpr} (h : IsType ok erased elem), motive elem h →
      motive (.chan dir elem) (.chan h))
    (struct : ∀ {fields : List FieldGroup} (h : IsType ok erased (.struct fields)),
      NamesOk ok fields → (∀ f ∈ fields, ∃ h, motive f.type h) → motive (.struct fields) h)
    (interface : ∀ {elems : List InterfaceElem} (h : IsType ok erased (.interface elems)),
      (∀ e ∈ elems, IsElemOf ok erased (fun t => ∃ h, motive t h) e) →
      motive (.interface elems) h)
    (generic : ∀ {name : String} {args : List TypeExpr}
      (h : IsType ok erased (.instantiated (.ident name) args)), ok (.name name) →
      ok (.arity args.length) → (∀ a ∈ args, ∃ h, motive a h) →
      motive (.instantiated (.ident name) args) h)
    (qualifiedGeneric : ∀ {package name : String} {args : List TypeExpr}
      (h : IsType ok erased (.instantiated (.qualified package name) args)),
      ok (.qualifier package) → ok (.name name) → ok (.arity args.length) →
      (∀ a ∈ args, ∃ h, motive a h) →
      motive (.instantiated (.qualified package name) args) h)
    (unsupported : ∀ {text : String} (hu : ok (.unsupported text)),
      motive (.unsupported text) (.unsupported hu)) {t : TypeExpr} (h : IsType ok erased t) :
    motive t h := by
  refine @IsType.rec ok erased motive
    (fun s _ => IsSignatureOf ok erased (fun t => ∃ h, motive t h) s)
    (fun e _ => IsElemOf ok erased (fun t => ∃ h, motive t h) e)
    (fun t _ => IsParamOf (fun t => ∃ h, motive t h) t)
    (fun t _ => IsConstraintOf (fun t => ∃ h, motive t h) t)
    (fun t _ => IsTermOf (fun t => ∃ h, motive t h) t)
    ident qualified pointer slice array (fun h ih => func (.func h) ih) map chan
    (fun hn h ih => struct (.struct hn h) hn fun f hf => ⟨h f hf, ih f hf⟩)
    (fun h ih => interface (.interface h) ih)
    (fun hn ha h ih => generic (.generic hn ha h) hn ha fun a hm => ⟨h a hm, ih a hm⟩)
    (fun hp hn ha h ih =>
      qualifiedGeneric (.qualifiedGeneric hp hn ha h) hp hn ha fun a hm => ⟨h a hm, ih a hm⟩)
    unsupported (fun hu hn _ ih => .plain hu hn ih)
    (fun hu hn _ hu' hn' _ hw ih ih' => .results hu hn ih hu' hn' ih' hw)
    (fun hn _ ih => .method hn ih) (fun _ ih => .embedded ih) (fun h => .entry h)
    (fun h ih => .type ⟨h, ih⟩) (fun h ih => .variadic ⟨h, ih⟩) (fun _ ih => .term ih)
    (fun hl _ ih => .union hl ih) (fun h ih => .type ⟨h, ih⟩) (fun h ih => .tilde ⟨h, ih⟩) t h

/-! ## Changing what the leaves satisfy -/

section Leaves

variable {ok ok' : Leaf → Prop} {erased : Bool}

theorem NamesOk.mono {fields : List FieldGroup} (h : NamesOk ok fields)
    (hl : ∀ l ∈ fieldsLeaves fields, ok l → ok' l) : NamesOk ok' fields := by
  intro f hf n hn
  refine hl _ (mem_fieldsLeaves.2 ⟨f, hf, ?_⟩) (h f hf n hn)
  exact List.mem_append_left _ (List.mem_map_of_mem hn)

/-- What `IsType.mono` shows of a type. -/
def Transfers (ok ok' : Leaf → Prop) (erased : Bool) (t : TypeExpr) : Prop :=
  (∀ l ∈ t.leaves, ok l → ok' l) → IsType ok' erased t

theorem IsParamOf.transfer {t : TypeExpr} (h : IsParamOf (Transfers ok ok' erased) t)
    (hl : ∀ l ∈ t.leaves, ok l → ok' l) : IsParamOf (IsType ok' erased) t := by
  cases h with
  | type h => exact .type (h hl)
  | variadic h =>
    rw [TypeExpr.leaves] at hl
    exact .variadic (h hl)

theorem IsParamOf.transferAll {fields : List FieldGroup}
    (h : ∀ f ∈ fields, IsParamOf (Transfers ok ok' erased) f.type)
    (hl : ∀ l ∈ fieldsLeaves fields, ok l → ok' l) :
    ∀ f ∈ fields, IsParamOf (IsType ok' erased) f.type := by
  intro f hf
  exact (h f hf).transfer fun l hm =>
    hl l (mem_fieldsLeaves.2 ⟨f, hf, List.mem_append_right _ hm⟩)

theorem IsSignatureOf.transfer {s : Signature}
    (h : IsSignatureOf ok erased (Transfers ok ok' erased) s)
    (hl : ∀ l ∈ s.leaves, ok l → ok' l) : IsSignatureOf ok' erased (IsType ok' erased) s := by
  cases h with
  | plain hu hn hp =>
    simp only [Signature.leaves, fieldsLeaves, resultsLeaves, List.append_nil,
      List.nil_append] at hl
    exact .plain hu (hn.mono hl) (IsParamOf.transferAll hp hl)
  | results hu hn hp hu' hn' hp' hw =>
    simp only [Signature.leaves, fieldsLeaves, resultsLeaves, List.nil_append,
      List.mem_append] at hl
    exact .results hu (hn.mono fun l hm => hl l (Or.inl hm))
      (IsParamOf.transferAll hp fun l hm => hl l (Or.inl hm)) hu'
      (hn'.mono fun l hm => hl l (Or.inr hm))
      (IsParamOf.transferAll hp' fun l hm => hl l (Or.inr hm)) hw

theorem IsTermOf.transfer {t : TypeExpr} (h : IsTermOf (Transfers ok ok' erased) t)
    (hl : ∀ l ∈ t.leaves, ok l → ok' l) : IsTermOf (IsType ok' erased) t := by
  cases h with
  | type h => exact .type (h hl)
  | tilde h =>
    rw [TypeExpr.leaves] at hl
    exact .tilde (h hl)

theorem IsConstraintOf.transfer {t : TypeExpr} (h : IsConstraintOf (Transfers ok ok' erased) t)
    (hl : ∀ l ∈ t.leaves, ok l → ok' l) : IsConstraintOf (IsType ok' erased) t := by
  cases h with
  | term h => exact .term (h.transfer hl)
  | union hlen h =>
    rw [TypeExpr.leaves] at hl
    exact .union hlen fun t ht => (h t ht).transfer fun l hm =>
      hl l (mem_typesLeaves.2 ⟨t, ht, hm⟩)

theorem IsElemOf.transfer {e : InterfaceElem} (h : IsElemOf ok erased (Transfers ok ok' erased) e)
    (hl : ∀ l ∈ elemsLeaves [e], ok l → ok' l) : IsElemOf ok' erased (IsType ok' erased) e := by
  cases h with
  | method hn h =>
    simp only [elemsLeaves, List.append_nil, List.mem_cons] at hl
    exact .method (hl _ (Or.inl rfl) hn) (h.transfer fun l hm => hl l (Or.inr hm))
  | embedded h =>
    simp only [elemsLeaves, List.append_nil, List.mem_cons] at hl
    exact .embedded (h.transfer fun l hm => hl l (Or.inr hm))
  | entry h =>
    rw [elemsLeaves] at hl
    exact .entry (hl _ List.mem_cons_self h)

/-- **A tree that stands for a type does so for every other condition that its leaves satisfy.** -/
theorem IsType.mono {t : TypeExpr} (h : IsType ok erased t)
    (hl : ∀ l ∈ t.leaves, ok l → ok' l) : IsType ok' erased t := by
  -- The condition on the leaves has to be in the motive, since each part has fewer leaves.
  suffices ht : Transfers ok ok' erased t from ht hl
  clear hl
  induction h with
  | ident hn => exact fun hl => .ident (hl _ (by simp [TypeExpr.leaves]) hn)
  | qualified hp hn =>
    exact fun hl => .qualified (hl _ (by simp [TypeExpr.leaves]) hp)
      (hl _ (by simp [TypeExpr.leaves]) hn)
  | pointer _ ih => exact fun hl => .pointer (ih (by simpa only [TypeExpr.leaves] using hl))
  | slice _ ih =>
    exact fun hl => .slice (ih (by simpa [TypeExpr.leaves, lengthLeaves] using hl))
  | array hlen _ ih =>
    intro hl
    simp only [TypeExpr.leaves, lengthLeaves, List.mem_append] at hl
    exact .array (hl _ (Or.inl (List.mem_singleton_self _)) hlen) (ih fun l hm => hl l (Or.inr hm))
  | func _ hs =>
    intro hl
    rw [TypeExpr.leaves] at hl
    exact .func ((hs.mono fun _ ht => ht.2).transfer hl)
  | map _ _ ihk ihv =>
    intro hl
    simp only [TypeExpr.leaves, List.mem_append] at hl
    exact .map (ihk fun l hm => hl l (Or.inl hm)) (ihv fun l hm => hl l (Or.inr hm))
  | chan _ ih => exact fun hl => .chan (ih (by simpa only [TypeExpr.leaves] using hl))
  | struct _ hn ih =>
    intro hl
    rw [TypeExpr.leaves] at hl
    refine .struct (hn.mono hl) fun f hf => (ih f hf).2 fun l hm => hl l ?_
    exact mem_fieldsLeaves.2 ⟨f, hf, List.mem_append_right _ hm⟩
  | interface _ ih =>
    intro hl
    rw [TypeExpr.leaves] at hl
    refine .interface fun e he => ((ih e he).mono fun _ ht => ht.2).transfer fun l hm => hl l ?_
    exact mem_elemsLeaves.2 ⟨e, he, hm⟩
  | generic _ hn ha ih =>
    intro hl
    simp only [TypeExpr.leaves, List.mem_cons, List.mem_append] at hl
    refine .generic (hl _ (Or.inr (Or.inl (Or.inl rfl))) hn) (hl _ (Or.inl rfl) ha) ?_
    exact fun a hm => (ih a hm).2 fun l hl' =>
      hl l (Or.inr (Or.inr (mem_typesLeaves.2 ⟨a, hm, hl'⟩)))
  | qualifiedGeneric _ hp hn ha ih =>
    intro hl
    simp only [TypeExpr.leaves, List.mem_cons, List.mem_append] at hl
    refine .qualifiedGeneric (hl _ (Or.inr (Or.inl (Or.inl rfl))) hp)
      (hl _ (Or.inr (Or.inl (Or.inr (Or.inl rfl)))) hn) (hl _ (Or.inl rfl) ha) ?_
    exact fun a hm => (ih a hm).2 fun l hl' =>
      hl l (Or.inr (Or.inr (mem_typesLeaves.2 ⟨a, hm, hl'⟩)))
  | unsupported hu => exact fun hl => .unsupported (hl _ (by simp [TypeExpr.leaves]) hu)

/-! The same for the parts of types, for conditions that hold of every leaf. -/

section Imp

variable (hl : ∀ l, ok l → ok' l)
include hl

theorem IsParamOf.imp {t : TypeExpr} (h : IsParamOf (IsType ok erased) t) :
    IsParamOf (IsType ok' erased) t :=
  h.mono fun _ ht => ht.mono fun l _ => hl l

theorem IsConstraintOf.imp {t : TypeExpr} (h : IsConstraintOf (IsType ok erased) t) :
    IsConstraintOf (IsType ok' erased) t :=
  h.mono fun _ ht => ht.mono fun l _ => hl l

theorem IsSignatureOf.imp {s : Signature} (h : IsSignatureOf ok erased (IsType ok erased) s) :
    IsSignatureOf ok' erased (IsType ok' erased) s :=
  (h.mono fun _ ht hl => ht.mono hl).transfer fun l _ => hl l

theorem IsElemOf.imp {e : InterfaceElem} (h : IsElemOf ok erased (IsType ok erased) e) :
    IsElemOf ok' erased (IsType ok' erased) e :=
  (h.mono fun _ ht hl => ht.mono hl).transfer fun l _ => hl l

theorem IsParams.imp {fs : List FieldGroup} (h : IsParams ok erased fs) :
    IsParams ok' erased fs :=
  ⟨h.uniform, fun f hf n hn => hl _ (h.names f hf n hn), fun f hf => (h.types f hf).imp hl⟩

theorem IsTypeParam.imp {f : FieldGroup} (h : IsTypeParam ok erased f) :
    IsTypeParam ok' erased f :=
  ⟨h.named, fun n hn => hl _ (h.names n hn), h.constraint.imp hl⟩

end Imp

/-! ## What the leaves satisfy -/

/-- Whether some leaves satisfy a condition. The entries of interfaces need not. -/
def AllLeaves (ok : Leaf → Prop) (ls : List Leaf) : Prop := ∀ l ∈ ls, l = .entry ∨ ok l

theorem AllLeaves.append {ls ms : List Leaf} (hl : AllLeaves ok ls) (hm : AllLeaves ok ms) :
    AllLeaves ok (ls ++ ms) := List.forall_mem_append.2 ⟨hl, hm⟩

theorem AllLeaves.cons {l : Leaf} {ls : List Leaf} (hl : ok l) (h : AllLeaves ok ls) :
    AllLeaves ok (l :: ls) := List.forall_mem_cons.2 ⟨Or.inr hl, h⟩

theorem allLeaves_nil : AllLeaves ok [] := List.forall_mem_nil _

theorem allLeaves_types {ts : List TypeExpr} (h : ∀ t ∈ ts, AllLeaves ok t.leaves) :
    AllLeaves ok (typesLeaves ts) := by
  intro l hl
  obtain ⟨t, ht, hl⟩ := mem_typesLeaves.1 hl
  exact h t ht l hl

theorem NamesOk.leaves {fs : List FieldGroup} (h : NamesOk ok fs)
    (ht : ∀ f ∈ fs, AllLeaves ok f.type.leaves) : AllLeaves ok (fieldsLeaves fs) := by
  intro l hl
  obtain ⟨f, hf, hl⟩ := mem_fieldsLeaves.1 hl
  rcases List.mem_append.1 hl with hl | hl
  · obtain ⟨n, hn, rfl⟩ := List.mem_map.1 hl
    exact Or.inr (h f hf n hn)
  · exact ht f hf l hl

/-- What `IsType.leaves` shows of a type. -/
def HasLeaves (ok : Leaf → Prop) (t : TypeExpr) : Prop := AllLeaves ok t.leaves

theorem IsParamOf.leaves {t : TypeExpr} (h : IsParamOf (HasLeaves ok) t) : HasLeaves ok t := by
  cases h with
  | type h => exact h
  | variadic h =>
    rw [HasLeaves, TypeExpr.leaves]
    exact h

theorem IsSignatureOf.leaves {s : Signature} (h : IsSignatureOf ok erased (HasLeaves ok) s) :
    AllLeaves ok s.leaves := by
  cases h with
  | plain _ hn hp =>
    rw [Signature.leaves, fieldsLeaves, resultsLeaves, List.nil_append, List.append_nil]
    exact hn.leaves fun f hf => (hp f hf).leaves
  | results _ hn hp _ hn' hp' _ =>
    rw [Signature.leaves, fieldsLeaves, resultsLeaves, List.nil_append]
    exact (hn.leaves fun f hf => (hp f hf).leaves).append
      (hn'.leaves fun f hf => (hp' f hf).leaves)

theorem IsTermOf.leaves {t : TypeExpr} (h : IsTermOf (HasLeaves ok) t) : HasLeaves ok t := by
  cases h with
  | type h => exact h
  | tilde h =>
    rw [HasLeaves, TypeExpr.leaves]
    exact h

theorem IsConstraintOf.leaves {t : TypeExpr} (h : IsConstraintOf (HasLeaves ok) t) :
    HasLeaves ok t := by
  cases h with
  | term h => exact h.leaves
  | union _ h =>
    rw [HasLeaves, TypeExpr.leaves]
    exact allLeaves_types fun t ht => (h t ht).leaves

theorem IsElemOf.leaves {e : InterfaceElem} (h : IsElemOf ok erased (HasLeaves ok) e)
    (he : ¬ ok .entry) : AllLeaves ok (elemsLeaves [e]) := by
  cases h with
  | method hn h =>
    rw [elemsLeaves, elemsLeaves, List.append_nil]
    exact .cons hn h.leaves
  | embedded h =>
    rw [elemsLeaves, elemsLeaves, List.append_nil]
    exact List.forall_mem_cons.2 ⟨Or.inl rfl, h.leaves⟩
  | entry h => exact absurd h he

/-- **The leaves of a type satisfy their condition**, if interfaces have no entries of other kinds. -/
theorem IsType.leaves {t : TypeExpr} (h : IsType ok erased t) (he : ¬ ok .entry) :
    AllLeaves ok t.leaves := by
  suffices ht : HasLeaves ok t from ht
  -- The leaves of a type are its own and those of its parts.
  induction h with
  | ident hn =>
    rw [HasLeaves, TypeExpr.leaves]
    exact .cons hn allLeaves_nil
  | qualified hp hn =>
    rw [HasLeaves, TypeExpr.leaves]
    exact .cons hp (.cons hn allLeaves_nil)
  | pointer _ ih | chan _ ih =>
    rw [HasLeaves, TypeExpr.leaves]
    exact ih
  | slice _ ih =>
    rw [HasLeaves, TypeExpr.leaves, lengthLeaves]
    exact ih
  | array hl _ ih =>
    rw [HasLeaves, TypeExpr.leaves, lengthLeaves, TypeExpr.leaves]
    exact .cons hl ih
  | func _ hs =>
    rw [HasLeaves, TypeExpr.leaves]
    exact (hs.mono fun _ h => h.2).leaves
  | map _ _ ihk ihv =>
    rw [HasLeaves, TypeExpr.leaves]
    exact AllLeaves.append ihk ihv
  | struct _ hn ih =>
    rw [HasLeaves, TypeExpr.leaves]
    exact hn.leaves fun f hf => (ih f hf).2
  | interface _ ih =>
    rw [HasLeaves, TypeExpr.leaves]
    intro l hl
    obtain ⟨e, hm, hl⟩ := mem_elemsLeaves.1 hl
    exact ((ih e hm).mono fun _ h => h.2).leaves he l hl
  | generic _ hn ha ih =>
    rw [HasLeaves, TypeExpr.leaves, TypeExpr.leaves]
    exact .cons ha (.cons hn (allLeaves_types fun a hm => (ih a hm).2))
  | qualifiedGeneric _ hp hn ha ih =>
    rw [HasLeaves, TypeExpr.leaves, TypeExpr.leaves]
    exact .cons ha (.cons hp (.cons hn (allLeaves_types fun a hm => (ih a hm).2)))
  | unsupported hu =>
    rw [HasLeaves, TypeExpr.leaves]
    exact .cons hu allLeaves_nil

end Leaves

end Understudy.Source

import Understudy.Proofs.ParsedFiles
import Understudy.Proofs.Segments

/-!
# The segments of files

Which segments each parser of types and declarations reads. What is kept of a file besides its names
(`SourceFile.extracts`) stands in the tree in the order in which it is read, so

> **the tokens of a file are segments that keep what the file keeps** (`parse_segments`).
-/

set_option autoImplicit false

namespace Understudy.Source

open Understudy.Source.Parser

/-! ## What types keep -/

/-- What is kept of a leaf. -/
def Leaf.extract? : Leaf → Option Extract
  | .qualifier package => some (.reference package)
  | .length text => some (.length text)
  | .unsupported text => some (.unsupported text)
  | .name _ | .arity _ | .entry => none

/-- What is kept of some leaves. -/
def leafExtracts (ls : List Leaf) : List Extract := ls.filterMap Leaf.extract?

@[simp] theorem leafExtracts_nil : leafExtracts [] = [] := rfl

@[simp] theorem leafExtracts_name (s : String) (ls : List Leaf) :
    leafExtracts (.name s :: ls) = leafExtracts ls := rfl

@[simp] theorem leafExtracts_arity (n : Nat) (ls : List Leaf) :
    leafExtracts (.arity n :: ls) = leafExtracts ls := rfl

@[simp] theorem leafExtracts_entry (ls : List Leaf) :
    leafExtracts (.entry :: ls) = leafExtracts ls := rfl

@[simp] theorem leafExtracts_append (ls ms : List Leaf) :
    leafExtracts (ls ++ ms) = leafExtracts ls ++ leafExtracts ms := List.filterMap_append

@[simp] theorem leafExtracts_names (names : List String) :
    leafExtracts (names.map .name) = [] := by
  induction names with
  | nil => rfl
  | cons n names ih => exact ih

theorem leafExtracts_flatMap {α : Type} (f : α → List Leaf) (xs : List α) :
    xs.flatMap (fun x => leafExtracts (f x)) = leafExtracts (xs.flatMap f) :=
  (List.filterMap_flatMap ..).symm

/-! ## Parts of types -/

section Parts

variable {type : Parser TypeExpr} (ht : ∀ a, Reads a a [] type fun t => leafExtracts t.leaves)
include ht

theorem reads_paramEntry (a : Nat) :
    Reads a a [] (paramEntry type) fun entry => leafExtracts entry.2.leaves := by
  have hentry : ∀ name : Option String, Reads a a [] (do
      if ← eat .ellipsis then return (name, .ellipsis (← type))
      else return (name, ← type)) fun entry => leafExtracts entry.2.leaves :=
    fun name => .eat rfl ((ht a).bind fun t => reads_pure rfl) ((ht a).bind fun t => reads_pure rfl)
  refine .remaining fun ts => reads_ite (fun _ => ?_) (fun _ => ?_) ts
  · exact Reads.bind (reads_ident.map (h := fun _ => []) fun _ => rfl) fun name => hentry name
  · exact Reads.bind (reads_pure (g := fun _ => []) rfl) fun name => hentry name

omit ht in
theorem groupNamed_extracts {pending : List String} {entries : List ParamEntry}
    {fs : List FieldGroup} (h : groupNamed pending entries = some fs) :
    leafExtracts (entries.flatMap fun e => e.2.leaves) = leafExtracts (fieldsLeaves fs) := by
  fun_induction groupNamed pending entries generalizing fs with
  | case1 pending hp =>
    cases h
    rfl
  | case2 => cases h
  | case3 pending name type entries ih =>
    obtain ⟨gs, hg, rfl⟩ := Option.map_eq_some_iff.1 h
    simp [fieldsLeaves, ih hg]
  | case4 pending name entries ih => simpa [TypeExpr.leaves] using ih h
  | case5 => cases h

omit ht in
/-- The entries of a parameter list keep what its fields keep. -/
theorem groupParams_extracts {entries : List ParamEntry} {fs : List FieldGroup}
    (h : groupParams entries = some fs) :
    leafExtracts (entries.flatMap fun e => e.2.leaves) = leafExtracts (fieldsLeaves fs) := by
  rw [groupParams] at h
  split at h
  · cases h
    rw [fieldsLeaves_eq, List.flatMap_map]
    rfl
  · exact groupNamed_extracts h

theorem reads_params (a : Nat) :
    Reads a a [] (params type) fun fs => leafExtracts (fieldsLeaves fs) := by
  refine .expect rfl fun _ => (reads_commaList (reads_paramEntry ht) (fun _ => rfl) _ a).bind
    fun entries => ?_
  split
  · next fs h =>
    refine reads_pure ?_
    rw [List.nil_append, leafExtracts_flatMap, groupParams_extracts h]
  · exact reads_fail _

theorem reads_results (a : Nat) :
    Reads a a [] (results type) fun rs => leafExtracts (resultsLeaves rs) := by
  refine .peek (reads_pure rfl) fun t ts kind _ => ?_
  split
  · exact (reads_params ht a _).bind fun fs => reads_pure rfl
  · refine reads_ite (fun _ => ?_) (fun _ => reads_pure rfl) _
    exact (ht a).bind fun t => reads_pure (by simp [resultsLeaves, fieldsLeaves])
  · exact reads_pure rfl _

theorem reads_signature (a : Nat) :
    Reads a a [] (signature type) fun s => leafExtracts s.leaves := by
  refine (reads_params ht a).bind fun ps => (reads_results ht a).bind fun rs => reads_pure ?_
  simp [Signature.leaves, fieldsLeaves]

theorem reads_typeTerm (a : Nat) :
    Reads a a [] (typeTerm type) fun t => leafExtracts t.leaves :=
  .eat rfl ((ht a).bind fun _ => reads_pure rfl) (ht a)

theorem reads_typeElem (a : Nat) :
    Reads a a [] (typeElem type) fun t => leafExtracts t.leaves := by
  refine (reads_separated (reads_typeTerm ht) (fun _ => rfl) a).bind fun terms => ?_
  split
  · exact reads_pure (by simp)
  · refine reads_pure ?_
    rw [List.nil_append, leafExtracts_flatMap, TypeExpr.leaves, typesLeaves_eq]

theorem reads_typeParamsLoop (n a : Nat) (pending : List String) :
    Reads (a + 1) a [] (typeParamsLoop type n pending)
      fun fs => leafExtracts (fieldsLeaves fs) := by
  induction n generalizing pending with
  | zero => exact reads_exhaust
  | succ n ih =>
    rw [typeParamsLoop]
    refine .eat rfl ?_ (reads_ident.bind fun name => .eat rfl (ih _) ?_)
    · show Reads _ _ _ (if pending.isEmpty then pure [] else fail _) _
      exact reads_ite (fun _ => reads_pure rfl) fun _ => reads_fail _
    · refine (reads_typeElem ht (a + 1)).bind fun t => ?_
      have hrest : Reads (a + 1) a (leafExtracts t.leaves)
          (do return .mk (pending ++ [name]) t :: (← typeParamsLoop type n []))
          fun fs => leafExtracts (fieldsLeaves fs) :=
        (ih []).bind fun fs => reads_pure (by simp [fieldsLeaves])
      exact .isAt (fun _ _ _ => hrest _) (.expect rfl fun _ => hrest)

theorem reads_typeParams (a : Nat) :
    Reads a a [] (typeParams type) fun fs => leafExtracts (fieldsLeaves fs) :=
  .expect rfl fun _ => .remaining fun ts => reads_typeParamsLoop ht _ a [] ts

/-! ## Structs and interfaces -/

omit ht in
theorem reads_idents (a : Nat) : Reads a a [] idents fun _ => [] := by
  have hcomma : ∀ d, Kind.comma.plainStep d = some d := fun _ => rfl
  have h := reads_separated (fun _ => reads_ident) hcomma a
  rwa [funext flatMap_nothing] at h

theorem reads_structField (a : Nat) :
    Reads a a [] (structField type) fun f => leafExtracts f.leaves := by
  have htag : ∀ names : List String, Reads a a [] (type >>= fieldEnd names)
      fun f => leafExtracts f.leaves := by
    intro names
    refine (ht a).bind fun t => ?_
    have hfield : Reads a a (leafExtracts t.leaves) (pure (FieldGroup.mk names t))
        fun f => leafExtracts f.leaves :=
      reads_pure (by simp [FieldGroup.leaves])
    refine .peek hfield fun u us kind hk => ?_
    split
    · next h =>
      cases h
      exact .advance (by rw [hk]; rfl) hfield
    · next h =>
      cases h
      exact .advance (by rw [hk]; rfl) hfield
    · exact hfield _
  refine .remaining fun ts => reads_ite (fun _ => ?_) (fun _ => ?_) ts
  · exact (reads_idents a).bind fun names => htag names
  · exact Reads.bind (reads_pure (g := fun _ => []) rfl) fun names => htag names

theorem reads_structType (a : Nat) :
    Reads a a [] (structType type) fun t => leafExtracts t.leaves := by
  refine .expect rfl fun _ => .expect rfl fun _ => ?_
  refine (reads_semicolonList (reads_structField ht) (fun _ => rfl) _ a).bind fun fs => ?_
  refine reads_pure ?_
  rw [List.nil_append, leafExtracts_flatMap, TypeExpr.leaves, fieldsLeaves_eq]

theorem reads_interfaceElem (a : Nat) :
    Reads a a [] (interfaceElem type) fun e => leafExtracts (elemsLeaves [e]) := by
  refine .remaining fun ts => reads_ite (fun _ => ?_) (fun _ => ?_) ts
  · refine reads_ident.bind fun name => (reads_signature ht a).bind fun s => reads_pure ?_
    simp [elemsLeaves]
  · exact (reads_typeElem ht a).bind fun t => reads_pure (by simp [elemsLeaves])

theorem reads_interfaceType (a : Nat) :
    Reads a a [] (interfaceType type) fun t => leafExtracts t.leaves := by
  refine .expect rfl fun _ => .expect rfl fun _ => ?_
  refine (reads_semicolonList (reads_interfaceElem ht) (fun _ => rfl) _ a).bind fun es => ?_
  refine reads_pure ?_
  rw [List.nil_append, leafExtracts_flatMap, TypeExpr.leaves, ← elemsLeaves_eq]

/-! ## Types -/

/-- A reference to a package is a segment of its own. -/
theorem reads_typeName (a : Nat) :
    Reads a a [] (typeName type) fun t => leafExtracts t.leaves := by
  have hargs : ∀ base : TypeExpr, Reads a a (leafExtracts base.leaves) (do
      if ← eat .lbrack then
        return .instantiated base (← commaList .rbrack "',' or ']'" type)
      else return base) fun t => leafExtracts t.leaves := by
    intro base
    refine .eat rfl ?_ (reads_pure rfl)
    refine (reads_commaList ht (fun _ => rfl) _ a).bind fun args => reads_pure ?_
    rw [leafExtracts_flatMap, TypeExpr.leaves, leafExtracts_arity, leafExtracts_append,
      typesLeaves_eq]
  intro ts v rest he
  obtain ⟨first, _, hfirst, hbase⟩ := bind_eq_ok he
  obtain ⟨t, rfl, ht, rfl⟩ := ident_eq_ok hfirst
  obtain ⟨dotted, _, hdot, hrest⟩ := bind_eq_ok hbase
  obtain ⟨rfl, d, rfl, hd⟩ | ⟨rfl, rfl⟩ := eat_eq_ok hdot
  · obtain ⟨base, _, hmap, hend⟩ := bind_eq_ok hrest
    obtain ⟨name, _, hname, hpure⟩ :=
      bind_eq_ok (f := fun n => pure (TypeExpr.qualified t.text n)) hmap
    cases hpure
    obtain ⟨n, rfl, hn, rfl⟩ := ident_eq_ok hname
    obtain ⟨kept, hkept, hg⟩ := hargs _ _ _ _ hend
    exact ⟨.reference t.text :: kept, .reference ht hd hn hkept, hg⟩
  · exact ReadsFrom.cons (by rw [ht]; rfl) (hargs (.ident t.text) _) hrest

/-- The length of an array is kept. -/
theorem reads_arrayType (a : Nat) :
    Reads a a [] (arrayType type) fun t => leafExtracts t.leaves := by
  intro ts v rest he
  obtain ⟨opening, mid, hopening, hmid⟩ := bind_eq_ok he
  clear he
  obtain ⟨rfl, ho⟩ := expect_eq_ok hopening
  obtain ⟨eaten, after, heat, hrest⟩ := bind_eq_ok hmid
  clear hmid
  obtain ⟨rfl, close, rfl, hc⟩ | ⟨rfl, rfl⟩ := eat_eq_ok heat
  · have hslice : Reads a a [] (do return TypeExpr.array none (← type))
        fun t => leafExtracts t.leaves :=
      (ht a).bind fun t => reads_pure rfl
    obtain ⟨kept, hkept, hg⟩ := hslice _ _ _ hrest
    refine ⟨kept, .token (b := a + 1) (by rw [ho]; rfl) (.token (by rw [hc]; rfl) hkept), hg⟩
  · rw [if_neg Bool.false_ne_true, bind_apply, remaining_apply] at hrest
    dsimp only at hrest
    -- The tokens up to the closing bracket are taken as a whole, whatever they are.
    cases hs : Token.splitClose? 0 mid with
    | none =>
      rw [hs] at hrest
      cases hrest
    | some split =>
      obtain ⟨run, close, behind⟩ := split
      rw [hs] at hrest
      have hlength : Reads a a (Segment.extracts [.enclosed opening run close]) (do
          let elem ← type
          return TypeExpr.array (some (.literal
            (String.ofList (Text.trim (Token.inner run close).toList)))) elem)
          fun t => leafExtracts t.leaves := by
        have hkept : Segment.extracts [.enclosed opening run close] =
            [.length (String.ofList (Text.trim (Token.inner run close).toList))] := by
          simp [Segment.extracts, Segment.extract?, ho]
        rw [hkept]
        exact (ht a).bind fun t => reads_pure rfl
      exact hlength.behind (.enclosed (Or.inr ho) hs) hrest

end Parts

/-- The run is kept, and so it is not empty. -/
theorem reads_unsupportedType (a : Nat) :
    Reads a a [] unsupportedType fun t => leafExtracts t.leaves := by
  intro ts v rest he
  obtain ⟨run, hne, hs, rfl⟩ := unsupportedType_eq_ok he
  have hcovers := Covers.text (a := a) none (by simp) hs hne (fun _ h => h) (by decide)
  exact ⟨_, hcovers, rfl⟩

/-- **What is read of a type.** -/
theorem reads_typeAt (n a : Nat) :
    Reads a a [] (typeAt n) fun t => leafExtracts t.leaves := by
  induction n generalizing a with
  | zero => exact reads_exhaust
  | succ n ih =>
    -- The branches of the parser in their order; each is made of combinators with their own rules.
    refine .peek (reads_fail _) fun t ts kind hk => ?_
    split
    · next h => cases h
    · exact reads_typeName ih a _
    · next h =>
      cases h
      exact .advance (by rw [hk]; rfl) ((ih a).bind fun t => reads_pure rfl)
    · exact reads_arrayType ih a _
    · next h =>
      cases h
      refine .advance (by rw [hk]; rfl) ((ih (a + 1)).bind fun t => ?_)
      exact .expect rfl fun _ => reads_pure rfl
    · next h =>
      cases h
      exact .advance (by rw [hk]; rfl) ((reads_signature ih a).bind fun s => reads_pure rfl)
    · next h =>
      cases h
      refine .advance (by rw [hk]; rfl) (.expect rfl fun _ => (ih (a + 1)).bind fun key => ?_)
      refine .expect rfl fun _ => (ih a).bind fun value => reads_pure ?_
      simp [TypeExpr.leaves]
    · next h =>
      cases h
      have helem : ∀ dir, Reads a a [] (do return TypeExpr.chan dir (← typeAt n))
          fun t => leafExtracts t.leaves :=
        fun dir => (ih a).bind fun t => reads_pure rfl
      exact .advance (by rw [hk]; rfl) (.eat rfl (helem _) (helem _))
    · next h =>
      cases h
      exact .advance (by rw [hk]; rfl) (.expect rfl fun _ => (ih a).bind fun t => reads_pure rfl)
    · exact reads_structType ih a _
    · exact reads_interfaceType ih a _
    · exact reads_unsupportedType a _

theorem reads_typeExpr (a : Nat) : Reads a a [] typeExpr fun t => leafExtracts t.leaves :=
  .remaining fun ts => reads_typeAt _ a ts

/-! ## Declarations -/

/-- What an entry of a `const` or `var` declaration keeps. -/
def ValueSpec.extracts (spec : ValueSpec) : List Extract :=
  leafExtracts spec.leaves ++ spec.values.map fun v => .value v.text

/-- What a function keeps. -/
def FuncDecl.extracts (decl : FuncDecl) : List Extract :=
  leafExtracts decl.leaves ++ decl.body.toList.map .body

/-- What a declaration keeps. -/
def Decl.extracts : Decl → List Extract
  | .const specs | .var specs => specs.flatMap ValueSpec.extracts
  | .type specs => specs.flatMap fun spec => leafExtracts spec.leaves
  | .func decl => decl.extracts

/-- What a part of a file keeps. -/
def TopLevel.extracts : TopLevel → List Extract
  | .imports _ => []
  | .decl d => d.extracts

/-- What a file keeps of its source text, names and imports apart. -/
def SourceFile.extracts (file : SourceFile) : List Extract := file.decls.flatMap Decl.extracts

/-- An initializer is kept. It stands behind a sign. -/
theorem covers_initializer {sign : Token} (hsign : sign.kind = .assign ∨ sign.kind = .comma)
    {ts rest : List Token} {v : Initializer} (h : initializer ts = .ok (v, rest)) (a : Nat) :
    Covers (sign :: ts) rest a a [.value v.text] := by
  obtain ⟨run, hne, hs, rfl⟩ := initializer_eq_ok h
  exact .text (some sign) (by simpa using hsign) hs hne (by decide) (by decide)

theorem reads_moreInitializers (n a : Nat) :
    Reads a a [] (separatedTail .comma initializer n) fun vs => vs.map fun v => .value v.text := by
  induction n with
  | zero => exact reads_exhaust
  | succ n ih =>
    intro ts vs rest he
    rw [separatedTail] at he
    obtain ⟨eaten, mid, heat, hmid⟩ := bind_eq_ok he
    clear he
    obtain ⟨rfl, comma, rfl, hcomma⟩ | ⟨rfl, rfl⟩ := eat_eq_ok heat
    · obtain ⟨v, _, hv, hmore⟩ := bind_eq_ok hmid
      have hall : Reads a a [.value v.text] (do return v :: (← separatedTail .comma initializer n))
          fun vs => vs.map fun v => .value v.text :=
        ih.bind fun vs => reads_pure rfl
      exact hall.behind (covers_initializer (Or.inr hcomma) hv a) hmore
    · cases hmid
      exact ⟨[], .nil, rfl⟩

/-- The initializers of an entry, with the equals sign in front of them. -/
theorem covers_initializers {sign : Token} (hsign : sign.kind = .assign) {ts rest : List Token}
    {vs : List Initializer} (h : separated .comma initializer ts = .ok (vs, rest)) (a : Nat) :
    Covers (sign :: ts) rest a a (vs.map fun v => .value v.text) := by
  obtain ⟨v, _, hv, hmore⟩ := bind_eq_ok h
  have hall : Reads a a [.value v.text] (do
      let ts ← remaining
      return v :: (← separatedTail .comma initializer (ts.length + 1)))
      fun vs => vs.map fun v => .value v.text :=
    .remaining fun ts => ReadsFrom.bind (reads_moreInitializers _ a ts) fun vs => reads_pure rfl
  obtain ⟨kept, hkept, hg⟩ := hall.behind (covers_initializer (Or.inl hsign) hv a) hmore
  rwa [hg]

theorem reads_valueSpec (a : Nat) : Reads a a [] valueSpec ValueSpec.extracts := by
  have hvalues : ∀ (names : List String) (type : Option TypeExpr),
      Reads a a (type.toList.flatMap fun t => leafExtracts t.leaves) (do
        let values ← if ← eat .assign then separated .comma initializer else pure []
        return { names, type, values }) ValueSpec.extracts := by
    intro names type
    have hleaves : (type.toList.flatMap fun t => leafExtracts t.leaves) =
        leafExtracts (ValueSpec.leaves ⟨names, type, []⟩) := by
      rw [leafExtracts_flatMap, ValueSpec.leaves, leafExtracts_append, leafExtracts_names]
      rfl
    rw [hleaves]
    intro ts spec rest he
    obtain ⟨eaten, mid, heat, hmid⟩ := bind_eq_ok he
    clear he
    obtain ⟨rfl, sign, rfl, hsign⟩ | ⟨rfl, rfl⟩ := eat_eq_ok heat
    · obtain ⟨values, _, hvalues, hspec⟩ := bind_eq_ok (p := separated .comma initializer) hmid
      cases hspec
      exact ⟨_, covers_initializers hsign hvalues a, rfl⟩
    · cases hmid
      exact ⟨[], .nil, rfl⟩
  have htype : Reads a a [] (some <$> typeExpr)
      fun type => type.toList.flatMap fun t => leafExtracts t.leaves :=
    (reads_typeExpr a).map fun t => by simp
  have hnone : ∀ names, Reads a a [] (do
      let values ← if ← eat .assign then separated .comma initializer else pure []
      return { names, type := none, values }) ValueSpec.extracts :=
    fun names => hvalues names none
  -- A type is read unless the token behind the names shows that there is none.
  refine (reads_idents a).bind fun names => .peek (hnone names) fun t ts kind _ => ?_
  split
  · exact hnone names _
  · exact hnone names _
  · exact hnone names _
  · exact hnone names _
  · exact Reads.bind htype (fun type => hvalues names type) _

theorem reads_typeSpec (a : Nat) :
    Reads a a [] typeSpec fun spec => leafExtracts spec.leaves := by
  have htype : ∀ (name : String) (params : List FieldGroup) (isAlias : Bool),
      Reads a a (leafExtracts (fieldsLeaves params)) (do
        let type ← typeExpr
        return TypeSpec.mk name params isAlias type) fun spec => leafExtracts spec.leaves :=
    fun name params isAlias => (reads_typeExpr a).bind fun t =>
      reads_pure (by simp [TypeSpec.leaves])
  have hrest : ∀ (name : String) (params : List FieldGroup),
      Reads a a (leafExtracts (fieldsLeaves params)) (do
        let isAlias ← eat .assign
        let type ← typeExpr
        return TypeSpec.mk name params isAlias type) fun spec => leafExtracts spec.leaves :=
    fun name params => .eat rfl (htype name params true) (htype name params false)
  refine reads_ident.bind fun name => .remaining fun ts => reads_ite (fun _ => ?_) (fun _ => ?_) ts
  · exact (reads_typeParams reads_typeExpr a).bind fun params => hrest name params
  · exact Reads.bind (reads_pure (g := fun fs => leafExtracts (fieldsLeaves fs)) rfl)
      fun params => hrest name params

/-- The text of a body is what stands between its braces. -/
theorem body_eq_ok {t : Token} {ts rest : List Token} {s : String}
    (h : body (t :: ts) = .ok (s, rest)) :
    ∃ run close, Token.splitClose? 0 ts = some (run, close, rest) ∧ s = Token.inner run close := by
  rw [body, bind_apply, remaining_apply] at h
  dsimp only at h
  cases hs : Token.splitClose? 0 ts with
  | none =>
    rw [hs] at h
    cases h
  | some split =>
    rw [hs] at h
    cases h
    exact ⟨_, _, rfl, rfl⟩

theorem reads_body {t : Token} (hk : t.kind = .lbrace) (ts : List Token) (a : Nat) :
    ReadsFrom (t :: ts) a a [] body fun b => [.body b] := by
  intro v rest he
  obtain ⟨run, close, hs, rfl⟩ := body_eq_ok he
  have hkept : Segment.extracts [.enclosed t run close] = [.body (Token.inner run close)] := by
    simp [Segment.extracts, Segment.extract?, hk]
  exact ⟨_, .enclosed (Or.inl hk) hs, hkept.symm⟩

theorem reads_funcDecl (a : Nat) : Reads a a [] funcDecl FuncDecl.extracts := by
  -- From the last part to the first, since what is read before a part is owed to it.
  have hbody : ∀ (receiver : Option (List FieldGroup)) (name : String)
      (typeParams ps : List FieldGroup) (rs : Option (List FieldGroup)),
      Reads a a (leafExtracts (FuncDecl.leaves ⟨receiver, name, .mk typeParams ps rs, none⟩)) (do
        let body ← if ← isAt .lbrace then some <$> body else pure none
        return FuncDecl.mk receiver name (.mk typeParams ps rs) body) FuncDecl.extracts := by
    intro receiver name typeParams ps rs
    refine .isAt (fun t ts hk => ?_) ?_
    · exact ReadsFrom.bind ((reads_body hk ts a).map (h := fun b => b.toList.map .body)
        fun b => rfl) fun b => reads_pure rfl
    · exact Reads.bind (reads_pure (g := fun b => b.toList.map .body) rfl)
        fun b => reads_pure rfl
  have hsignature : ∀ (receiver : Option (List FieldGroup)) (name : String)
      (typeParams : List FieldGroup), Reads a a
      (leafExtracts (resultsLeaves receiver ++ fieldsLeaves typeParams)) (do
        let ps ← params typeExpr
        let rs ← results typeExpr
        let body ← if ← isAt .lbrace then some <$> body else pure none
        return FuncDecl.mk receiver name (.mk typeParams ps rs) body) FuncDecl.extracts := by
    intro receiver name typeParams
    refine (reads_params reads_typeExpr a).bind fun ps =>
      (reads_results reads_typeExpr a).bind fun rs => ?_
    refine (hbody receiver name typeParams ps rs).owing ?_
    simp [FuncDecl.leaves, Signature.leaves]
  have hname : ∀ receiver : Option (List FieldGroup), Reads a a
      (leafExtracts (resultsLeaves receiver)) (do
        let name ← ident
        let typeParams ← if ← isAt .lbrack then typeParams typeExpr else pure []
        let ps ← params typeExpr
        let rs ← results typeExpr
        let body ← if ← isAt .lbrace then some <$> body else pure none
        return FuncDecl.mk receiver name (.mk typeParams ps rs) body) FuncDecl.extracts := by
    intro receiver
    refine reads_ident.bind fun name => .isAt (fun t ts _ => ?_) ?_
    · refine ReadsFrom.bind (reads_typeParams reads_typeExpr a _) fun typeParams => ?_
      exact (hsignature receiver name typeParams).owing (by simp)
    · refine Reads.bind (reads_pure (g := fun fs => leafExtracts (fieldsLeaves fs)) rfl)
        fun typeParams => ?_
      exact (hsignature receiver name typeParams).owing (by simp)
  refine .expect rfl fun _ => .isAt (fun t ts _ => ?_) ?_
  · exact ReadsFrom.bind (((reads_params reads_typeExpr a) _).map
      (h := fun rs => leafExtracts (resultsLeaves rs)) fun fs => rfl) fun receiver => hname receiver
  · exact Reads.bind (reads_pure (g := fun rs => leafExtracts (resultsLeaves rs)) rfl)
      fun receiver => hname receiver

/-! ## Imports -/

theorem importSpec_eq_ok {ts rest : List Token} {i : Import}
    (h : importSpec ts = .ok (i, rest)) :
    ∃ run, ts = run ++ rest ∧ ∀ t ∈ run, t.kind ∈ [Kind.ident, .dot, .string, .rawString] := by
  have hpath : ∀ (name : Option String) (us : List Token), importPath name us = .ok (i, rest) →
      ∃ t, us = t :: rest ∧ t.kind ∈ [Kind.ident, .dot, .string, .rawString] := by
    intro name us hp
    cases us with
    | nil => cases hp
    | cons t us =>
      rw [importPath, bind_apply, remaining_apply] at hp
      dsimp only at hp
      split at hp
      · next hk =>
        cases hp
        simp only [Bool.or_eq_true, beq_iff_eq] at hk
        exact ⟨t, rfl, by rcases hk with hk | hk <;> simp [hk]⟩
      · cases hp
  cases ts with
  | nil => cases h
  | cons t ts =>
    rw [importSpec, bind_apply, peek_cons] at h
    generalize hkind : some t.kind = kind at h
    dsimp only at h
    -- A name or a dot may stand in front of the path.
    split at h
    · obtain ⟨name, mid, hmap, hend⟩ := bind_eq_ok h
      obtain ⟨first, _, hfirst, hpure⟩ := bind_eq_ok (f := fun n => pure (some n)) hmap
      cases hpure
      obtain ⟨u, hu, hk, -⟩ := ident_eq_ok hfirst
      obtain ⟨v, rfl, hv⟩ := hpath _ _ hend
      refine ⟨[u, v], hu, ?_⟩
      simpa [hk] using hv
    · obtain ⟨u, rfl, hu⟩ := hpath _ _ h
      refine ⟨[t, u], rfl, ?_⟩
      simpa [Option.some.inj hkind] using hu
    · obtain ⟨u, hu, hk⟩ := hpath none (t :: ts) h
      exact ⟨[u], hu, by simpa using hk⟩

theorem importList_eq_ok {what : String} {n : Nat} {ts rest : List Token} {is : List Import}
    (h : semicolonListLoop .rparen what importSpec n ts = .ok (is, rest)) :
    ∃ specs cl, ts = specs ++ cl :: rest ∧ cl.kind = .rparen ∧
      ∀ t ∈ specs, t.kind ∈ [Kind.ident, .dot, .string, .rawString, .semi] := by
  induction n generalizing ts is with
  | zero => cases h
  | succ n ih =>
    rw [semicolonListLoop] at h
    obtain ⟨closed, _, hclose, hrest⟩ := bind_eq_ok h
    obtain ⟨rfl, cl, rfl, hcl⟩ | ⟨rfl, rfl⟩ := eat_eq_ok hclose
    · cases hrest
      exact ⟨[], cl, rfl, hcl, by simp⟩
    · obtain ⟨skipped, _, hsemi, hspec⟩ := bind_eq_ok hrest
      obtain ⟨rfl, u, rfl, hu⟩ | ⟨rfl, rfl⟩ := eat_eq_ok hsemi
      · obtain ⟨specs, cl, rfl, hcl, hk⟩ := ih hspec
        exact ⟨u :: specs, cl, rfl, hcl, by simpa [hu] using hk⟩
      · obtain ⟨first, mid, hfirst, hsep⟩ := bind_eq_ok hspec
        obtain ⟨run, rfl, hrun⟩ := importSpec_eq_ok hfirst
        -- Behind an entry the list goes on, with a semicolon in between or at the closing bracket.
        have hmore : ∀ us, (do
            return first :: (← semicolonListLoop .rparen what importSpec n) : Parser _) us =
              .ok (is, rest) → ∃ specs cl, us = specs ++ cl :: rest ∧ cl.kind = .rparen ∧
            ∀ t ∈ specs, t.kind ∈ [Kind.ident, .dot, .string, .rawString, .semi] := by
          intro us hus
          obtain ⟨is', _, hloop, hpure⟩ := bind_eq_ok hus
          cases hpure
          exact ih hloop
        have hkinds : ∀ t ∈ run, t.kind ∈ [Kind.ident, .dot, .string, .rawString, .semi] :=
          fun t ht => List.mem_append_left [Kind.semi] (hrun t ht)
        obtain ⟨atClose, _, hat, hend⟩ := bind_eq_ok hsep
        cases hat
        split at hend
        · obtain ⟨specs, cl, rfl, hcl, hk⟩ := hmore _ hend
          refine ⟨run ++ specs, cl, by simp, hcl, fun t ht => ?_⟩
          exact (List.mem_append.1 ht).elim (hkinds t) (hk t)
        · obtain ⟨u, _, hu, hlast⟩ := bind_eq_ok hend
          obtain ⟨rfl, huk⟩ := expect_eq_ok hu
          obtain ⟨specs, cl, rfl, hcl, hk⟩ := hmore _ hlast
          refine ⟨run ++ u :: specs, cl, by simp, hcl, fun t ht => ?_⟩
          rcases List.mem_append.1 ht with ht | ht
          · exact hkinds t ht
          · rcases List.mem_cons.1 ht with rfl | ht
            · simp [huk]
            · exact hk t ht

/-- An import declaration keeps nothing. -/
theorem importDecl_eq_ok {t : Token} {ts rest : List Token} {item : TopLevel}
    (ht : t.kind = .kwImport) (h : topLevel .kwImport (t :: ts) = .ok (item, rest)) :
    ∃ run, t :: ts = run ++ rest ∧ IsImportRun run ∧ item.extracts = [] := by
  obtain ⟨is, mid, hgroup, hpure⟩ := @bind_eq_ok _ _ (group importSpec) _ ts _ _ h
  cases hpure
  obtain ⟨opened, _, hopen, hrest⟩ := bind_eq_ok hgroup
  obtain ⟨rfl, op, rfl, hop⟩ | ⟨rfl, rfl⟩ := eat_eq_ok hopen
  · obtain ⟨specs, cl, rfl, hcl, hk⟩ := importList_eq_ok hrest
    refine ⟨t :: op :: (specs ++ [cl]), by simp, ?_, rfl⟩
    exact ⟨t, specs, ht, Or.inr ⟨op, cl, hop, hcl, rfl, hk⟩⟩
  · obtain ⟨i, _, hspec, hpure⟩ := bind_eq_ok hrest
    cases hpure
    obtain ⟨run, rfl, hk⟩ := importSpec_eq_ok hspec
    exact ⟨t :: run, rfl, ⟨t, run, ht, Or.inl ⟨rfl, hk⟩⟩, rfl⟩

/-! ## Files -/

theorem reads_group {α : Type} {spec : Parser α} {g : α → List Extract}
    (h : ∀ a, Reads a a [] spec g) (a : Nat) :
    Reads a a [] (group spec) fun vs => vs.flatMap g := by
  refine .eat rfl (reads_semicolonList h (fun _ => rfl) _ a) ?_
  exact (h a).bind fun v => reads_pure (by simp)

theorem reads_topLevel {t : Token} (ht : t.kind ≠ .kwImport) (ts : List Token) (a : Nat) :
    ReadsFrom (t :: ts) a a [] (topLevel t.kind) TopLevel.extracts := by
  generalize hk : t.kind = kind at ht
  unfold topLevel
  split
  · exact absurd rfl ht
  · exact .advance (by rw [hk]; rfl) ((reads_group reads_valueSpec a).bind fun specs =>
      reads_pure rfl)
  · exact .advance (by rw [hk]; rfl) ((reads_group reads_valueSpec a).bind fun specs =>
      reads_pure rfl)
  · exact .advance (by rw [hk]; rfl) ((reads_group reads_typeSpec a).bind fun specs =>
      reads_pure rfl)
  · exact (reads_funcDecl a _).bind fun decl => reads_pure rfl
  · exact reads_fail _ _

/-- A declaration is followed by a semicolon or the end of the file. -/
theorem endOfDecl_eq_ok {ts rest : List Token} {u : Unit} (h : endOfDecl ts = .ok (u, rest)) :
    (ts = [] ∧ rest = []) ∨ ∃ t, ts = t :: rest ∧ t.kind = .semi := by
  cases ts with
  | nil =>
    cases h
    exact Or.inl ⟨rfl, rfl⟩
  | cons t ts =>
    obtain ⟨eaten, _, heat, hrest⟩ := bind_eq_ok (p := eat .semi) h
    obtain ⟨rfl, u, hu, hk⟩ | ⟨rfl, -⟩ := eat_eq_ok heat
    · cases hrest
      exact Or.inr ⟨u, hu, hk⟩
    · cases hrest

/-- **What is read of a declaration** that ends where a declaration can end. -/
theorem covers_topLevel {t : Token} {ts mid : List Token} {item : TopLevel}
    (h : topLevel t.kind (t :: ts) = .ok (item, mid)) (hnext : ∀ u ∈ mid.head?, u.kind = .semi)
    (a : Nat) : Covers (t :: ts) mid a a item.extracts := by
  by_cases himport : t.kind = .kwImport
  · rw [himport] at h
    obtain ⟨run, hrun, hr, hnone⟩ := importDecl_eq_ok himport h
    rw [hrun, hnone]
    exact .imports hr hnext
  · obtain ⟨kept, hkept, hg⟩ := reads_topLevel himport ts a _ _ h
    rwa [hg]

/-- The segments of the declarations of a file, with the semicolons between them. All tokens are
read. -/
theorem topLevelsLoop_segments {n : Nat} {ts rest : List Token} {items : List TopLevel}
    (h : topLevelsLoop n ts = .ok (items, rest)) : rest = [] ∧ ∃ xs, ts = Segment.allTokens xs ∧
      Spans [] 0 xs 0 ∧ items.flatMap TopLevel.extracts = Segment.extracts xs := by
  have hsemi : ∀ {t : Token} {xs : List Segment}, t.kind = .semi → Spans [] 0 xs 0 →
      Spans [] 0 (.token t :: xs) 0 := by
    intro t xs hk hxs
    exact .token (by rw [hk]; decide) (by rw [hk]; decide) (by rw [hk]; rfl) hxs
  induction n generalizing ts items with
  | zero => cases h
  | succ n ih =>
    cases ts with
    | nil =>
      cases h
      exact ⟨rfl, [], rfl, .nil, rfl⟩
    | cons t ts =>
      rw [topLevelsLoop, bind_apply, peek_cons] at h
      generalize hkind : some t.kind = kind at h
      dsimp only at h
      split at h
      · cases hkind
      · obtain ⟨hrest, xs, hts, hxs, he⟩ := ih h
        have hts : ts = Segment.allTokens xs := hts
        rw [hts]
        exact ⟨hrest, .token t :: xs, rfl, hsemi (Option.some.inj hkind) hxs, he⟩
      · cases hkind
        obtain ⟨item, mid, hitem, h⟩ := bind_eq_ok h
        obtain ⟨_, behind, hend, h⟩ := bind_eq_ok h
        obtain ⟨more, _, hmore, h⟩ := bind_eq_ok h
        cases h
        obtain ⟨rfl, xs, rfl, hxs, he⟩ := ih hmore
        -- A declaration ends at a semicolon or at the end of the text, and an initializer there
        -- ends with it.
        have hmid : ∃ ys, mid = Segment.allTokens ys ∧ Spans [] 0 ys 0 ∧
            Segment.extracts ys = Segment.extracts xs ∧ ∀ u ∈ mid.head?, u.kind = .semi := by
          rcases endOfDecl_eq_ok hend with ⟨rfl, hnil⟩ | ⟨u, rfl, hk⟩
          · exact ⟨xs, hnil.symm, hxs, rfl, by simp⟩
          · exact ⟨.token u :: xs, rfl, hsemi hk hxs, rfl, by simpa using hk⟩
        obtain ⟨ys, rfl, hys, hkept, hnext⟩ := hmid
        obtain ⟨zs, hzs, hspans, hitem⟩ := (covers_topLevel hitem hnext 0).segments
        refine ⟨rfl, zs ++ ys, ?_, ?_, ?_⟩
        · rw [hzs, Segment.allTokens_append]
        · exact .append (by rwa [List.append_nil]) hys
        · rw [List.flatMap_cons, hitem, he, Segment.extracts_append, hkept]

theorem flatMap_declsOf {α : Type} {f : Decl → List α} {g : TopLevel → List α}
    (himports : ∀ is, g (.imports is) = []) (hdecl : ∀ d, g (.decl d) = f d)
    (items : List TopLevel) : (declsOf items).flatMap f = items.flatMap g := by
  induction items with
  | nil => rfl
  | cons item items ih =>
    rw [List.flatMap_cons, ← ih]
    cases item <;> simp [declsOf, himports, hdecl]

theorem extracts_declsOf (items : List TopLevel) :
    (declsOf items).flatMap Decl.extracts = items.flatMap TopLevel.extracts :=
  flatMap_declsOf (g := TopLevel.extracts) (fun _ => rfl) (fun _ => rfl) items

/-- The parts of a file: the package clause, and what stands behind it. -/
theorem file_parts {ts rest : List Token} {parsed : SourceFile}
    (h : file ts = .ok (parsed, rest)) : ∃ keyword name mid us items,
      ts = keyword :: name :: mid ∧ keyword.kind = .kwPackage ∧ name.kind = .ident ∧
      endOfDecl mid = .ok ((), us) ∧ topLevelsLoop (us.length + 1) us = .ok (items, rest) ∧
      parsed = {
        package := name.text
        imports := importsOf items
        decls := declsOf items
        isGenerated := isGeneratedHeader keyword.gap } := by
  obtain ⟨_, _, htokens, hclause⟩ := bind_eq_ok h
  obtain ⟨keyword, _, hkeyword, hname⟩ := bind_eq_ok hclause
  obtain ⟨package, mid, hpackage, hend⟩ := bind_eq_ok hname
  obtain ⟨⟨⟩, us, hends, hrest⟩ := bind_eq_ok hend
  obtain ⟨_, _, hus, hitems⟩ := bind_eq_ok hrest
  obtain ⟨items, _, hloop, hparsed⟩ := bind_eq_ok hitems
  cases htokens
  cases hus
  obtain ⟨rfl, hk⟩ := expect_eq_ok hkeyword
  obtain ⟨name, rfl, hn, rfl⟩ := ident_eq_ok hpackage
  cases hparsed
  exact ⟨keyword, name, mid, us, items, rfl, hk, hn, hends, hloop, rfl⟩

/-- **What is read of a file.** -/
theorem file_segments {ts rest : List Token} {parsed : SourceFile}
    (h : file ts = .ok (parsed, rest)) : rest = [] ∧ ∃ xs, ts = Segment.allTokens xs ∧
      Spans [] 0 xs 0 ∧ parsed.extracts = Segment.extracts xs := by
  obtain ⟨keyword, name, mid, us, items, rfl, hkeyword, hname, hend, hitems, rfl⟩ := file_parts h
  obtain ⟨rfl, xs, rfl, hxs, he⟩ := topLevelsLoop_segments hitems
  have hplain : ∀ {t : Token} {k : Kind} {xs : List Segment}, t.kind = k →
      k ∈ [Kind.kwPackage, .ident, .semi] → Spans [] 0 xs 0 → Spans [] 0 (.token t :: xs) 0 := by
    intro t k xs hk hm hxs
    have hall : ∀ k ∈ [Kind.kwPackage, .ident, .semi],
        k ≠ .dot ∧ k ≠ .kwImport ∧ k.bracketStep 0 = some 0 := by decide
    obtain ⟨hdot, himport, hstep⟩ := hall k hm
    exact .token (by rwa [hk]) (by rwa [hk]) (by rwa [hk]) hxs
  have hclause : ∀ {xs : List Segment}, Spans [] 0 xs 0 →
      Spans [] 0 (.token keyword :: .token name :: xs) 0 :=
    fun hxs => hplain hkeyword (by decide) (hplain hname (by decide) hxs)
  have hkept := (extracts_declsOf items).trans he
  rcases endOfDecl_eq_ok hend with ⟨rfl, hnil⟩ | ⟨t, rfl, ht⟩
  · refine ⟨rfl, .token keyword :: .token name :: xs, ?_, hclause hxs, hkept⟩
    rw [Segment.allTokens_cons, Segment.allTokens_cons, hnil]
    rfl
  · exact ⟨rfl, .token keyword :: .token name :: .token t :: xs, rfl,
      hclause (hplain ht (by decide) hxs), hkept⟩

/-- The parser of a file reads all tokens. -/
theorem file_rest {ts rest : List Token} {parsed : SourceFile}
    (h : file ts = .ok (parsed, rest)) : rest = [] := (file_segments h).1

/-- **The tokens of a file are segments** that keep what the file keeps. -/
theorem parse_segments {source : String} {file : SourceFile}
    (h : SourceFile.parse source = .ok file) :
    ∃ xs, tokenize source = .ok (Segment.allTokens xs) ∧ Spans [] 0 xs 0 ∧
      file.extracts = Segment.extracts xs := by
  obtain ⟨ts, rest, ht, hf⟩ := parse_eq_ok h
  obtain ⟨-, xs, rfl, hxs, he⟩ := file_segments hf
  exact ⟨xs, ht, hxs, he⟩

/-! ## Statements -/

/-- **A declaration with a semicolon behind it is read up to the end of its statement**, whether it
is the declaration that was meant or not. -/
theorem topLevel_statementEnd {t : Token} {ts mid rest : List Token} {item : TopLevel} {u : Unit}
    (h : topLevel t.kind (t :: ts) = .ok (item, mid)) (hend : endOfDecl mid = .ok (u, rest)) :
    rest = (Token.statementEnd 0 (t :: ts)).tail := by
  rcases endOfDecl_eq_ok hend with ⟨rfl, rfl⟩ | ⟨v, rfl, hv⟩
  · rw [(covers_topLevel h (by simp) 0).statement]
    rfl
  · rw [(covers_topLevel h (by simpa using hv) 0).statement, Token.statementEnd_semi hv]
    rfl

end Understudy.Source

import Understudy.Proofs.AddressedFunctions

/-!
# What one override changes

A stub is made of the same declarations whatever is overridden, and the bodies of its functions are
all that is looked up in the table.

> **One override changes the bodies of the functions that its key reaches and nothing else**
> (`ofPackage_insert`).

A key reaches what it names: a function of its package, or a method on the type that is its receiver.
But the key of a function also reaches the methods of that name whose receiver names no type
(`ofPackage_insert_stray`).
-/

set_option autoImplicit false

namespace Understudy.Stub

open Source Modules

namespace OverrideKey

/-- What a key says: the package and name of a function, and the type that it is declared on. -/
structure Names (key : OverrideKey) (package : String) (decl : FuncDecl) : Prop where
  package : key.package = package
  function : key.function = decl.name
  on : decl.IsOn key.receiver

/-- A key without a receiver is also that of a method whose receiver names no type. -/
structure Strays (key : OverrideKey) (package : String) (decl : FuncDecl) : Prop where
  package : key.package = package
  function : key.function = decl.name
  bare : key.receiver = none
  unnamed : ∀ on, ¬ decl.IsOn on

/-- Whether a body that is given for a key is taken for a function. -/
def Reaches (key : OverrideKey) (package : String) (decl : FuncDecl) : Prop :=
  key.Names package decl ∨ key.Strays package decl

end OverrideKey

variable {policy : ImportPolicy} {table : OverrideTable} {package : Package} {ctx ctx' : Context}
  {decl : FuncDecl} {key : OverrideKey} {body : String}

/-! ## The key of a function -/

theorem isOn_plain (hr : decl.receiver = none) (on : Option String) : decl.IsOn on ↔ on = none := by
  constructor
  · intro h
    cases h with
    | plain => rfl
    | method hr' =>
      rw [hr] at hr'
      cases hr'
  · rintro rfl
    exact .plain hr

theorem isOn_method {name : String} {type : TypeExpr} (hr : decl.receiver = some [.mk [name] type])
    (on : Option String) : decl.IsOn on ↔ on = type.receiverName? ∧ on.isSome := by
  constructor
  · intro h
    cases h with
    | plain hr' =>
      rw [hr] at hr'
      cases hr'
    | method hr' hfield hname =>
      rw [hr] at hr'
      cases hr'
      rw [List.mem_singleton.1 hfield] at hname
      exact ⟨hname.symm, rfl⟩
  · rintro ⟨rfl, hsome⟩
    obtain ⟨base, hbase⟩ := Option.isSome_iff_exists.1 hsome
    rw [hbase]
    exact .method hr (List.mem_singleton_self _) hbase

/-- The key under which a body is looked up is the one key that reaches the function. -/
theorem reaches_iff (hc : IsCallable decl) :
    key.Reaches ctx.package decl ↔ key = overrideKey ctx decl (Kept.receiverOf decl) := by
  obtain ⟨package, receiver, function⟩ := key
  have hkey : ∀ on, (overrideKey ctx decl (Kept.receiverOf decl)).receiver = on →
      ((⟨package, receiver, function⟩ : OverrideKey) = overrideKey ctx decl (Kept.receiverOf decl) ↔
        package = ctx.package ∧ function = decl.name ∧ receiver = on) := by
    rintro on rfl
    rw [OverrideKey.mk.injEq]
    exact ⟨fun ⟨hp, hr, hf⟩ => ⟨hp, hf, hr⟩, fun ⟨hp, hf, hr⟩ => ⟨hp, hr, hf⟩⟩
  -- A plain function has one spelling of its key. A method has the base of its receiver in it, and
  -- if the receiver has none, the key is spelled like that of a plain function.
  rcases hc with hr | ⟨name, type, hr⟩
  · rw [hkey none (by simp [overrideKey, Kept.receiverOf, hr])]
    constructor
    · rintro (⟨hp, hf, hon⟩ | ⟨-, -, -, hnone⟩)
      · exact ⟨hp, hf, (isOn_plain hr _).1 hon⟩
      · exact absurd ((isOn_plain hr none).2 rfl) (hnone none)
    · rintro ⟨hp, hf, hon⟩
      exact .inl ⟨hp, hf, (isOn_plain hr _).2 hon⟩
  · rw [hkey type.receiverName? (by simp [overrideKey, Kept.receiverOf, hr])]
    constructor
    · rintro (⟨hp, hf, hon⟩ | ⟨hp, hf, hbare, hnone⟩)
      · exact ⟨hp, hf, ((isOn_method hr _).1 hon).1⟩
      · refine ⟨hp, hf, ?_⟩
        cases hbase : type.receiverName? with
        | none => exact hbare
        | some base => exact absurd ((isOn_method hr _).2 ⟨hbase.symm, rfl⟩) (hnone (some base))
    · rintro ⟨hp, hf, rfl⟩
      cases hbase : type.receiverName? with
      | some base =>
        have hon := (isOn_method hr (some base)).2 ⟨hbase.symm, rfl⟩
        exact .inl ⟨hp, hf, hon⟩
      | none =>
        refine .inr ⟨hp, hf, rfl, fun on hon => ?_⟩
        obtain ⟨rfl, hsome⟩ := (isOn_method hr on).1 hon
        rw [hbase] at hsome
        cases hsome

/-! ## Two tables

Whether a package can be stubbed does not depend on what is overridden, nor on the rest of the
context. -/

theorem stubFunc?_anywhere (ctx' : Context) {stub : Option StubDecl}
    (h : stubFunc? ctx decl = .ok stub) : ∃ stub', stubFunc? ctx' decl = .ok stub' := by
  unfold stubFunc? at h ⊢
  cases hc : calling decl with
  | error fault =>
    rw [hc] at h
    cases h
  | ok called => cases called <;> exact ⟨_, rfl⟩

theorem stubFuncs_anywhere (ctx' : Context) {decls : List FuncDecl} {stubs : List StubDecl}
    (h : stubFuncs ctx decls = (stubs, none)) : ∃ stubs', stubFuncs ctx' decls = (stubs', none) := by
  induction decls generalizing stubs with
  | nil => exact ⟨[], rfl⟩
  | cons decl decls ih =>
    obtain ⟨stub, rest, hstub, hrest, -⟩ := stubFuncs_cons_iff.1 h
    obtain ⟨stub', hstub'⟩ := stubFunc?_anywhere ctx' hstub
    obtain ⟨rest', hrest'⟩ := ih hrest
    exact ⟨_, stubFuncs_cons_iff.2 ⟨stub', rest', hstub', hrest', rfl⟩⟩

theorem stubFile_anywhere (ctx' : Context) {file : SourceFile} {stubs : List StubDecl}
    (h : stubFile ctx file = .ok stubs) : ∃ stubs', stubFile ctx' file = .ok stubs' := by
  obtain ⟨funcs, hfuncs, -⟩ := stubFile_ok_iff.1 h
  obtain ⟨funcs', hfuncs'⟩ := stubFuncs_anywhere ctx' hfuncs
  exact ⟨_, stubFile_ok_iff.2 ⟨funcs', hfuncs', rfl⟩⟩

theorem stubFiles_anywhere (ctx' : Context) {files : List SourceFile} {stubs : List StubDecl}
    (h : stubFiles ctx files = .ok stubs) : ∃ stubs', stubFiles ctx' files = .ok stubs' := by
  induction files generalizing stubs with
  | nil => exact ⟨[], rfl⟩
  | cons file files ih =>
    obtain ⟨first, rest, hf, hr, -⟩ := stubFiles_cons_iff.1 h
    obtain ⟨first', hf'⟩ := stubFile_anywhere ctx' hf
    obtain ⟨rest', hr'⟩ := ih hr
    exact ⟨_, stubFiles_cons_iff.2 ⟨first', rest', hf', hr', rfl⟩⟩

theorem ofPackage_anyway (table' : OverrideTable) {stub : PackageStub}
    (h : PackageStub.ofPackage policy table package = .ok stub) :
    ∃ stub', PackageStub.ofPackage policy table' package = .ok stub' := by
  obtain ⟨decls, hd, -⟩ := ofPackage_ok_iff.1 h
  obtain ⟨decls', hd'⟩ := stubFiles_anywhere (PackageStub.contextOf policy table' package) hd
  exact ⟨_, ofPackage_ok_iff.2 ⟨decls', hd', rfl⟩⟩

/-! ## One override -/

/-- A context with one more body. -/
def Context.override (ctx : Context) (key : OverrideKey) (body : String) : Context :=
  { ctx with overrides := ctx.overrides.insert key body }

/-- What a function is, apart from its body, is not looked up. -/
theorem stubFuncOn_override (ctx : Context) (key : OverrideKey) (body : String) (decl : FuncDecl)
    (receiver : Option Receiver) : ∃ heading old, stubFuncOn ctx decl receiver = .func heading old ∧
      stubFuncOn (ctx.override key body) decl receiver =
        .func heading (if overrideKey ctx decl receiver = key then body else old) := by
  refine ⟨_, _, rfl, ?_⟩
  have hget := OverrideTable.get?_insert ctx.overrides key body (overrideKey ctx decl receiver)
  show StubDecl.func _ (((ctx.overrides.insert key body).get?
    (overrideKey ctx decl receiver)).getD defaultBody) = _
  rw [hget]
  by_cases hk : overrideKey ctx decl receiver = key
  · rw [if_pos hk, if_pos hk]
    rfl
  · rw [if_neg hk, if_neg hk]
    rfl

/-- A declaration is the same with one more body, unless it is a function that the key reaches. -/
theorem stub_override_of_not_reaches {kept : Kept}
    (h : ∀ decl, kept = .func decl → IsCallable decl ∧ ¬ key.Reaches ctx.package decl) :
    kept.stub (ctx.override key body) = kept.stub ctx := by
  cases kept with
  | value kind name type init => cases init <;> rfl
  | type spec => rfl
  | func decl =>
    obtain ⟨hc, hno⟩ := h decl rfl
    obtain ⟨heading, old, hold, hnew⟩ :=
      stubFuncOn_override ctx key body decl (Kept.receiverOf decl)
    rw [if_neg fun heq => hno ((reaches_iff hc).2 heq.symm)] at hnew
    exact hnew.trans hold.symm

/-- A function that the key reaches gets the body, and is the same otherwise. -/
theorem stub_override_of_reaches (hc : IsCallable decl) (h : key.Reaches ctx.package decl) :
    ∃ heading old, (Kept.func decl).stub ctx = .func heading old ∧
      (Kept.func decl).stub (ctx.override key body) = .func heading body := by
  obtain ⟨heading, old, hold, hnew⟩ :=
    stubFuncOn_override ctx key body decl (Kept.receiverOf decl)
  rw [if_pos ((reaches_iff hc).1 h).symm] at hnew
  exact ⟨heading, old, hold, hnew⟩

theorem keptValue?_ne_func (kind : ValueKind) (spec : ValueSpec) (i : Nat) (name : String) :
    keptValue? kind spec i name ≠ some (.func decl) := by
  unfold keptValue?
  split <;> simp

theorem isCallable_of_mem_keptOf (h : .func decl ∈ keptOf package) : IsCallable decl := by
  rcases List.mem_append.1 h with h | h
  · obtain ⟨file, -, h⟩ := List.mem_flatMap.1 h
    rcases List.mem_append.1 h with h | h
    · rcases List.mem_append.1 h with h | h
      · obtain ⟨⟨kind, spec⟩, -, h⟩ := List.mem_flatMap.1 h
        obtain ⟨⟨name, i⟩, -, h⟩ := List.mem_filterMap.1 h
        exact absurd h (keptValue?_ne_func kind spec i name)
      · obtain ⟨spec, -, h⟩ := List.mem_map.1 h
        cases h
    · obtain ⟨f, hf, h⟩ := List.mem_map.1 h
      cases h
      exact isCallable_of_isKeptFunc (List.mem_filter.1 hf).2
  · cases List.mem_singleton.1 h

/-- **Overrides are isolated.** If a package has a stub, then with one more body it has a stub too,
and the two are made of the same declarations in the same order: they differ in the bodies of the
functions that the key reaches, which is the one that is given, and in nothing else. In particular
the key of a function changes no method on a type with a name. -/
theorem ofPackage_insert {stub : PackageStub}
    (h : PackageStub.ofPackage policy table package = .ok stub) (key : OverrideKey)
    (body : String) :
    let ctx := PackageStub.contextOf policy table package
    let ctx' := PackageStub.contextOf policy (table.insert key body) package
    stub.decls = (keptOf package).map (Kept.stub ctx) ∧
    PackageStub.ofPackage policy (table.insert key body) package =
      .ok { stub with decls := (keptOf package).map (Kept.stub ctx') } ∧
    (∀ kept ∈ keptOf package, (∀ decl, kept = .func decl → ¬ key.Reaches package.name decl) →
      kept.stub ctx' = kept.stub ctx) ∧
    (∀ decl, .func decl ∈ keptOf package → key.Reaches package.name decl →
      ∃ heading old, (Kept.func decl).stub ctx = .func heading old ∧
        (Kept.func decl).stub ctx' = .func heading body) ∧
    (key.receiver = none → ∀ decl type, .func decl ∈ keptOf package → decl.IsOn (some type) →
      (Kept.func decl).stub ctx' = (Kept.func decl).stub ctx) := by
  intro ctx ctx'
  have hsame : ∀ kept ∈ keptOf package,
      (∀ decl, kept = .func decl → ¬ key.Reaches package.name decl) →
        kept.stub ctx' = kept.stub ctx := by
    intro kept hm hno
    show kept.stub (ctx.override key body) = kept.stub ctx
    refine stub_override_of_not_reaches fun decl hdecl => ⟨?_, hno decl hdecl⟩
    exact isCallable_of_mem_keptOf (hdecl ▸ hm)
  have hstub := ofPackage_eq h
  obtain ⟨stub', hstub'⟩ := ofPackage_anyway (table.insert key body) h
  refine ⟨by rw [hstub], ?_, hsame, fun decl hm hr => ?_, ?_⟩
  · rw [hstub', ofPackage_eq hstub', hstub]
  · have hchange : ∃ heading old, (Kept.func decl).stub ctx = .func heading old ∧
        (Kept.func decl).stub (ctx.override key body) = .func heading body :=
      stub_override_of_reaches (isCallable_of_mem_keptOf hm) hr
    exact hchange
  · -- A key without a receiver reaches plain functions and methods on types without a name.
    intro hplain decl type hm hon
    refine hsame _ hm ?_
    rintro _ ⟨rfl⟩ (hnames | hstrays)
    · have hr := hnames.on
      rw [hplain] at hr
      cases hr with
      | plain hr =>
        cases hon with
        | method hr' =>
          rw [hr] at hr'
          cases hr'
    · exact hstrays.unnamed _ hon

/-! ## Three functions of one name -/

/-- A function on its own, on a named type, or on a type without a name. -/
def memberDecl (receiver : Option TypeExpr) : FuncDecl where
  receiver := receiver.map fun type => [.mk ["r"] type]
  name := "M"
  signature := .mk [] [] none
  body := none

/-- A file with the three of them. -/
def memberSource : SourceFile where
  package := "p"
  imports := []
  decls := [.func (memberDecl none), .func (memberDecl (some (.pointer (.ident "T")))),
    .func (memberDecl (some (.array none (.ident "T"))))]
  isGenerated := false

/-- The stub of the package of the file, with these bodies. -/
def memberStub (plain named unnamed : String) : PackageStub where
  name := "p"
  imports := []
  decls := [.func "func M()" plain, .func "func (r *T) M()" named, .func "func (r []T) M()" unnamed,
    .type "Embedme" "" false "interface\x7b\x7d"]

theorem ofPackage_members : PackageStub.ofPackage ⟨[], ["m"]⟩ .empty (singlePackage memberSource) =
    .ok (memberStub defaultBody defaultBody defaultBody) := by
  cbv

theorem ofPackage_insert_sample :
    let ctx := PackageStub.contextOf ⟨[], ["m"]⟩ .empty (singlePackage memberSource)
    let ctx' := PackageStub.contextOf ⟨[], ["m"]⟩
      (OverrideTable.empty.insert ⟨"p", none, "M"⟩ "x()") (singlePackage memberSource)
    (∃ heading old, (Kept.func (memberDecl none)).stub ctx = .func heading old ∧
      (Kept.func (memberDecl none)).stub ctx' = .func heading "x()") ∧
    (Kept.func (memberDecl (some (.pointer (.ident "T"))))).stub ctx' =
      (Kept.func (memberDecl (some (.pointer (.ident "T"))))).stub ctx ∧
    (Kept.type sentinelSpec).stub ctx' = (Kept.type sentinelSpec).stub ctx := by
  obtain ⟨-, -, hsame, hreach, hnamed⟩ :=
    ofPackage_insert ofPackage_members ⟨"p", none, "M"⟩ "x()"
  have hkept : keptOf (singlePackage memberSource) =
      [.func (memberDecl none), .func (memberDecl (some (.pointer (.ident "T")))),
        .func (memberDecl (some (.array none (.ident "T")))), .type sentinelSpec] := by
    cbv
  rw [hkept] at hsame hreach hnamed
  refine ⟨hreach _ (by simp) (.inl ⟨rfl, rfl, .plain rfl⟩), ?_, ?_⟩
  · exact hnamed rfl _ "T" (by simp) (.method rfl (List.mem_singleton_self _) rfl)
  · refine hsame _ (by simp) fun decl hdecl => ?_
    cases hdecl

/-- The body that is given for a function is also that of a method whose receiver names no type. -/
theorem ofPackage_insert_stray :
    SourceFile.parse "package p\nfunc M()\nfunc (r *T) M()\nfunc (r []T) M()\n" =
      .ok memberSource ∧
    PackageStub.ofPackage ⟨[], ["m"]⟩ .empty (singlePackage memberSource) =
      .ok (memberStub defaultBody defaultBody defaultBody) ∧
    PackageStub.ofPackage ⟨[], ["m"]⟩ (OverrideTable.empty.insert ⟨"p", none, "M"⟩ "x()")
      (singlePackage memberSource) = .ok (memberStub "x()" defaultBody "x()") := by
  refine ⟨?_, ofPackage_members, ?_⟩
  · cbv
  · cbv

end Understudy.Stub

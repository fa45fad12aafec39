import Understudy.Proofs.OverrideKeys
import Understudy.Proofs.OverrideTables
import Understudy.Proofs.StubContents

/-!
# Functions that a key names

The names of a source file are read by the lexer, the parts of a key by their own rule. Every name
in a file is an identifier in a key too, if it is no keyword: what the lexer takes for letters and
digits is alphabetic or numeric (`isIdentifier_of_isWord`).

> **Every function can be addressed**: the key of a function or method of a file is read from its
> spellings, and a body that is given under one of them is the body of its stub
> (`parse_addressed`).

The lexer looks at one character behind a word. Where that is a byte order mark, a keyword is a
name too, and no key has such a part (`parse_addressed_reserved`).
-/

set_option autoImplicit false

namespace Understudy.Text

/-! ## Classes of characters -/

/-- Whether each range of the first table is inside one of the second. Both tables are walked once:
what ends before a range begins is not needed for the later ones either. -/
def Ranges.within : Ranges → Ranges → Bool
  | [], _ => true
  | (first, last) :: rest, rs =>
    match rs.dropWhile fun r => decide (r.1 ≤ first) && decide (r.2 < first) with
    | [] => false
    | (lo, hi) :: rs => decide (lo ≤ first) && decide (last ≤ hi) && within rest ((lo, hi) :: rs)

theorem Ranges.has_of_dropWhile {rs : Ranges} {first n : Nat} (hn : first ≤ n)
    (h : Ranges.has (rs.dropWhile fun r => decide (r.1 ≤ first) && decide (r.2 < first)) n = true) :
    rs.has n = true := by
  induction rs with
  | nil => exact h
  | cons r rest ih =>
    rw [List.dropWhile_cons] at h
    split at h
    · next hdrop =>
      simp only [Bool.and_eq_true, decide_eq_true_eq] at hdrop
      unfold Ranges.has
      rw [if_neg (by omega), ih h, Bool.or_true]
    · exact h

/-- A class of characters is part of another one if each of its ranges is inside one of the
other. -/
theorem Ranges.has_of_within {a b : Ranges} (h : a.within b = true) {n : Nat}
    (hn : a.has n = true) : b.has n = true := by
  induction a generalizing b with
  | nil => cases hn
  | cons r rest ih =>
    obtain ⟨first, last⟩ := r
    unfold Ranges.has at hn
    split at hn
    · cases hn
    · next hfirst =>
      refine Ranges.has_of_dropWhile (Nat.le_of_not_lt hfirst) ?_
      unfold Ranges.within at h
      split at h
      · cases h
      · next lo hi rs hdrop =>
        rw [hdrop]
        simp only [Bool.and_eq_true, decide_eq_true_eq] at h
        rcases Bool.or_eq_true_iff.1 hn with hlast | hrest
        · unfold Ranges.has
          rw [decide_eq_true_eq] at hlast
          rw [if_neg (by omega), decide_eq_true (by omega), Bool.true_or]
        · exact ih h.2 hrest

theorem isAlphabetic_of_isLetter {c : Char} (h : isLetter c = true) : isAlphabetic c = true :=
  Ranges.has_of_within (by decide +kernel) h

theorem isNumeric_of_isDecimalDigit {c : Char} (h : isDecimalDigit c = true) :
    isNumeric c = true :=
  Ranges.has_of_within (by decide +kernel) h

end Understudy.Text

namespace Understudy.Source

open Text

/-! ## Names -/

theorem isIdentifierChar_of_continuesWord {c : Char} (h : continuesWord c = true) :
    isIdentifierChar c = true := by
  simp only [continuesWord, Bool.or_eq_true] at h
  simp only [isIdentifierChar, isAlphanumeric, Bool.or_eq_true]
  rcases h with (h | h) | h
  · exact .inl h
  · exact .inr (.inl (isAlphabetic_of_isLetter h))
  · exact .inr (.inr (isNumeric_of_isDecimalDigit h))

/-- **The two rules for names differ in the keywords only**, for what the lexer takes for a word. -/
theorem isIdentifier_of_isWord {s : String} (h : isWord s = true) :
    isIdentifier s = !isReserved s := by
  obtain ⟨c, cs, hs, hc, hcs⟩ := isWord_iff.1 h
  unfold isIdentifier
  rw [hs]
  have hfirst : (c == '_' || isAlphabetic c) = true := by
    simp only [startsWord, Bool.or_eq_true] at hc ⊢
    exact hc.imp_right isAlphabetic_of_isLetter
  have hrest : cs.all isIdentifierChar = true :=
    List.all_eq_true.2 fun d hd => isIdentifierChar_of_continuesWord (hcs d hd)
  simp only [hfirst, hrest, Bool.true_and]

/-- The type that a method belongs to has the name of a type. -/
theorem IsType.receiverName {ok : Leaf → Prop} {erased : Bool} {type : TypeExpr}
    (h : IsType ok erased type) {name : String} (hn : type.receiverName? = some name) :
    ok (.name name) := by
  induction h with
  | ident hok =>
    cases hn
    exact hok
  | generic _ hok _ _ =>
    cases hn
    exact hok
  | pointer _ ih => exact ih hn
  | _ => cases hn

/-- Where a function is declared: on its own, or on a type of that name. -/
inductive FuncDecl.IsOn (decl : FuncDecl) : Option String → Prop where
  | plain : decl.receiver = none → decl.IsOn none
  | method {fields : List FieldGroup} {field : FieldGroup} {type : String} :
      decl.receiver = some fields → field ∈ fields → field.type.receiverName? = some type →
        decl.IsOn (some type)

end Understudy.Source

namespace Understudy.Stub

open Source OverrideKey

namespace OverrideKey

/-- Whether a part of a key is a keyword. -/
def hasReserved (key : OverrideKey) : Bool :=
  isReserved key.package || key.receiver.any isReserved || isReserved key.function

/-- The texts that name a function: that of its key, and for a method two more spellings. -/
def addresses (key : OverrideKey) : List String :=
  match key.receiver with
  | none => [key.text]
  | some type => bareSpellings key.package type key.function

theorem hasReserved_eq_false_iff {key : OverrideKey} : key.hasReserved = false ↔
    isReserved key.package = false ∧ (∀ type ∈ key.receiver, isReserved type = false) ∧
      isReserved key.function = false := by
  unfold hasReserved
  rw [Bool.or_eq_false_iff, Bool.or_eq_false_iff, Option.any_eq_false]
  simp only [and_assoc, Option.mem_def]

/-- Every part of a key is a word of the lexer. -/
structure IsSpelled (key : OverrideKey) : Prop where
  package : isWord key.package = true
  receiver : ∀ type ∈ key.receiver, isWord type = true
  function : isWord key.function = true

theorem isWhole_of_isWord {s : String} (h : isWord s = true) : IsWhole s := by
  refine ⟨fun hs => ?_, fun c hc hmem => ?_⟩
  · simp [isWord, hs] at h
  · have hchar := isIdentifierChar_of_continuesWord (mem_of_isWord h c hmem)
    rw [isIdentifierChar_marks c hc] at hchar
    cases hchar

variable {key : OverrideKey}

theorem IsSpelled.hasWholeParts (h : key.IsSpelled) : key.HasWholeParts where
  package := isWhole_of_isWord h.package
  receiver := fun type ht => isWhole_of_isWord (h.receiver type ht)
  function := isWhole_of_isWord h.function

theorem IsSpelled.isValid_iff (h : key.IsSpelled) : key.IsValid ↔ key.hasReserved = false := by
  rw [hasReserved_eq_false_iff]
  constructor
  · intro hv
    refine ⟨?_, fun type ht => ?_, ?_⟩
    · rw [← Bool.not_eq_true', ← isIdentifier_of_isWord h.package]
      exact hv.package
    · rw [← Bool.not_eq_true', ← isIdentifier_of_isWord (h.receiver type ht)]
      exact hv.receiver type ht
    · rw [← Bool.not_eq_true', ← isIdentifier_of_isWord h.function]
      exact hv.function
  · rintro ⟨hp, hr, hf⟩
    refine ⟨?_, fun type ht => ?_, ?_⟩
    · rw [isIdentifier_of_isWord h.package, hp, Bool.not_false]
    · rw [isIdentifier_of_isWord (h.receiver type ht), hr type ht, Bool.not_false]
    · rw [isIdentifier_of_isWord h.function, hf, Bool.not_false]

/-- A key of words is read from its addresses, if and only if no part of it is a keyword. -/
theorem parse?_addresses (h : key.IsSpelled) {spec : String} (hspec : spec ∈ key.addresses) :
    parse? spec = if key.hasReserved then none else some key := by
  have hread : parse? spec = if key.IsValid then some key else none := by
    obtain ⟨package, receiver, function⟩ := key
    cases receiver with
    | none =>
      rw [List.mem_singleton.1 hspec]
      exact parse?_text h.hasWholeParts
    | some type => exact parse?_bareSpellings h.hasWholeParts hspec
  rw [hread]
  cases hres : key.hasReserved with
  | false => rw [if_pos (h.isValid_iff.2 hres), if_neg (by decide)]
  | true => rw [if_neg (fun hv => by rw [h.isValid_iff.1 hv] at hres; cases hres), if_pos rfl]

end OverrideKey

/-! ## Functions of a file -/

section File

variable {source : String} {file : SourceFile} {decl : FuncDecl} {on : Option String}

/-- The key of a function of a file that is parsed consists of words. -/
theorem isSpelled_of_parse (h : SourceFile.parse source = .ok file)
    (hd : .func decl ∈ file.decls) (hon : decl.IsOn on) :
    IsSpelled ⟨file.package, on, decl.name⟩ := by
  have hfits := parse_fits h
  have hdecl : decl.Fits Leaf.Parsed := hfits.decls _ hd
  refine ⟨hfits.package, fun type ht => ?_, hdecl.name⟩
  cases hon with
  | plain => cases ht
  | @method fields field _ hr hfield hname =>
    cases ht
    have htype := (hdecl.receiver _ hr).types _ hfield
    obtain ⟨names, type⟩ := field
    cases htype with
    | type htype => exact htype.receiverName hname
    | variadic => cases hname

/-- A table with one pair. -/
theorem get?_singlePair {spec : String} {key : OverrideKey} (h : parse? spec = some key)
    (body : String) :
    ∃ table, OverrideTable.ofPairs [(spec, body)] = .ok table ∧ table.get? key = some body := by
  have hgood : OverrideTable.malformedKey? [(spec, body)] = none := by
    rw [OverrideTable.malformedKey?_cons, h]
    rfl
  obtain ⟨table, htable, hget⟩ := OverrideTable.get?_ofPairs hgood
  refine ⟨table, htable, ?_⟩
  rw [hget, OverrideTable.lastBody?_singleton h, if_pos rfl]

/-- The stub of a function that is kept has the body for its key. -/
theorem stubFunc?_body {ctx : Context} {key : OverrideKey} {body : String}
    (hkept : isKeptFunc decl = true) (hon : decl.IsOn on)
    (hkey : key = ⟨ctx.package, on, decl.name⟩) (hget : ctx.overrides.get? key = some body) :
    ∃ heading, stubFunc? ctx decl = .ok (some (.func heading body)) := by
  have hbody : ∀ receiver, overrideKey ctx decl receiver = key →
      ∃ heading, stubFuncOn ctx decl receiver = .func heading body := by
    intro receiver hr
    unfold stubFuncOn
    rw [hr, hget]
    exact ⟨_, rfl⟩
  unfold isKeptFunc at hkept
  rw [Bool.and_eq_true] at hkept
  -- What is kept is exported and callable: it has no receiver or exactly one.
  obtain ⟨hexported, hcallable⟩ := hkept
  split at hcallable
  · next hr =>
    have hplain : on = none := by
      cases hon with
      | plain => rfl
      | method hr' => simp [hr] at hr'
    obtain ⟨heading, hstub⟩ := hbody none (by rw [hkey, hplain]; rfl)
    refine ⟨heading, ?_⟩
    simp only [stubFunc?, calling, hr, hexported, if_true, bind, Except.bind, pure, Except.pure,
      hstub]
  · next name type hr =>
    have hmethod : type.receiverName? = on := by
      cases hon with
      | plain hr' => simp [hr] at hr'
      | method hr' hfield hname =>
        rw [hr] at hr'
        cases hr'
        rw [List.mem_singleton.1 hfield] at hname
        exact hname
    obtain ⟨heading, hstub⟩ := hbody (some ⟨name, type⟩) (by rw [hkey, ← hmethod]; rfl)
    refine ⟨heading, ?_⟩
    simp only [stubFunc?, calling, hr, hexported, if_true, bind, Except.bind, pure, Except.pure,
      hstub]
  · cases hcallable

/-- **Every function can be addressed.** For each function of a file that is parsed, and each method
whose receiver names a type, the text of its key and the other spellings of it are read as the
key, if and only if no part of it is a keyword. Then a table that is made with one of these texts
gives the stub of the function, if it has one, the body of the text. -/
theorem parse_addressed (h : SourceFile.parse source = .ok file) (hd : .func decl ∈ file.decls)
    (hon : decl.IsOn on) {spec : String}
    (hspec : spec ∈ addresses ⟨file.package, on, decl.name⟩) :
    (parse? spec = some ⟨file.package, on, decl.name⟩ ↔
      hasReserved ⟨file.package, on, decl.name⟩ = false) ∧
    (hasReserved ⟨file.package, on, decl.name⟩ = false → ∀ body : String, ∃ table,
      OverrideTable.ofPairs [(spec, body)] = .ok table ∧
      ∀ ctx : Context, ctx.package = file.package → ctx.overrides = table →
        isKeptFunc decl = true →
          ∃ heading, stubFunc? ctx decl = .ok (some (.func heading body))) := by
  have hread := parse?_addresses (isSpelled_of_parse h hd hon) hspec
  constructor
  · rw [hread]
    cases hasReserved ⟨file.package, on, decl.name⟩ <;> simp
  · intro hres body
    rw [hres, if_neg (by decide)] at hread
    obtain ⟨table, htable, hget⟩ := get?_singlePair hread body
    refine ⟨table, htable, fun ctx hpackage hoverrides hkept => ?_⟩
    exact stubFunc?_body hkept hon (by rw [hpackage]) (by rw [hoverrides]; exact hget)

end File

/-- A method of a generic type. -/
def addDecl : FuncDecl where
  receiver := some [.mk ["s"] (.pointer (.instantiated (.ident "Set") [.ident "K"]))]
  name := "Add"
  signature := .mk [] [.mk ["k"] (.ident "K")] none
  body := none

/-- The file with the method. -/
def addSource : SourceFile where
  package := "p"
  imports := []
  decls := [.func addDecl]
  isGenerated := false

theorem parse_addressed_sample :
    SourceFile.parse "package p\nfunc (s *Set[K]) Add(k K)\n" = .ok addSource ∧
    addDecl.IsOn (some "Set") ∧
    parse? "p.(*Set).Add" = some ⟨"p", some "Set", "Add"⟩ ∧
    ∃ table heading, OverrideTable.ofPairs [("p.(*Set).Add", "return")] = .ok table ∧
      stubFunc? ⟨"p", [], table⟩ addDecl = .ok (some (.func heading "return")) := by
  have hparse : SourceFile.parse "package p\nfunc (s *Set[K]) Add(k K)\n" = .ok addSource := by
    cbv
  have hon : addDecl.IsOn (some "Set") := .method rfl (List.mem_singleton_self _) rfl
  have hfree : hasReserved ⟨"p", some "Set", "Add"⟩ = false := by decide
  have hspec : "p.(*Set).Add" ∈ addresses ⟨"p", some "Set", "Add"⟩ := by decide
  have haddressed := parse_addressed hparse (List.mem_singleton_self _) hon hspec
  obtain ⟨table, htable, hstub⟩ := haddressed.2 hfree "return"
  obtain ⟨heading, hstub⟩ := hstub ⟨"p", [], table⟩ rfl rfl (by decide +kernel)
  exact ⟨hparse, hon, haddressed.1.2 hfree, table, heading, htable, hstub⟩

/-- A file in a package that is spelled like a keyword. -/
def reservedPackage : SourceFile where
  package := "return"
  imports := []
  decls := [.func ⟨none, "F", .mk [] [] none, some ""⟩]
  isGenerated := false

set_option maxRecDepth 4000 in
/-- Behind a keyword the lexer takes a byte order mark for the end of a name, so a package can be
called like a keyword, and no key names its functions. -/
theorem parse_addressed_reserved :
    SourceFile.parse "package return\ufeff\nfunc F() \x7b\x7d\n" = .ok reservedPackage ∧
    text ⟨"return", none, "F"⟩ = "return.F" ∧ parse? "return.F" = none ∧
    OverrideTable.ofPairs [("return.F", "x()")] = .error "return.F" := by
  have hspelled : IsSpelled ⟨"return", none, "F"⟩ :=
    ⟨by decide +kernel, by simp, by decide +kernel⟩
  have hnone : parse? "return.F" = none := parse?_addresses hspelled (List.mem_singleton_self _)
  refine ⟨?_, rfl, hnone, OverrideTable.ofPairs_malformed ?_⟩
  · cbv
  · rw [OverrideTable.malformedKey?_cons, hnone]
    rfl

end Understudy.Stub

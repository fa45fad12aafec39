import Mathlib
import Understudy.Proofs.OutputPlaces
import Understudy.Proofs.OverrideKeys

/-!
# What package patterns mean

A pattern is read in three steps: the wildcard is cut off its end, the rest is taken for a
directory, and the directory is resolved to names. Whatever the text is, the names that come out
are plain, so a pattern never leads out of the module. Of the texts that are read, import paths
are told apart from everything else by the module path in front of them:

> **A pattern reads an import path back**: the import path of a directory means that directory,
> with a wildcard after it also all below (`parse_importPath`).

Three dots in the module path or in a name would be taken for a wildcard. They are the only thing
that gets in the way, since no wildcard reaches across a slash (`infix_across`). A name that is no
text is not in its import path, so such a directory is not read back (`parse_importPath_raw`).
-/

set_option autoImplicit false

namespace Understudy.Text

/-! ## Texts across a separator -/

variable {word before after : List Char} {c : Char}

/-- A text that begins with a word has it in front of the first character that the word lacks. -/
theorem prefix_before (before : List Char) (hc : c ∉ word) (h : word <+: before ++ c :: after) :
    word <+: before := by
  rcases Nat.lt_or_ge before.length word.length with hlt | hge
  · have hbefore : before ++ [c] <+: word :=
      List.prefix_of_prefix_length_le ⟨after, by simp⟩ h (by simpa using hlt)
    exact absurd (hbefore.subset (by simp)) hc
  · exact List.prefix_of_prefix_length_le h (List.prefix_append ..) hge

/-- A word lies on one side of a character that it lacks. -/
theorem infix_across (hc : c ∉ word) (h : word <:+: before ++ c :: after) :
    word <:+: before ∨ word <:+: after := by
  induction before with
  | nil =>
    rcases List.infix_cons_iff.1 h with hfront | hinside
    · exact Or.inl (prefix_before [] hc hfront).isInfix
    · exact Or.inr hinside
  | cons b before ih =>
    rcases List.infix_cons_iff.1 h with hfront | hinside
    · exact Or.inl (prefix_before (b :: before) hc hfront).isInfix
    · exact (ih hinside).imp_left List.infix_cons

end Understudy.Text

namespace Understudy.Modules.Pattern

open Files DiskPath Text

variable {spec module : String} {cwd : DiskPath} {pattern : Pattern} {names : List String}

/-! ## Wildcards -/

/-- Whether three dots stand nowhere in a text. -/
def HasNoWildcard (text : String) : Prop := ¬wildcard <:+: text.toList

instance (text : String) : Decidable (HasNoWildcard text) :=
  inferInstanceAs (Decidable (¬_))

/-- The names of directories bring no wildcard into a path. -/
theorem hasNoWildcard_append_names (hm : HasNoWildcard module)
    (h : ∀ name ∈ names, HasNoWildcard name) :
    HasNoWildcard (module ++ String.join (names.map fun name => "/" ++ name)) := by
  induction names using List.reverseRecOn with
  | nil => simpa using hm
  | append_singleton names name ih =>
    intro hinside
    rw [List.map_append, String.join_append, ← String.append_assoc, String.toList_append] at hinside
    have hlast : (String.join (List.map (fun name => "/" ++ name) [name])).toList =
        '/' :: name.toList := by simp
    rw [hlast] at hinside
    rcases infix_across (by decide) hinside with hbefore | hname
    · exact ih (fun n hn => h n (by simp [hn])) hbefore
    · exact h name (by simp) hname

theorem splitWildcard_of_hasNoWildcard (h : HasNoWildcard spec) :
    splitWildcard spec.toList = (spec.toList, false) := by
  rw [splitWildcard]
  split
  · next base hbase =>
    exact absurd ⟨base, [], by simp [List.isSuffixOf?_eq_some_iff_append_eq.1 hbase]⟩ h
  · rfl

theorem splitWildcard_append (base : List Char) :
    splitWildcard (base ++ "/...".toList) = (base, true) := by
  have hwildcard : wildcard.isSuffixOf? (base ++ "/...".toList) = some (base ++ ['/']) :=
    List.isSuffixOf?_eq_some_iff_append_eq.2 (by simp [wildcard])
  have hslash : ['/'].isSuffixOf? (base ++ ['/']) = some base :=
    List.isSuffixOf?_eq_some_iff_append_eq.2 rfl
  rw [splitWildcard, hwildcard]
  simp only [hslash, Option.getD_some]

/-! ## Directories -/

/-- Names are resolved to themselves. -/
theorem resolve?_names (above names : Location) :
    resolve? above (names.map .name) = some (above.reverse ++ names) := by
  induction names generalizing above with
  | nil => simp [resolve?]
  | cons name names ih => simp [resolve?, ih]

/-- What follows the module path is the directory, wherever relative patterns are seen from. -/
theorem directoryOf?_append_names (module : String) (cwd : DiskPath)
    (h : ∀ name ∈ names, IsPlain (.ofText name)) :
    ∃ path, directoryOf? (module ++ String.join (names.map fun name => "/" ++ name)).toList module
        cwd = some path ∧
      path.components = (names.map RawText.ofText).map .name := by
  cases names with
  | nil => exact ⟨⟨""⟩, by simp [directoryOf?], rfl⟩
  | cons name names =>
    obtain ⟨hname, hnames⟩ := List.forall_mem_cons.1 h
    have htext : (module ++ String.join ((name :: names).map fun name => "/" ++ name)).toList =
        module.toList ++ '/' ::
          (name ++ String.join (names.map fun name => "/" ++ name)).toList := by simp
    rw [htext]
    have hne : name ≠ "" := RawText.ofText_inj.not.1 hname.ne_empty
    refine ⟨⟨.ofText (name ++ String.join (names.map fun name => "/" ++ name))⟩, ?_, ?_⟩
    · rw [directoryOf?, if_neg (by simp), List.isPrefixOf?_eq_some_iff_append_eq.2 rfl,
        Option.bind_some, List.isPrefixOf?_eq_some_iff_append_eq.2 (List.singleton_append ..)]
      simp only [String.ofList_toList]
    · rw [(extends_append_names hne hnames).components,
        (isPlainPath_of_plain hname).1.components, (isPlainPath_of_plain hname).2]
      rfl

/-! ## Patterns -/

/-- A text is read as the directory that its base means. -/
theorem parse_of_split {path : DiskPath} {base : List Char} {isRecursive : Bool}
    {names : Location} (hspec : spec ≠ "")
    (hsplit : splitWildcard spec.toList = (base, isRecursive))
    (hplaced : hasMisplacedWildcard spec.toList base isRecursive = false)
    (hdirectory : directoryOf? base module cwd = some path)
    (hnames : path.components = names.map .name) :
    parse spec module cwd = .ok { directory := names, isRecursive } := by
  have hresolve := resolve?_names [] names
  rw [← hnames] at hresolve
  rw [parse, if_neg (by simpa [String.isEmpty_iff] using hspec), hsplit]
  simp only [hplaced, hdirectory, hresolve, Bool.false_eq_true, if_false, List.reverse_nil,
    List.nil_append]

/-- The path of a pattern is made of its names. -/
theorem components_path (h : parse spec module cwd = .ok pattern) :
    pattern.path.components = pattern.directory.map .name := by
  rw [path, Loader.ofComponents_eq, Loader.components_pathBelow _ (Loader.isPlain_of_parse h)]
  rfl

/-- **Patterns stay in the module and invert import paths**: what a pattern is read as has plain
names only, and the import path of a directory whose names are texts is read as the directory. -/
theorem parse_importPath :
    (∀ (spec module : String) (cwd : DiskPath) (pattern : Pattern),
      parse spec module cwd = .ok pattern →
        pattern.path.components = pattern.directory.map .name ∧
        ∀ name ∈ pattern.directory, IsPlain name) ∧
    ∀ (m : GoModule) (directory cwd : DiskPath) (names : Location),
      m.manifest.module ≠ "" → HasNoWildcard m.manifest.module →
      directory.components = names.map .name →
      (∀ name ∈ names, name.isText = true ∧ HasNoWildcard name.text) →
        parse (m.importPath directory) m.manifest.module cwd =
          .ok { directory := names, isRecursive := false } ∧
        parse (m.importPath directory ++ "/...") m.manifest.module cwd =
          .ok { directory := names, isRecursive := true } := by
  refine ⟨fun spec module cwd pattern h => ⟨components_path h, Loader.isPlain_of_parse h⟩, ?_⟩
  intro m directory cwd names hmodule hfree hnames hnone
  -- The names are those of some texts.
  obtain ⟨names, rfl⟩ : ∃ texts : List String, names = texts.map RawText.ofText :=
    ⟨_, (RawText.map_ofText_text fun name hname => (hnone name hname).1).symm⟩
  have hplain : ∀ name ∈ names, IsPlain (.ofText name) := fun name hname =>
    Loader.isPlain_of_mem_components (p := directory) (by rw [hnames]; simpa using hname)
  have hnone : ∀ name ∈ names, HasNoWildcard name := fun name hname => by
    simpa using (hnone _ (List.mem_map_of_mem hname)).2
  have himport : m.importPath directory =
      m.manifest.module ++ String.join (names.map fun name => "/" ++ name) := by
    rw [GoModule.importPath, hnames, List.map_map, List.map_map]
    simp [Function.comp_def, Component.raw]
  have hpath : HasNoWildcard (m.importPath directory) := by
    rw [himport]
    exact hasNoWildcard_append_names hfree hnone
  have hcut : (cut? wildcard (m.importPath directory).toList).isSome = false := by
    rw [(cut?_eq_none_iff (by decide)).2 hpath]
    rfl
  obtain ⟨path, hdirectory, hcomponents⟩ :=
    directoryOf?_append_names m.manifest.module cwd hplain
  rw [← himport] at hdirectory
  constructor
  · refine parse_of_split ?_ (splitWildcard_of_hasNoWildcard hpath) ?_ hdirectory hcomponents
    · simp [himport, hmodule]
    · simp [hasMisplacedWildcard, hcut]
  · refine parse_of_split (by simp) ?_ ?_ hdirectory hcomponents
    · rw [String.toList_append, splitWildcard_append]
    · simp [hasMisplacedWildcard, hcut]

/-- A step to a parent stays in the module, and the import path of a directory is read back. -/
theorem parse_importPath_nested :
    (parse "../main" "example.com/m" ⟨"pkg"⟩ = .ok ⟨[.ofText "main"], false⟩ ∧
      IsPlain (.ofText "main")) ∧
    ("example.com/m" ≠ "" ∧ HasNoWildcard "example.com/m" ∧
      (⟨"pkg/types"⟩ : DiskPath).components = [RawText.ofText "pkg", .ofText "types"].map .name ∧
      (∀ name ∈ [RawText.ofText "pkg", .ofText "types"],
        name.isText = true ∧ HasNoWildcard name.text)) ∧
    parse "example.com/m/pkg/types" "example.com/m" ⟨"pkg"⟩ =
      .ok ⟨[.ofText "pkg", .ofText "types"], false⟩ ∧
    parse "example.com/m/pkg/types/..." "example.com/m" ⟨"pkg"⟩ =
      .ok ⟨[.ofText "pkg", .ofText "types"], true⟩ := by
  have hup : parse "../main" "example.com/m" ⟨"pkg"⟩ = .ok ⟨[.ofText "main"], false⟩ := by rfl
  have htexts : ∀ name ∈ [RawText.ofText "pkg", .ofText "types"],
      name.isText = true ∧ HasNoWildcard name.text := by
    simp only [List.forall_mem_cons, RawText.isText_ofText, RawText.text_ofText]
    decide
  have hread := parse_importPath.2 ⟨⟨"/m"⟩, ⟨"example.com/m", none⟩⟩ ⟨"pkg/types"⟩ ⟨"pkg"⟩
    [.ofText "pkg", .ofText "types"] (by decide) (by decide) (by decide) htexts
  exact ⟨⟨hup, (parse_importPath.1 _ _ _ _ hup).2 (.ofText "main") (by simp)⟩,
    ⟨by decide, by decide, by decide, htexts⟩, hread⟩

/-- The import path of a directory whose name is no text is read as another directory. -/
theorem parse_importPath_raw :
    (⟨⟨[0xee]⟩⟩ : DiskPath).components = [.name ⟨[0xee]⟩] ∧ IsPlain ⟨[0xee]⟩ ∧
      HasNoWildcard (RawText.text ⟨[0xee]⟩) ∧
      GoModule.importPath ⟨⟨"/m"⟩, ⟨"m", none⟩⟩ ⟨⟨[0xee]⟩⟩ = "m/\ufffd" ∧
      parse "m/\ufffd" "m" ⟨""⟩ = .ok ⟨[.ofText "\ufffd"], false⟩ ∧
      parse "m/\ufffd" "m" ⟨""⟩ ≠ .ok ⟨[⟨[0xee]⟩], false⟩ := by
  have hparse : parse "m/\ufffd" "m" ⟨""⟩ = .ok ⟨[.ofText "\ufffd"], false⟩ := by rfl
  refine ⟨by decide, by decide, by decide +kernel, by decide +kernel, hparse, ?_⟩
  rw [hparse]
  decide

end Understudy.Modules.Pattern

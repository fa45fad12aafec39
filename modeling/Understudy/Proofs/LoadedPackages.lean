import Mathlib
import Understudy.Proofs.SourceDirectories

/-!
# What a loader reads

A directory of the module is known by the names that lead to it from the module root, and its import
path spells them (`importPathOf_directoryAt`), so directories do not share an import path
(`importPathOf_inj`). A load gives the packages of the directories that its patterns select, each
once and by increasing import path (`load_ok_iff`).

The package of a directory depends on the source files in it only (`packageIn_congr`), so a load
gives the same packages on a tree that has grown, as long as the sources are the same and no package
is hidden by a new manifest (`load_grown`).
-/

set_option autoImplicit false

namespace Understudy

/-- A sequence has a result if its parts have. -/
theorem Report.bind_ok_iff {α β : Type} {r : Report α} {f : α → Report β} {b : β} :
    (r >>= f).result = .ok b ↔ ∃ a, r.result = .ok a ∧ (f a).result = .ok b := by
  rw [Report.result_bind]
  cases r.result with
  | error failure => exact ⟨nofun, nofun⟩
  | ok a =>
    constructor
    · intro h
      exact ⟨a, rfl, h⟩
    · rintro ⟨a', ha, h⟩
      cases ha
      exact h

theorem mapError_ok_iff {α ε : Type} {f : ε → Failure} {r : Except ε α} {a : α} :
    (Report.ofExcept (r.mapError f)).result = .ok a ↔ r = .ok a := by
  rw [Report.result_ofExcept]
  cases r <;> simp [Except.mapError]

/-- Steps that do the same on the elements of a list do the same one after another. -/
theorem foldlM_congr {α ε σ : Type} {f g : σ → α → Except ε σ} {xs : List α} {s : σ}
    (h : ∀ x ∈ xs, ∀ s, f s x = g s x) : xs.foldlM f s = xs.foldlM g s := by
  induction xs generalizing s with
  | nil => rfl
  | cons x xs ih =>
    obtain ⟨hx, hxs⟩ := List.forall_mem_cons.1 h
    simp only [List.foldlM_cons, hx, ih hxs]

end Understudy

namespace Understudy.Modules.Loader

open Files DiskPath
open Source (SourceFile)

variable {p : DiskPath} {names : Location}

theorem pathBelow_concat (p : DiskPath) (names : Location) (name : RawText) :
    pathBelow p (names ++ [name]) = (pathBelow p names).join ⟨name⟩ := by
  rw [pathBelow, List.foldl_append]
  rfl

theorem moves_pathBelow (p : DiskPath) (h : ∀ name ∈ names, IsPlain name) :
    (pathBelow p names).moves = p.moves ++ names := by
  induction names using List.reverseRecOn with
  | nil => simp [pathBelow]
  | append_singleton names name ih =>
    have hname : IsPlain name := h name (by simp)
    rw [pathBelow_concat, moves_join hname.relative, moves_plain hname,
      ih fun n hn => h n (by simp [hn]), List.append_assoc]

theorem components_pathBelow (p : DiskPath) (h : ∀ name ∈ names, IsPlain name) :
    (pathBelow p names).components = p.components ++ names.map .name := by
  induction names using List.reverseRecOn with
  | nil => simp [pathBelow]
  | append_singleton names name ih =>
    rw [pathBelow_concat, components_join_name _ (h name (by simp)),
      ih fun n hn => h n (by simp [hn]), List.map_append, List.append_assoc]
    rfl

theorem isAbsolute_pathBelow (p : DiskPath) (h : ∀ name ∈ names, IsPlain name) :
    (pathBelow p names).isAbsolute = p.isAbsolute := by
  induction names using List.reverseRecOn with
  | nil => rfl
  | append_singleton names name ih =>
    rw [pathBelow_concat, isAbsolute_join_name _ (h name (by simp)),
      ih fun n hn => h n (by simp [hn])]

theorem isPlain_of_mem_components {p : DiskPath} {name : RawText} (h : .name name ∈ p.components) :
    IsPlain name := by
  rw [components_eq, lead] at h
  rcases List.mem_append.1 h with h | h
  · split at h
    · simp at h
    · split at h <;> simp at h
  · obtain ⟨m, hm, hname⟩ := List.mem_map.1 h
    rw [moveComponent] at hname
    split at hname
    · cases hname
    · next hup =>
      cases hname
      exact isPlain_of_mem_moves hm hup

theorem ofComponents_eq (names : Location) :
    ofComponents (names.map .name) = pathBelow ⟨""⟩ names := by
  rw [ofComponents, List.foldl_map]
  rfl

/-! ## Directories of the module -/

variable {l : Loader} {spec : String} {pattern : Pattern} {above below : Location}

/-- The directory of the module that is reached by some names. -/
def directoryAt (l : Loader) (names : Location) : DiskPath :=
  l.module.root.join (ofComponents (names.map .name))

/-- Where the module lies. -/
def base (l : Loader) : Location := l.disk.place l.module.root

/-- A loader for a module on a disk as real ones are. -/
structure Rooted (l : Loader) : Prop where
  disk : l.disk.Proper
  root : l.module.root.raw ≠ ""

/-- A loader whose module is reached on a sound disk. -/
structure Sound (l : Loader) : Prop where
  disk : l.disk.Sound
  root : l.module.root.raw ≠ ""
  reaches : l.disk.Reaches l.module.root

theorem Sound.rooted (hl : l.Sound) : l.Rooted := ⟨hl.disk.proper, hl.root⟩

theorem isAbsolute_ofComponents (h : ∀ name ∈ names, IsPlain name) :
    (ofComponents (names.map .name)).isAbsolute = false := by
  rw [ofComponents_eq]
  exact isAbsolute_pathBelow _ h

theorem directoryAt_concat (h : ∀ name ∈ names, IsPlain name) {name : RawText}
    (hname : IsPlain name) :
    l.directoryAt (names ++ [name]) = (l.directoryAt names).join ⟨name⟩ := by
  rw [directoryAt, directoryAt, join_join_name _ (isAbsolute_ofComponents h) hname]
  rw [ofComponents_eq, ofComponents_eq, pathBelow_concat]

theorem pathBelow_directoryAt (ha : ∀ name ∈ above, IsPlain name)
    (hb : ∀ name ∈ below, IsPlain name) :
    pathBelow (l.directoryAt above) below = l.directoryAt (above ++ below) := by
  induction below using List.reverseRecOn with
  | nil => rw [List.append_nil]; rfl
  | append_singleton below name ih =>
    have hbelow : ∀ n ∈ below, IsPlain n := fun n hn => hb n (by simp [hn])
    rw [pathBelow_concat, ih hbelow, ← List.append_assoc,
      directoryAt_concat (List.forall_mem_append.2 ⟨ha, hbelow⟩) (hb name (by simp))]

theorem directoryAt_ne_empty (hl : l.Rooted) (names : Location) : (l.directoryAt names).raw ≠ "" :=
  join_ne_empty hl.root _

theorem components_directoryAt (hl : l.Rooted) (h : ∀ name ∈ names, IsPlain name) :
    (l.directoryAt names).components = l.module.root.components ++ names.map .name := by
  have hmap : names.map moveComponent = names.map .name :=
    List.map_congr_left fun n hn => if_neg (h n hn).2.1
  have habs := isAbsolute_ofComponents h
  rw [directoryAt, components_eq, lead_join hl.root habs, moves_join habs, ofComponents_eq,
    moves_pathBelow _ h, moves_empty, List.nil_append, List.map_append, hmap, ← List.append_assoc,
    ← components_eq]

/-- The module itself is the directory without names. -/
theorem moves_directoryAt_nil (hl : l.Rooted) :
    (l.disk.cwd.join (l.directoryAt [])).moves = (l.disk.cwd.join l.module.root).moves := by
  have hrel : (ofComponents (([] : Location).map .name)).isAbsolute = false := rfl
  refine Disk.moves_join_congr _ ?_ (isAbsolute_join hl.root hrel)
  rw [directoryAt, moves_join hrel]
  exact List.append_nil _

theorem place_directoryAt (hl : l.Rooted) (h : ∀ name ∈ names, IsPlain name) :
    l.disk.place (l.directoryAt names) = l.base ++ names := by
  induction names using List.reverseRecOn with
  | nil => rw [List.append_nil, base, Disk.place, Disk.place, moves_directoryAt_nil hl]
  | append_singleton names name ih =>
    have hnames : ∀ n ∈ names, IsPlain n := fun n hn => h n (by simp [hn])
    have hname : IsPlain name := h name (by simp)
    rw [directoryAt_concat hnames hname, Disk.place_join_name hl.disk _ hname, ih hnames,
      List.append_assoc]

/-- What is passed over in the names of an entry is nothing. -/
theorem isPlain_of_entry (hl : l.Rooted) (h : l.disk.tree.get? (l.base ++ names) ≠ none) :
    ∀ name ∈ names, IsPlain name :=
  fun name hname => hl.disk.tree.plain _ h name (by simp [hname])

/-- A directory of the module is reached if an entry of that kind lies there. -/
theorem reaches_directoryAt (hl : l.Sound) (h : ∀ name ∈ names, IsPlain name) :
    l.disk.Reaches (l.directoryAt names) ↔
      l.disk.tree.get? (l.base ++ names) = some .directory := by
  constructor
  · intro hreach
    have hdir := Disk.directory_of_reaches hl.disk.proper hreach
    rwa [place_directoryAt hl.rooted h] at hdir
  · intro hdir
    induction names using List.reverseRecOn with
    | nil =>
      intro x hx
      rw [Disk.onTheWay, moves_directoryAt_nil hl.rooted] at hx
      exact hl.reaches x hx
    | append_singleton names name ih =>
      have hnames : ∀ n ∈ names, IsPlain n := fun n hn => h n (by simp [hn])
      have hname : IsPlain name := h name (by simp)
      rw [← List.append_assoc] at hdir
      have hparent := hl.disk.tree.closed _ name (by rw [hdir]; simp)
      intro x hx
      rw [directoryAt_concat hnames hname, Disk.onTheWay_join_name hl.disk.proper _ hname,
        place_directoryAt hl.rooted hnames] at hx
      rcases List.mem_append.1 hx with hx | hx
      · exact ih hnames hparent x hx
      · rw [List.mem_singleton.1 hx]
        exact hdir

/-- **The import path of a directory** spells its names. -/
theorem importPathOf_directoryAt (hl : l.Rooted) (h : ∀ name ∈ names, IsPlain name) :
    l.importPathOf (l.directoryAt names) = l.module.manifest.module ++
      String.join (names.map fun name => "/" ++ name.text) := by
  have hempty : (⟨""⟩ : DiskPath).components = [] := by decide
  rw [importPathOf, relativeTo?, components_directoryAt hl h,
    List.isPrefixOf?_eq_some_iff_append_eq.2 rfl, Option.map_some, Option.getD_some,
    ofComponents_eq, GoModule.importPath, components_pathBelow _ h, hempty, List.nil_append, List.map_map]
  rfl

/-- Different directories have different import paths if their names are texts. Other names are
spelled with replacement characters, and there a name can be spelled like another one. -/
theorem importPathOf_inj (hl : l.Rooted) (ha : ∀ name ∈ above, IsPlain name ∧ name.isText = true)
    (hb : ∀ name ∈ below, IsPlain name ∧ name.isText = true)
    (h : l.importPathOf (l.directoryAt above) = l.importPathOf (l.directoryAt below)) :
    above = below := by
  -- The segments of what follows the module path are the names.
  have hsegments : ∀ names : Location, (∀ name ∈ names, IsPlain name ∧ name.isText = true) →
      (⟨.ofText (String.join (names.map fun name => "/" ++ name.text))⟩ : DiskPath).segments =
        .ofText "" :: names := by
    intro names hnames
    induction names using List.reverseRecOn with
    | nil => rfl
    | append_singleton names name ih =>
      obtain ⟨hplain, htext⟩ := hnames name (by simp)
      have hsingle : String.join ["/" ++ name.text] = "/" ++ name.text := by simp
      rw [List.map_append, String.join_append, List.map_singleton, hsingle, ← String.append_assoc,
        RawText.ofText_append, RawText.ofText_append, RawText.ofText_text htext, segments_append,
        ih fun n hn => hnames n (by simp [hn]), segments_of_no_slash hplain.2.2]
      rfl
  rw [importPathOf_directoryAt hl fun n hn => (ha n hn).1,
    importPathOf_directoryAt hl fun n hn => (hb n hn).1, String.append_right_inj] at h
  have hcons := hsegments above ha
  rw [h, hsegments below hb] at hcons
  exact (List.cons.inj hcons).2.symm

/-! ## Selected directories -/

/-- The pattern that a text means to a loader. -/
def patternOf (l : Loader) (spec : String) : Except PatternFault Pattern :=
  Pattern.parse spec l.module.manifest.module l.cwd

/-- Names that a pattern is resolved to are plain. -/
theorem isPlain_resolve? {cs : List Component} (habove : ∀ name ∈ above, IsPlain name)
    (hcs : ∀ name, .name name ∈ cs → IsPlain name) (h : Pattern.resolve? above cs = some names) :
    ∀ name ∈ names, IsPlain name := by
  fun_induction Pattern.resolve? above cs with
  | case1 above =>
    rw [← Option.some.inj h]
    intro name hname
    exact habove name (List.mem_reverse.1 hname)
  | case2 above text rest ih =>
    refine ih (List.forall_mem_cons.2 ⟨hcs text (by simp), habove⟩) ?_ h
    exact fun t ht => hcs t (List.mem_cons_of_mem _ ht)
  | case3 above rest ih => exact ih habove (fun t ht => hcs t (List.mem_cons_of_mem _ ht)) h
  | case4 rest => cases h
  | case5 rest name above ih =>
    exact ih (fun n hn => habove n (List.mem_cons_of_mem _ hn))
      (fun t ht => hcs t (List.mem_cons_of_mem _ ht)) h
  | case6 above rest => cases h

/-- **A pattern names plain names**, whatever it is resolved for. -/
theorem isPlain_of_parse {module : String} {cwd : DiskPath}
    (h : Pattern.parse spec module cwd = .ok pattern) :
    ∀ name ∈ pattern.directory, IsPlain name := by
  rw [Pattern.parse] at h
  split at h
  · cases h
  · dsimp only at h
    split at h
    · cases h
    · split at h
      · cases h
      · next path _ =>
        split at h
        · cases h
        · next names hnames =>
          cases h
          exact isPlain_resolve? (by simp) (fun _ => isPlain_of_mem_components) hnames

theorem isPlain_patternOf (h : l.patternOf spec = .ok pattern) :
    ∀ name ∈ pattern.directory, IsPlain name :=
  isPlain_of_parse h

/-- The directories that a pattern selects, by their names. -/
def selection (l : Loader) (pattern : Pattern) : List Location :=
  pattern.directory :: if pattern.isRecursive then
    (walk l.disk.tree (l.base ++ pattern.directory)).map (pattern.directory ++ ·) else []

/-- Whether a directory is selected by one of some patterns. -/
def Selects (l : Loader) (patterns : List String) (names : Location) : Prop :=
  ∃ spec ∈ patterns, ∃ pattern, l.patternOf spec = .ok pattern ∧ names ∈ l.selection pattern

/-- Whether patterns begin at directories of the module. -/
def Starts (l : Loader) (patterns : List String) : Prop :=
  ∀ spec ∈ patterns, ∃ pattern, l.patternOf spec = .ok pattern ∧
    l.disk.tree.get? (l.base ++ pattern.directory) = some .directory

/-- Whether patterns begin at directories that can be read. -/
def Begins (l : Loader) (patterns : List String) : Prop :=
  ∀ spec ∈ patterns, ∃ pattern, l.patternOf spec = .ok pattern ∧
    l.disk.isDirectory (l.directoryAt pattern.directory) = true

theorem isDirectory_directoryAt (hl : l.Sound) (h : ∀ name ∈ names, IsPlain name) :
    l.disk.isDirectory (l.directoryAt names) = true ↔
      l.disk.tree.get? (l.base ++ names) = some .directory := by
  rw [Disk.isDirectory_iff hl.disk (directoryAt_ne_empty hl.rooted names), reaches_directoryAt hl h]

theorem begins_iff (hl : l.Sound) {patterns : List String} :
    l.Begins patterns ↔ l.Starts patterns := by
  refine forall₂_congr fun spec _ => exists_congr fun pattern => and_congr_right fun hpattern => ?_
  exact isDirectory_directoryAt hl (isPlain_patternOf hpattern)

theorem isPlain_selection (hl : l.Rooted) (hp : ∀ name ∈ pattern.directory, IsPlain name)
    (h : names ∈ l.selection pattern) : ∀ name ∈ names, IsPlain name := by
  rw [selection, List.mem_cons] at h
  rcases h with rfl | h
  · exact hp
  · split at h
    · obtain ⟨below, hbelow, rfl⟩ := List.mem_map.1 h
      apply isPlain_of_entry hl
      rw [← List.append_assoc, (mem_walk.1 hbelow).2.1]
      simp
    · cases h

theorem Selects.isPlain (hl : l.Rooted) {patterns : List String} (h : l.Selects patterns names) :
    ∀ name ∈ names, IsPlain name := by
  obtain ⟨spec, -, pattern, hpattern, hnames⟩ := h
  exact isPlain_selection hl (isPlain_patternOf hpattern) hnames

theorem directory_of_mem_selection
    (hstart : l.disk.tree.get? (l.base ++ pattern.directory) = some .directory)
    (h : names ∈ l.selection pattern) : l.disk.tree.get? (l.base ++ names) = some .directory := by
  rw [selection, List.mem_cons] at h
  rcases h with rfl | h
  · exact hstart
  · split at h
    · obtain ⟨below, hbelow, rfl⟩ := List.mem_map.1 h
      rw [← List.append_assoc]
      exact (mem_walk.1 hbelow).2.1
    · cases h

theorem Selects.directory {patterns : List String} (h : l.Selects patterns names)
    (hstarts : l.Starts patterns) : l.disk.tree.get? (l.base ++ names) = some .directory := by
  obtain ⟨spec, hspec, pattern, hpattern, hnames⟩ := h
  obtain ⟨pattern', hpattern', hstart⟩ := hstarts spec hspec
  obtain rfl := Except.ok.inj (hpattern.symm.trans hpattern')
  exact directory_of_mem_selection hstart hnames

/-- **The directories of a pattern** are its selection, if it begins at a directory. -/
theorem directories_ok_iff (hl : l.Rooted) (hp : ∀ name ∈ pattern.directory, IsPlain name)
    {ds : List DiskPath} : l.directories spec pattern = .ok ds ↔
      l.disk.isDirectory (l.directoryAt pattern.directory) = true ∧
        ds = (l.selection pattern).map l.directoryAt := by
  have hstart : l.module.root.join pattern.path = l.directoryAt pattern.directory := rfl
  rw [directories, hstart]
  split
  · next h =>
    rw [(Disk.reaches_of_isDirectory h).1, selection, place_directoryAt hl hp]
    have hwalk : (walk l.disk.tree (l.base ++ pattern.directory)).map
          (pathBelow (l.directoryAt pattern.directory)) =
        ((walk l.disk.tree (l.base ++ pattern.directory)).map (pattern.directory ++ ·)).map
          l.directoryAt := by
      rw [List.map_map]
      refine List.map_congr_left fun below hbelow => pathBelow_directoryAt hp ?_
      have hentry : l.disk.tree.get? (l.base ++ (pattern.directory ++ below)) ≠ none := by
        rw [← List.append_assoc, (mem_walk.1 hbelow).2.1]
        simp
      exact fun name hname => isPlain_of_entry hl hentry name (List.mem_append_right _ hname)
    split
    · rw [Except.ok.injEq, List.map_cons, ← hwalk]
      exact ⟨fun he => ⟨h, he.symm⟩, fun he => he.2.symm⟩
    · rw [Except.ok.injEq]
      exact ⟨fun he => ⟨h, he.symm⟩, fun he => he.2.symm⟩
  · next h => exact ⟨nofun, fun he => absurd he.1 h⟩

/-! ## Loaded packages -/

variable {packages packages' : List Package} {package : Package} {selected : Location → Prop}

/-- The package in a directory of the module, if there is one. -/
def packageIn (l : Loader) (names : Location) : Except Failure (Option Package) :=
  (l.loadDirectory (l.importPathOf (l.directoryAt names)) (l.directoryAt names)).result

theorem loadFiles_cons (l : Loader) (directory : DiskPath) (expected : Option String)
    (name : String) (ns : List String) : l.loadFiles directory expected (name :: ns) =
      l.readSource (directory.join ⟨name⟩) >>= fun
        | none => l.loadFiles directory expected ns
        | some source => joins expected (directory.join ⟨name⟩) source >>= fun joined =>
          if joined then
            .note .trace ("parsed " ++ (directory.join ⟨name⟩).text) >>= fun _ =>
              l.loadFiles directory (some source.package) ns >>= fun files =>
                return { path := directory.join ⟨name⟩, source } :: files
          else l.loadFiles directory expected ns := by
  rfl

/-- A file is read if its constraint holds and its text can be parsed. -/
theorem readSource_ok {path : DiskPath} {text : String} {source : SourceFile}
    (htext : l.disk.readText path = .ok text) (hmatch : l.target.matchesSource text = .ok true)
    (hparse : SourceFile.parse text = .ok source) :
    (l.readSource path).result = .ok (some source) := by
  refine Report.bind_ok_iff.2 ⟨text, mapError_ok_iff.2 htext, Report.bind_ok_iff.2 ⟨true, ?_, ?_⟩⟩
  · rw [isSelected, hmatch]
    rfl
  · rw [if_pos rfl]
    exact Report.bind_ok_iff.2 ⟨source, mapError_ok_iff.2 hparse, rfl⟩

/-- The only file of a directory makes a package. -/
theorem loadFiles_singleton {directory : DiskPath} {name : String} {source : SourceFile}
    (h : (l.readSource (directory.join ⟨name⟩)).result = .ok (some source)) :
    (l.loadFiles directory none [name]).result = .ok [⟨directory.join ⟨name⟩, source⟩] := by
  rw [loadFiles_cons]
  refine Report.bind_ok_iff.2 ⟨some source, h, Report.bind_ok_iff.2 ⟨true, rfl, ?_⟩⟩
  rw [if_pos rfl]
  exact Report.bind_ok_iff.2 ⟨(), rfl, Report.bind_ok_iff.2 ⟨[], rfl, rfl⟩⟩

theorem parse_of_readSource {path : DiskPath} {source : SourceFile}
    (h : (l.readSource path).result = .ok (some source)) :
    ∃ text, SourceFile.parse text = .ok source := by
  obtain ⟨text, -, h⟩ := Report.bind_ok_iff.1 h
  obtain ⟨selected, -, h⟩ := Report.bind_ok_iff.1 h
  cases selected with
  | false => cases h
  | true =>
    refine ⟨text, ?_⟩
    rw [if_pos rfl] at h
    obtain ⟨parsed, hparsed, h⟩ := Report.bind_ok_iff.1 h
    cases h
    exact mapError_ok_iff.1 hparsed

/-- The files of a package are parsed from texts. -/
theorem parse_of_loadFiles {directory : DiskPath} {expected : Option String} {ns : List String}
    {files : List PackageFile} (h : (l.loadFiles directory expected ns).result = .ok files) :
    ∀ f ∈ files, ∃ text, SourceFile.parse text = .ok f.source := by
  induction ns generalizing expected files with
  | nil =>
    obtain rfl : [] = files := Except.ok.inj h
    simp
  | cons name ns ih =>
    rw [loadFiles_cons] at h
    obtain ⟨source?, hsource, h⟩ := Report.bind_ok_iff.1 h
    cases source? with
    | none => exact ih h
    | some source =>
      obtain ⟨joined, -, h⟩ := Report.bind_ok_iff.1 h
      cases joined with
      | false => exact ih h
      | true =>
        rw [if_pos rfl] at h
        obtain ⟨-, -, h⟩ := Report.bind_ok_iff.1 h
        obtain ⟨rest, hrest, h⟩ := Report.bind_ok_iff.1 h
        cases h
        exact List.forall_mem_cons.2 ⟨parse_of_readSource hsource, ih hrest⟩

/-- The package that files form, if there are any. -/
def packageOf (path : String) (directory : DiskPath) : List PackageFile → Option Package
  | [] => none
  | first :: rest =>
    some { path, name := first.source.package, directory, files := first :: rest }

/-- A directory is read, and then its selected files. -/
theorem packageIn_def (l : Loader) (names : Location) : l.packageIn names =
    (l.disk.readDirectory (l.directoryAt names)).mapError .read >>= fun entries =>
      (l.loadFiles (l.directoryAt names) none (l.selectedNames entries)).result.map
        (packageOf (l.importPathOf (l.directoryAt names)) (l.directoryAt names)) := by
  rw [packageIn, loadDirectory, Report.result_bind, Report.result_ofExcept]
  congr 1
  funext entries
  rw [Report.result_bind]
  cases (l.loadFiles (l.directoryAt names) none (l.selectedNames entries)).result with
  | error failure => rfl
  | ok files => cases files <;> rfl

/-- **The package in a directory** is formed by the files that are selected there. -/
theorem packageIn_eq (hl : l.Sound)
    (hdir : l.disk.tree.get? (l.base ++ names) = some .directory) :
    l.packageIn names =
      (l.loadFiles (l.directoryAt names) none
        (l.selectedNames (l.disk.tree.children (l.base ++ names)))).result.map
          (packageOf (l.importPathOf (l.directoryAt names)) (l.directoryAt names)) := by
  have hplain := isPlain_of_entry hl.rooted (by rw [hdir]; simp)
  have hreach := (reaches_directoryAt hl hplain).2 hdir
  rw [packageIn_def, Disk.readDirectory_of_reaches hl.disk (directoryAt_ne_empty hl.rooted names)
    hreach, place_directoryAt hl.rooted hplain]
  rfl

/-- The only source file of a directory is its package. -/
theorem packageIn_singleton (hl : l.Sound)
    (hdir : l.disk.tree.get? (l.base ++ names) = some .directory) {name : String}
    (hnames : (l.disk.tree.children (l.base ++ names)).filterMap l.selectedName? = [name])
    {text : String}
    {source : SourceFile} (htext : l.disk.readText ((l.directoryAt names).join ⟨name⟩) = .ok text)
    (hmatch : l.target.matchesSource text = .ok true)
    (hparse : SourceFile.parse text = .ok source) :
    l.packageIn names = .ok (some ⟨l.importPathOf (l.directoryAt names), source.package,
      l.directoryAt names, [⟨(l.directoryAt names).join ⟨name⟩, source⟩]⟩) := by
  rw [packageIn_eq hl hdir, selectedNames_singleton hnames,
    loadFiles_singleton (readSource_ok htext hmatch hparse)]
  rfl

/-- What a package is loaded from. -/
theorem packageIn_some (h : l.packageIn names = .ok (some package)) :
    ∃ entries first rest, l.disk.readDirectory (l.directoryAt names) = .ok entries ∧
      (l.loadFiles (l.directoryAt names) none (l.selectedNames entries)).result =
        .ok (first :: rest) ∧
      package = ⟨l.importPathOf (l.directoryAt names), first.source.package, l.directoryAt names,
        first :: rest⟩ := by
  obtain ⟨entries, hentries, h⟩ := Report.bind_ok_iff.1 h
  obtain ⟨files, hfiles, h⟩ := Report.bind_ok_iff.1 h
  cases files with
  | nil => cases h
  | cons first rest =>
    obtain ⟨-, -, h⟩ := Report.bind_ok_iff.1 h
    cases h
    exact ⟨entries, first, rest, mapError_ok_iff.1 hentries, hfiles, rfl⟩

theorem path_of_packageIn (h : l.packageIn names = .ok (some package)) :
    package.path = l.importPathOf (l.directoryAt names) ∧
      package.directory = l.directoryAt names ∧
      ∃ text source, SourceFile.parse text = .ok source ∧ source.package = package.name := by
  obtain ⟨entries, first, rest, -, hfiles, rfl⟩ := packageIn_some h
  obtain ⟨text, htext⟩ := parse_of_loadFiles hfiles first (by simp)
  exact ⟨rfl, rfl, text, first.source, htext, rfl⟩

/-- Packages that selected directories hold. A selected directory brings no package if it holds none
or if a package of its import path is loaded already. -/
structure Loaded (l : Loader) (selected : Location → Prop) (packages : List Package) : Prop where
  mem : ∀ p ∈ packages, ∃ names, selected names ∧ l.packageIn names = .ok (some p)
  covers : ∀ names, selected names →
    (∃ p ∈ packages, p.path = l.importPathOf (l.directoryAt names)) ∨ l.packageIn names = .ok none
  distinct : packages.Pairwise fun p q => p.path ≠ q.path

/-- A directory is loaded unless its import path is that of a package that is loaded already. -/
def visit (l : Loader) (packages : List Package) (names : Location) :
    Except Failure (List Package) :=
  if packages.any (·.path == l.importPathOf (l.directoryAt names)) then .ok packages
  else (l.packageIn names).map fun r => packages ++ r.toList

/-- Directories are visited one after another. -/
theorem result_loadDirectories (ns : List Location) :
    (l.loadDirectories packages (ns.map l.directoryAt)).result = ns.foldlM l.visit packages := by
  induction ns generalizing packages with
  | nil => rfl
  | cons names ns ih =>
    rw [List.map_cons, loadDirectories, List.foldlM_cons, visit]
    split
    · exact ih
    · rw [Report.result_bind]
      change l.packageIn names >>= _ = (l.packageIn names).map _ >>= _
      cases l.packageIn names with
      | error failure => rfl
      | ok r =>
        cases r with
        | none =>
          change _ = ns.foldlM l.visit (packages ++ [])
          rw [List.append_nil]
          exact ih
        | some p => exact ih

theorem foldlM_visit_cons_ok_iff {ns : List Location} :
    (names :: ns).foldlM l.visit packages = .ok packages' ↔
      ∃ next, l.visit packages names = .ok next ∧ ns.foldlM l.visit next = .ok packages' := by
  rw [List.foldlM_cons]
  cases l.visit packages names with
  | error failure => exact ⟨nofun, nofun⟩
  | ok next => simp [bind, Except.bind]

/-- A directory brings the package that it holds, unless there is one of its import path. -/
theorem visit_ok (h : l.visit packages names = .ok packages') :
    packages' = packages ∧
      (∃ p ∈ packages, p.path = l.importPathOf (l.directoryAt names)) ∨
    ∃ r, l.packageIn names = .ok r ∧ packages' = packages ++ r.toList ∧
      ∀ p ∈ packages, p.path ≠ l.importPathOf (l.directoryAt names) := by
  rw [visit] at h
  split at h
  · next hany =>
    obtain ⟨p, hp, hpath⟩ := List.any_eq_true.1 hany
    exact Or.inl ⟨(Except.ok.inj h).symm, p, hp, eq_of_beq hpath⟩
  · next hany =>
    cases hr : l.packageIn names with
    | error failure =>
      rw [hr] at h
      cases h
    | ok r =>
      rw [hr] at h
      refine Or.inr ⟨r, rfl, (Except.ok.inj h).symm, fun p hp hpath => hany ?_⟩
      exact List.any_eq_true.2 ⟨p, hp, by rw [hpath]; exact beq_self_eq_true _⟩

theorem visit_known (h : ∃ p ∈ packages, p.path = l.importPathOf (l.directoryAt names)) :
    l.visit packages names = .ok packages := by
  obtain ⟨p, hp, hpath⟩ := h
  rw [visit, if_pos]
  exact List.any_eq_true.2 ⟨p, hp, by rw [hpath]; exact beq_self_eq_true _⟩

theorem visit_new {r : Option Package} (hr : l.packageIn names = .ok r)
    (h : ∀ p ∈ packages, p.path ≠ l.importPathOf (l.directoryAt names)) :
    l.visit packages names = .ok (packages ++ r.toList) := by
  rw [visit, if_neg, hr]
  · rfl
  · rw [List.any_eq_true]
    exact fun ⟨p, hp, hpath⟩ => h p hp (eq_of_beq hpath)

theorem visit_none (h : l.packageIn names = .ok none) : l.visit packages names = .ok packages := by
  rw [visit, h]
  split
  · rfl
  · exact congrArg Except.ok (List.append_nil packages)

/-- A directory without a package brings nothing. -/
theorem visit_unchanged (hnone : ∀ p, l.packageIn names ≠ .ok (some p))
    (h : l.visit packages names = .ok packages') : packages' = packages := by
  rcases visit_ok h with ⟨heq, -⟩ | ⟨r, hr, heq, -⟩
  · exact heq
  · cases r with
    | none => rw [heq, Option.toList_none, List.append_nil]
    | some p => exact absurd hr (hnone p)

/-- **A visit adds the directory** to those whose packages are loaded. -/
theorem Loaded.visit (h : l.Loaded selected packages) (hv : l.visit packages names = .ok packages') :
    l.Loaded (fun x => selected x ∨ x = names) packages' := by
  rcases visit_ok hv with ⟨rfl, hpath⟩ | ⟨r, hr, rfl, hpaths⟩
  · refine ⟨fun p hp => ?_, fun x hx => ?_, h.distinct⟩
    · obtain ⟨x, hx, hpackage⟩ := h.mem p hp
      exact ⟨x, Or.inl hx, hpackage⟩
    · rcases hx with hx | rfl
      · exact h.covers x hx
      · exact Or.inl hpath
  · refine ⟨fun p hp => ?_, fun x hx => ?_, ?_⟩
    · rcases List.mem_append.1 hp with hp | hp
      · obtain ⟨x, hx, hpackage⟩ := h.mem p hp
        exact ⟨x, Or.inl hx, hpackage⟩
      · exact ⟨names, Or.inr rfl, by rw [hr, Option.mem_toList.1 hp]⟩
    · rcases hx with hx | rfl
      · refine (h.covers x hx).imp_left fun ⟨p, hp, hpath⟩ => ⟨p, ?_, hpath⟩
        exact List.mem_append_left _ hp
      · cases r with
        | none => exact Or.inr hr
        | some p => exact Or.inl ⟨p, by simp, (path_of_packageIn hr).1⟩
    · refine List.pairwise_append.2 ⟨h.distinct, by cases r <;> simp, fun p hp q hq hpath => ?_⟩
      rw [Option.mem_toList.1 hq] at hr
      exact hpaths p hp (hpath.trans (path_of_packageIn hr).1)

theorem Loaded.congr {selected' : Location → Prop} (h : l.Loaded selected packages)
    (hsame : ∀ x, selected' x ↔ selected x) : l.Loaded selected' packages where
  mem p hp := by simpa only [hsame] using h.mem p hp
  covers x hx := h.covers x ((hsame x).1 hx)
  distinct := h.distinct

theorem Loaded.foldlM_visit {ns : List Location} (h : l.Loaded selected packages)
    (hload : ns.foldlM l.visit packages = .ok packages') :
    l.Loaded (fun x => selected x ∨ x ∈ ns) packages' := by
  induction ns generalizing packages selected with
  | nil =>
    obtain rfl : packages = packages' := Except.ok.inj hload
    exact h.congr (by simp)
  | cons names ns ih =>
    obtain ⟨next, hnext, hload⟩ := foldlM_visit_cons_ok_iff.1 hload
    refine (ih (h.visit hnext) hload).congr fun x => ?_
    rw [List.mem_cons, or_assoc]

theorem foldlM_visit_ok (packages : List Package) {ns : List Location}
    (hread : ∀ x ∈ ns, ∃ r, l.packageIn x = .ok r) :
    ∃ packages', ns.foldlM l.visit packages = .ok packages' := by
  induction ns generalizing packages with
  | nil => exact ⟨packages, rfl⟩
  | cons names ns ih =>
    obtain ⟨⟨r, hr⟩, hns⟩ := List.forall_mem_cons.1 hread
    obtain ⟨next, hnext⟩ : ∃ next, l.visit packages names = .ok next := by
      rw [Loader.visit, hr]
      split <;> exact ⟨_, rfl⟩
    obtain ⟨packages', hrest⟩ := ih next hns
    exact ⟨packages', foldlM_visit_cons_ok_iff.2 ⟨next, hnext, hrest⟩⟩

/-- A pattern is parsed, and the directories that it selects are visited. -/
theorem loadPatterns_cons_ok_iff (hl : l.Rooted) {specs : List String} :
    (l.loadPatterns packages (spec :: specs)).result = .ok packages' ↔
      ∃ pattern, l.patternOf spec = .ok pattern ∧
        l.disk.isDirectory (l.directoryAt pattern.directory) = true ∧
        ∃ next, (l.selection pattern).foldlM l.visit packages = .ok next ∧
          (l.loadPatterns next specs).result = .ok packages' := by
  have hcons : l.loadPatterns packages (spec :: specs) =
      Report.ofExcept ((l.patternOf spec).mapError .invalidPattern) >>= fun pattern =>
        Report.ofExcept (l.directories spec pattern) >>= fun ds =>
          l.loadDirectories packages ds >>= fun next => l.loadPatterns next specs := rfl
  rw [hcons, Report.bind_ok_iff]
  refine exists_congr fun pattern => ?_
  rw [mapError_ok_iff]
  refine and_congr_right fun hpattern => ?_
  simp only [Report.bind_ok_iff, Report.result_ofExcept,
    directories_ok_iff hl (isPlain_patternOf hpattern), and_assoc, exists_and_left,
    exists_eq_left, result_loadDirectories]

theorem loadPatterns_loaded (hl : l.Rooted) {specs : List String} (h : l.Loaded selected packages)
    (hload : (l.loadPatterns packages specs).result = .ok packages') :
    l.Begins specs ∧ l.Loaded (fun x => selected x ∨ l.Selects specs x) packages' := by
  induction specs generalizing packages selected with
  | nil =>
    obtain rfl : packages = packages' := Except.ok.inj hload
    exact ⟨by simp [Begins], h.congr (by simp [Selects])⟩
  | cons spec specs ih =>
    obtain ⟨pattern, hpattern, hstart, next, hnext, hload⟩ := (loadPatterns_cons_ok_iff hl).1 hload
    obtain ⟨hstarts, hloaded⟩ := ih (h.foldlM_visit hnext) hload
    refine ⟨List.forall_mem_cons.2 ⟨⟨pattern, hpattern, hstart⟩, hstarts⟩, ?_⟩
    refine hloaded.congr fun x => ?_
    simp only [Selects, List.exists_mem_cons_iff, hpattern, Except.ok.injEq, exists_eq_left',
      or_assoc]

theorem loadPatterns_ok (hl : l.Rooted) (packages : List Package) {specs : List String}
    (hstarts : l.Begins specs)
    (hread : ∀ x, l.Selects specs x → ∃ r, l.packageIn x = .ok r) :
    ∃ packages', (l.loadPatterns packages specs).result = .ok packages' := by
  induction specs generalizing packages with
  | nil => exact ⟨packages, rfl⟩
  | cons spec specs ih =>
    obtain ⟨⟨pattern, hpattern, hstart⟩, hspecs⟩ := List.forall_mem_cons.1 hstarts
    obtain ⟨next, hnext⟩ := foldlM_visit_ok packages
      fun x hx => hread x ⟨spec, by simp, pattern, hpattern, hx⟩
    obtain ⟨packages', hrest⟩ := ih next hspecs fun x ⟨s, hs, hx⟩ =>
      hread x ⟨s, List.mem_cons_of_mem _ hs, hx⟩
    exact ⟨packages', (loadPatterns_cons_ok_iff hl).2 ⟨pattern, hpattern, hstart, next, hnext, hrest⟩⟩

theorem result_load (l : Loader) (patterns : List String) :
    (l.load patterns).result = (l.loadPatterns [] patterns).result >>= fun ps =>
      match ps with
      | [] => .error (.noPackages patterns)
      | ps => .ok (ps.mergeSort fun a b => decide (a.path ≤ b.path)) := by
  rw [load, Report.result_bind]
  congr 1
  funext ps
  cases ps <;> rfl

/-- Sorting packages of different import paths puts them in strict order. -/
theorem Loaded.sorted (h : l.Loaded selected packages) :
    (packages.mergeSort fun a b => decide (a.path ≤ b.path)).Pairwise
      fun p q => p.path < q.path := by
  have hle : (packages.mergeSort fun a b => decide (a.path ≤ b.path)).Pairwise
      fun p q => p.path ≤ q.path := by
    refine (List.pairwise_mergeSort ?_ ?_ _).imp fun h => of_decide_eq_true h
    · intro a b c hab hbc
      exact decide_eq_true (le_trans (of_decide_eq_true hab) (of_decide_eq_true hbc))
    · intro a b
      simpa using le_total a.path b.path
  have hne : (packages.mergeSort fun a b => decide (a.path ≤ b.path)).Pairwise
      fun p q => p.path ≠ q.path :=
    ((List.mergeSort_perm _ _).pairwise_iff fun h => Ne.symm h).2 h.distinct
  exact (hle.and hne).imp fun h => lt_of_le_of_ne h.1 h.2

theorem load_ok_iff_loadPatterns {patterns : List String} :
    (l.load patterns).result = .ok packages ↔ ∃ ps, (l.loadPatterns [] patterns).result = .ok ps ∧
      ps ≠ [] ∧ packages = ps.mergeSort fun a b => decide (a.path ≤ b.path) := by
  rw [result_load]
  cases (l.loadPatterns [] patterns).result with
  | error failure => exact ⟨nofun, nofun⟩
  | ok ps =>
    cases ps with
    | nil => exact ⟨nofun, fun ⟨ps, hps, hne, _⟩ => absurd (Except.ok.inj hps).symm hne⟩
    | cons p ps =>
      constructor
      · intro h
        exact ⟨p :: ps, rfl, by simp, (Except.ok.inj h).symm⟩
      · rintro ⟨ps', hps, -, rfl⟩
        obtain rfl := Except.ok.inj hps
        rfl

theorem loaded_nil (l : Loader) : l.Loaded (fun _ => False) [] :=
  ⟨by simp, by simp, List.Pairwise.nil⟩

/-- **What a load gives**: packages that selected directories hold, by increasing import path. -/
theorem Rooted.load_ok (hl : l.Rooted) {patterns : List String}
    (h : (l.load patterns).result = .ok packages) :
    l.Begins patterns ∧ packages ≠ [] ∧ packages.Pairwise (fun p q => p.path < q.path) ∧
      l.Loaded (l.Selects patterns) packages := by
  obtain ⟨ps, hps, hne, rfl⟩ := load_ok_iff_loadPatterns.1 h
  obtain ⟨hbegins, hloaded⟩ := loadPatterns_loaded hl (loaded_nil l) hps
  have hloaded : l.Loaded (l.Selects patterns) ps := hloaded.congr (by simp)
  have hperm := List.mergeSort_perm ps fun a b => decide (a.path ≤ b.path)
  refine ⟨hbegins, fun hnil => hne ?_, hloaded.sorted, ?_⟩
  · rw [hnil] at hperm
    exact hperm.symm.eq_nil
  · refine ⟨?_, ?_, ?_⟩
    · exact fun p hp => hloaded.mem p (hperm.mem_iff.1 hp)
    · simpa only [hperm.mem_iff] using hloaded.covers
    · exact hloaded.sorted.imp fun h => ne_of_lt h

/-- Whether the selected directories that hold anything have their own import paths. -/
def OwnPaths (l : Loader) (patterns : List String) : Prop :=
  ∀ x y, l.Selects patterns x → l.Selects patterns y →
    l.importPathOf (l.directoryAt x) = l.importPathOf (l.directoryAt y) →
      x = y ∨ l.packageIn x = .ok none ∨ l.packageIn y = .ok none

/-- Directories have their own import paths if their names are texts. -/
theorem ownPaths_of_isText (hl : l.Rooted) {patterns : List String}
    (h : ∀ x, l.Selects patterns x → ∀ name ∈ x, name.isText = true) : l.OwnPaths patterns :=
  fun x y hx hy hpath => Or.inl <| importPathOf_inj hl
    (fun n hn => ⟨hx.isPlain hl n hn, h x hx n hn⟩)
    (fun n hn => ⟨hy.isPlain hl n hn, h y hy n hn⟩) hpath

/-- Where selected directories have their own import paths, each one is read. -/
theorem Loaded.read {patterns : List String} (h : l.Loaded (l.Selects patterns) packages)
    (hown : l.OwnPaths patterns) (hnames : l.Selects patterns names) :
    ∃ r, l.packageIn names = .ok r ∧ ∀ p, r = some p → p ∈ packages := by
  rcases h.covers names hnames with ⟨p, hp, hpath⟩ | hnone
  · obtain ⟨x, hx, hpackage⟩ := h.mem p hp
    rw [(path_of_packageIn hpackage).1] at hpath
    rcases hown x names hx hnames hpath with rfl | hnone | hnone
    · exact ⟨some p, hpackage, fun q hq => Option.some.inj hq ▸ hp⟩
    · rw [hpackage] at hnone
      cases hnone
    · exact ⟨none, hnone, nofun⟩
  · exact ⟨none, hnone, nofun⟩

theorem Loaded.mem_iff {patterns : List String} (h : l.Loaded (l.Selects patterns) packages)
    (hown : l.OwnPaths patterns) :
    package ∈ packages ↔
      ∃ x, l.Selects patterns x ∧ l.packageIn x = .ok (some package) := by
  refine ⟨h.mem package, fun ⟨x, hx, hpackage⟩ => ?_⟩
  obtain ⟨r, hr, hmem⟩ := h.read hown hx
  exact hmem package (Except.ok.inj (hr.symm.trans hpackage))

/-- **A load gives the packages of the selected directories**, if these have their own import
paths. -/
theorem Rooted.load_ok_iff (hl : l.Rooted) {patterns : List String} (hown : l.OwnPaths patterns) :
    (l.load patterns).result = .ok packages ↔
      l.Begins patterns ∧ (∀ x, l.Selects patterns x → ∃ r, l.packageIn x = .ok r) ∧
        packages ≠ [] ∧ packages.Pairwise (fun p q => p.path < q.path) ∧
        ∀ p, p ∈ packages ↔ ∃ x, l.Selects patterns x ∧ l.packageIn x = .ok (some p) := by
  constructor
  · intro h
    obtain ⟨hbegins, hne, hsorted, hloaded⟩ := hl.load_ok h
    refine ⟨hbegins, fun x hx => ?_, hne, hsorted, fun p => hloaded.mem_iff hown⟩
    obtain ⟨r, hr, -⟩ := hloaded.read hown hx
    exact ⟨r, hr⟩
  · rintro ⟨hbegins, hread, hne, hpairwise, hmem⟩
    obtain ⟨ps, hps⟩ := loadPatterns_ok hl [] hbegins hread
    have hloaded : l.Loaded (l.Selects patterns) ps :=
      (loadPatterns_loaded hl (loaded_nil l) hps).2.congr (by simp)
    have hperm : ps.Perm packages := by
      refine (List.perm_ext_iff_of_nodup ?_ ?_).2 fun q => by rw [hmem, hloaded.mem_iff hown]
      · exact hloaded.distinct.imp fun h he => h (by rw [he])
      · exact hpairwise.imp fun h he => absurd (congrArg Package.path he) (ne_of_lt h)
    refine load_ok_iff_loadPatterns.2 ⟨ps, hps, fun hnil => hne ?_, ?_⟩
    · rw [hnil] at hperm
      exact hperm.symm.eq_nil
    · exact (hperm.symm.trans (List.mergeSort_perm _ _).symm).eq_of_pairwise
        (fun a b _ _ hab hba => absurd hba (lt_asymm hab)) hpairwise hloaded.sorted

/-- Packages that are loaded in order come out as they are. -/
theorem load_of_loadPatterns {patterns : List String}
    (h : (l.loadPatterns [] patterns).result = .ok packages) (hne : packages ≠ [])
    (hsorted : packages.Pairwise fun p q => p.path < q.path) :
    (l.load patterns).result = .ok packages := by
  refine load_ok_iff_loadPatterns.2 ⟨packages, h, hne, Eq.symm ?_⟩
  exact List.mergeSort_of_pairwise (hsorted.imp fun h => decide_eq_true (le_of_lt h))

/-- A pattern loads the packages of the directories that it selects. -/
theorem loadPatterns_visits (hl : l.Sound) {specs : List String} {next : List Package}
    (hpattern : l.patternOf spec = .ok pattern)
    (hdir : l.disk.tree.get? (l.base ++ pattern.directory) = some .directory)
    (hvisits : (l.selection pattern).foldlM l.visit packages = .ok next)
    (h : (l.loadPatterns next specs).result = .ok packages') :
    (l.loadPatterns packages (spec :: specs)).result = .ok packages' :=
  (loadPatterns_cons_ok_iff hl.rooted).2 ⟨pattern, hpattern,
    (isDirectory_directoryAt hl (isPlain_patternOf hpattern)).2 hdir, next, hvisits, h⟩

/-- One package is loaded by a pattern that selects its directory only. -/
theorem load_singleton (hl : l.Sound) (hpattern : l.patternOf spec = .ok pattern)
    (hdir : l.disk.tree.get? (l.base ++ pattern.directory) = some .directory)
    (honly : l.selection pattern = [pattern.directory])
    (hpackage : l.packageIn pattern.directory = .ok (some package)) :
    (l.load [spec]).result = .ok [package] := by
  have hvisits : (l.selection pattern).foldlM l.visit [] = .ok [package] := by
    rw [honly]
    exact foldlM_visit_cons_ok_iff.2 ⟨[package], visit_new hpackage nofun, rfl⟩
  exact load_of_loadPatterns (loadPatterns_visits hl hpattern hdir hvisits rfl) (by simp) (by simp)

/-! ## Another tree -/

/-- The loader on another tree. -/
def onTree (l : Loader) (t : FileTree) : Loader := { l with disk := l.disk.withTree t }

@[simp] theorem onTree_disk (l : Loader) (t : FileTree) :
    (l.onTree t).disk = l.disk.withTree t := rfl

@[simp] theorem onTree_base (l : Loader) (t : FileTree) : (l.onTree t).base = l.base := rfl

theorem Rooted.onTree (hl : l.Rooted) {t : FileTree} (ht : t.WellFormed)
    (hgrows : FileTree.Grows l.disk.tree t) : (l.onTree t).Rooted :=
  ⟨hl.disk.withTree ht hgrows, hl.root⟩

theorem Sound.onTree (hl : l.Sound) {t : FileTree} (ht : t.WellFormed)
    (hgrows : FileTree.Grows l.disk.tree t) : (l.onTree t).Sound where
  disk := hl.disk.withTree ht hgrows
  root := hl.root
  reaches := hl.reaches.grows hgrows

variable {t : FileTree} {patterns : List String}

/-- Whether another tree has the same source files in a directory of the module. -/
def SameSources (l : Loader) (t : FileTree) (names : Location) : Prop :=
  ∀ name, l.isSelectedName name = true → ∀ b,
    t.get? (l.base ++ names ++ [.ofText name]) = some (.file b) ↔
      l.disk.tree.get? (l.base ++ names ++ [.ofText name]) = some (.file b)

theorem loadFiles_congr {l' : Loader} {directory : DiskPath} {ns : List String}
    (h : ∀ name ∈ ns, l'.readSource (directory.join ⟨name⟩) = l.readSource (directory.join ⟨name⟩))
    (expected : Option String) :
    l'.loadFiles directory expected ns = l.loadFiles directory expected ns := by
  induction ns generalizing expected with
  | nil => rfl
  | cons name ns ih =>
    obtain ⟨hname, hns⟩ := List.forall_mem_cons.1 h
    simp only [loadFiles_cons, hname, ih hns]

/-- **The package of a directory depends on the source files in it.** -/
theorem packageIn_congr (hl : l.Sound) (hl' : (l.onTree t).Sound)
    (hdir : l.disk.tree.get? (l.base ++ names) = some .directory)
    (hdir' : t.get? (l.base ++ names) = some .directory) (h : l.SameSources t names) :
    (l.onTree t).packageIn names = l.packageIn names := by
  have hplain := isPlain_of_entry hl.rooted (by rw [hdir]; simp)
  have hreach := (reaches_directoryAt hl hplain).2 hdir
  have hreach' : (l.disk.withTree t).Reaches (l.directoryAt names) :=
    (reaches_directoryAt (l := l.onTree t) hl' hplain).2 hdir'
  have hplace := place_directoryAt hl.rooted hplain
  have hsame : (l.onTree t).selectedNames (t.children (l.base ++ names)) =
      l.selectedNames (l.disk.tree.children (l.base ++ names)) :=
    selectedNames_congr fun name hname => exists_congr fun b => h name hname b
  -- The same names are selected, and each of them holds the same bytes on both disks.
  have hread : ∀ name ∈ l.selectedNames (l.disk.tree.children (l.base ++ names)),
      (l.onTree t).readSource ((l.directoryAt names).join ⟨name⟩) =
        l.readSource ((l.directoryAt names).join ⟨name⟩) := by
    intro name hname
    obtain ⟨hselected, b, hb⟩ := mem_selectedNames.1 hname
    have hplainName : IsPlain (.ofText name) := hl.disk.tree.plain _ (by rw [hb]; simp) _ (by simp)
    have hb' := (h name hselected b).2 hb
    have htext : (l.disk.withTree t).readText ((l.directoryAt names).join ⟨name⟩) =
        l.disk.readText ((l.directoryAt names).join ⟨name⟩) := by
      rw [← hplace] at hb hb'
      rw [Disk.readText_join_name hl.disk.proper (Disk.refusal?_none hl.disk _) hreach hplainName hb]
      exact Disk.readText_join_name hl'.disk.proper (Disk.refusal?_none hl'.disk _) hreach'
        hplainName hb'
    simp only [readSource, onTree_disk, htext]
    rfl
  rw [packageIn_eq hl hdir, packageIn_eq (l := l.onTree t) hl' hdir', onTree_base, onTree_disk,
    Disk.withTree_tree, hsame]
  exact congrArg (fun r : Report (List PackageFile) => r.result.map
    (packageOf (l.importPathOf (l.directoryAt names)) (l.directoryAt names)))
      (loadFiles_congr hread none)

/-- The directories that a pattern selects are in order. -/
theorem selection_sorted (l : Loader) (pattern : Pattern) :
    (l.selection pattern).Pairwise (· < ·) := by
  rw [selection]
  split
  · refine List.pairwise_cons.2 ⟨fun x hx => ?_, ?_⟩
    · obtain ⟨below, hbelow, rfl⟩ := List.mem_map.1 hx
      obtain ⟨name, names, rfl⟩ := List.exists_cons_of_ne_nil (mem_walk.1 hbelow).1
      have hlt : pattern.directory ++ [] < pattern.directory ++ name :: names :=
        List.append_left_lt (List.nil_lt_cons name names)
      rwa [List.append_nil] at hlt
    · exact List.pairwise_map.2 ((walk_sorted _ _).imp List.append_left_lt)
  · exact List.pairwise_singleton _ _

/-- Visits can leave out directories without a package, if they succeed. -/
theorem foldlM_visit_filter {keep : Location → Bool} {ns : List Location}
    (hout : ∀ x ∈ ns, keep x = false → ∀ p, l.packageIn x ≠ .ok (some p))
    (h : ns.foldlM l.visit packages = .ok packages') :
    (ns.filter keep).foldlM l.visit packages = .ok packages' := by
  induction ns generalizing packages with
  | nil => exact h
  | cons x ns ih =>
    obtain ⟨hx, hns⟩ := List.forall_mem_cons.1 hout
    obtain ⟨next, hnext, hrest⟩ := foldlM_visit_cons_ok_iff.1 h
    cases hkeep : keep x with
    | true =>
      rw [List.filter_cons_of_pos hkeep]
      exact foldlM_visit_cons_ok_iff.2 ⟨next, hnext, ih hns hrest⟩
    | false =>
      rw [List.filter_cons_of_neg (by simp [hkeep])]
      exact ih hns (visit_unchanged (hx hkeep) hnext ▸ hrest)

/-- Visits can take in directories that hold nothing. -/
theorem foldlM_visit_of_filter {keep : Location → Bool} {ns : List Location}
    (hout : ∀ x ∈ ns, keep x = false → l.packageIn x = .ok none) :
    ns.foldlM l.visit packages = (ns.filter keep).foldlM l.visit packages := by
  induction ns generalizing packages with
  | nil => rfl
  | cons x ns ih =>
    obtain ⟨hx, hns⟩ := List.forall_mem_cons.1 hout
    rw [List.foldlM_cons]
    cases hkeep : keep x with
    | true =>
      rw [List.filter_cons_of_pos hkeep, List.foldlM_cons]
      simp only [ih hns]
    | false =>
      rw [List.filter_cons_of_neg (by simp [hkeep]), visit_none (hx hkeep)]
      exact ih hns

/-- **Visits on another tree** load the same packages, if the directories that are visited on one
of the trees only do not count: on the first tree they hold no package, on the second nothing. -/
theorem foldlM_visit_onTree (hl : l.Sound) (hl' : (l.onTree t).Sound)
    (hdir : ∀ x ∈ l.selection pattern, l.disk.tree.get? (l.base ++ x) = some .directory)
    (hgrows : FileTree.Grows l.disk.tree t)
    (hsame : ∀ x ∈ l.selection pattern, l.SameSources t x)
    (hnew : ∀ x ∈ (l.onTree t).selection pattern,
      x ∈ l.selection pattern ∨ (l.onTree t).packageIn x = .ok none)
    (hold : ∀ x ∈ l.selection pattern,
      x ∈ (l.onTree t).selection pattern ∨ ∀ p, l.packageIn x ≠ .ok (some p))
    (h : (l.selection pattern).foldlM l.visit packages = .ok packages') :
    ((l.onTree t).selection pattern).foldlM (l.onTree t).visit packages = .ok packages' := by
  set ns := l.selection pattern
  set ns' := (l.onTree t).selection pattern
  have hvisit : ∀ x ∈ ns, ∀ ps, (l.onTree t).visit ps x = l.visit ps x := by
    intro x hx ps
    rw [visit, packageIn_congr hl hl' (hdir x hx) (hgrows.directory _ (hdir x hx)) (hsame x hx)]
    rfl
  have hcommon : ns'.filter (· ∈ ns) = ns.filter (· ∈ ns') := by
    refine (((l.onTree t).selection_sorted pattern).filter _).eq_of_mem_iff
      ((l.selection_sorted pattern).filter _) fun {x} => ?_
    simp [ns, ns', and_comm]
  rw [foldlM_visit_of_filter
    (fun x hx hout => (hnew x hx).resolve_left (of_decide_eq_false hout)), hcommon]
  rw [foldlM_congr fun x hx => hvisit x (List.mem_filter.1 hx).1]
  exact foldlM_visit_filter
    (fun x hx hout => (hold x hx).resolve_left (of_decide_eq_false hout)) h

/-! ## Trees that have grown -/

/-- A directory without source files has no package. -/
theorem packageIn_none (hl : l.Sound) (hdir : l.disk.tree.get? (l.base ++ names) = some .directory)
    (h : ∀ name, l.isSelectedName name = true → ∀ b,
      l.disk.tree.get? (l.base ++ names ++ [.ofText name]) ≠ some (.file b)) :
    l.packageIn names = .ok none := by
  have hnone : l.selectedNames (l.disk.tree.children (l.base ++ names)) = [] := by
    refine List.eq_nil_iff_forall_not_mem.2 fun name hname => ?_
    obtain ⟨hselected, b, hb⟩ := mem_selectedNames.1 hname
    exact h name hselected b hb
  rw [packageIn_eq hl hdir, hnone]
  rfl

/-- A directory that was there before is not selected newly. -/
theorem mem_selection_of_grown (hgrows : FileTree.Grows l.disk.tree t)
    (h : names ∈ (l.onTree t).selection pattern)
    (hdir : l.disk.tree.get? (l.base ++ names) = some .directory) : names ∈ l.selection pattern := by
  rw [selection, List.mem_cons] at h ⊢
  refine h.imp_right fun h => ?_
  split at h
  · next hrec =>
    obtain ⟨below, hbelow, rfl⟩ := List.mem_map.1 h
    obtain ⟨hne, -, hskip⟩ := mem_walk.1 hbelow
    have hplace : l.disk.tree.get? (l.base ++ pattern.directory ++ below) = some .directory := by
      rw [List.append_assoc]
      exact hdir
    rw [if_pos hrec]
    refine List.mem_map.2 ⟨below, mem_walk.2 ⟨hne, hplace, ?_⟩, rfl⟩
    rw [← Bool.not_eq_true]
    intro hskipped
    rw [onTree_base, onTree_disk, Disk.withTree_tree, isSkippedBelow_grows hgrows hskipped] at hskip
    cases hskip
  · cases h

/-- Whether a manifest at a place keeps a recursive pattern from a directory: it lies below the
beginning of the pattern and at or above the directory. -/
def Hides (l : Loader) (patterns : List String) (place names : Location) : Prop :=
  ∃ spec ∈ patterns, ∃ pattern, l.patternOf spec = .ok pattern ∧ pattern.isRecursive = true ∧
    ∃ pre post, pre ≠ [] ∧ names = pattern.directory ++ (pre ++ post) ∧
      place = l.base ++ pattern.directory ++ pre

/-- A selected directory is selected on a tree that has grown, unless a new manifest hides it. -/
theorem mem_selection_grown_or (hgrows : FileTree.Grows l.disk.tree t) (hspec : spec ∈ patterns)
    (hpattern : l.patternOf spec = .ok pattern) (h : names ∈ l.selection pattern) :
    names ∈ (l.onTree t).selection pattern ∨
      ∃ place, l.Hides patterns place names ∧
        isFileAt l.disk.tree (place ++ [manifestName]) = false ∧
        isFileAt t (place ++ [manifestName]) = true := by
  rw [selection, List.mem_cons] at h
  rcases h with rfl | h
  · exact Or.inl (by rw [selection]; exact List.mem_cons_self)
  · split at h
    · next hrec =>
      obtain ⟨below, hbelow, rfl⟩ := List.mem_map.1 h
      obtain ⟨hne, hdir, hskip⟩ := mem_walk.1 hbelow
      cases hskip' : isSkippedBelow t (l.base ++ pattern.directory) below with
      | false =>
        left
        rw [selection, if_pos hrec]
        refine List.mem_cons_of_mem _ (List.mem_map.2 ⟨below, ?_, rfl⟩)
        exact mem_walk.2 ⟨hne, hgrows.directory _ hdir, hskip'⟩
      | true =>
        obtain ⟨pre, post, rfl, hpre, hold, hnew⟩ := exists_manifest_of_skipped hskip hskip'
        exact Or.inr
          ⟨_, ⟨spec, hspec, pattern, hpattern, hrec, pre, post, hpre, rfl, rfl⟩, hold, hnew⟩
    · cases h

theorem Selects.of_grown (hgrows : FileTree.Grows l.disk.tree t)
    (h : (l.onTree t).Selects patterns names)
    (hdir : l.disk.tree.get? (l.base ++ names) = some .directory) : l.Selects patterns names := by
  obtain ⟨spec, hspec, pattern, hpattern, hnames⟩ := h
  exact ⟨spec, hspec, pattern, hpattern, mem_selection_of_grown hgrows hnames hdir⟩

theorem Selects.grown_or (hgrows : FileTree.Grows l.disk.tree t) (h : l.Selects patterns names) :
    (l.onTree t).Selects patterns names ∨
      ∃ place, l.Hides patterns place names ∧
        isFileAt l.disk.tree (place ++ [manifestName]) = false ∧
        isFileAt t (place ++ [manifestName]) = true := by
  obtain ⟨spec, hspec, pattern, hpattern, hnames⟩ := h
  refine (mem_selection_grown_or hgrows hspec hpattern hnames).imp_left fun hnames' => ?_
  exact ⟨spec, hspec, pattern, hpattern, hnames'⟩

theorem loadPatterns_grown (hl : l.Sound) (ht : t.WellFormed)
    (hgrows : FileTree.Grows l.disk.tree t)
    (hsame : ∀ x, l.Selects patterns x ∨ (l.onTree t).Selects patterns x → l.SameSources t x)
    (hhides : ∀ place x p, l.Selects patterns x → l.packageIn x = .ok (some p) →
      l.Hides patterns place x → isFileAt t (place ++ [manifestName]) = true →
        isFileAt l.disk.tree (place ++ [manifestName]) = true)
    {specs : List String} (hspecs : ∀ spec ∈ specs, spec ∈ patterns)
    (h : (l.loadPatterns packages specs).result = .ok packages') :
    ((l.onTree t).loadPatterns packages specs).result = .ok packages' := by
  have hl' := hl.onTree ht hgrows
  induction specs generalizing packages with
  | nil => exact h
  | cons spec specs ih =>
    obtain ⟨hspec, hspecs⟩ := List.forall_mem_cons.1 hspecs
    obtain ⟨pattern, hpattern, hbegins, next, hnext, hrest⟩ :=
      (loadPatterns_cons_ok_iff hl.rooted).1 h
    have hplain := isPlain_patternOf hpattern
    have hstart := (isDirectory_directoryAt hl hplain).1 hbegins
    have hstart' : t.get? (l.base ++ pattern.directory) = some .directory :=
      hgrows.directory _ hstart
    refine (loadPatterns_cons_ok_iff hl'.rooted).2 ⟨pattern, hpattern,
      (isDirectory_directoryAt (l := l.onTree t) hl' hplain).2 hstart', next, ?_, ih hspecs hrest⟩
    have hdir : ∀ x ∈ l.selection pattern, l.disk.tree.get? (l.base ++ x) = some .directory :=
      fun x hx => directory_of_mem_selection hstart hx
    have hselects : ∀ x ∈ l.selection pattern, l.Selects patterns x :=
      fun x hx => ⟨spec, hspec, pattern, hpattern, hx⟩
    -- The descent differs in two ways only: at new directories, and where a new manifest hides one.
    refine foldlM_visit_onTree hl hl' hdir hgrows (fun x hx => hsame x (Or.inl (hselects x hx)))
      (fun x hx => ?_) (fun x hx => ?_) hnext
    · by_cases hdir : l.disk.tree.get? (l.base ++ x) = some .directory
      · exact Or.inl (mem_selection_of_grown hgrows hx hdir)
      · -- A directory that is new has new entries only, and none of them is a source file.
        right
        refine packageIn_none hl' (directory_of_mem_selection (l := l.onTree t) hstart' hx)
          fun name hname b hb => ?_
        have hold := (hsame x (Or.inr ⟨spec, hspec, pattern, hpattern, hx⟩) name hname b).1 hb
        exact hdir (hl.disk.tree.closed _ name (by rw [hold]; simp))
    · refine (mem_selection_grown_or hgrows hspec hpattern hx).imp_right
        fun ⟨place, hhidden, hold, hnew⟩ p hp => ?_
      rw [hhides place x p (hselects x hx) hp hhidden hnew] at hold
      cases hold

/-- **A load gives the same packages on a tree that has grown** if the selected directories have the
same sources and no package is hidden by a new manifest. -/
theorem load_grown (hl : l.Sound) (ht : t.WellFormed) (hgrows : FileTree.Grows l.disk.tree t)
    (hsame : ∀ x, l.Selects patterns x ∨ (l.onTree t).Selects patterns x → l.SameSources t x)
    (hhides : ∀ place x p, l.Selects patterns x → l.packageIn x = .ok (some p) →
      l.Hides patterns place x → isFileAt t (place ++ [manifestName]) = true →
        isFileAt l.disk.tree (place ++ [manifestName]) = true)
    (h : (l.load patterns).result = .ok packages) :
    ((l.onTree t).load patterns).result = .ok packages := by
  obtain ⟨ps, hps, hne, hsorted⟩ := load_ok_iff_loadPatterns.1 h
  refine load_ok_iff_loadPatterns.2 ⟨ps, ?_, hne, hsorted⟩
  exact loadPatterns_grown hl ht hgrows hsame hhides (fun _ hspec => hspec) hps

end Understudy.Modules.Loader

import Mathlib
import Understudy.Proofs.NestedModules

/-!
# The order of a load

Patterns may overlap, and a directory that is reached once more is not loaded again. Still, which
packages are loaded depends on the set of the patterns only, and they come out in one order:

> **A load depends on what is there and on what is asked for**, not on the order or repetition of
> the patterns, nor on the order in which directories list their entries (`load_unordered`).

Two trees are the same to a loader if they hold the same entries. The lists of entries behind them
may differ, so everything that a loader reads of a tree is followed to `FileTree.get?`.
-/

set_option autoImplicit false

namespace Understudy.Files

open DiskPath

/-- Whether two trees hold the same entries, in whatever order they list them. -/
def FileTree.SameEntries (t t' : FileTree) : Prop := ∀ l, t'.get? l = t.get? l

namespace FileTree.SameEntries

variable {t t' : FileTree} {l start : Location} {segments : List RawText}

theorem follow (h : t.SameEntries t') (limits : Option Limits) :
    t'.follow limits l segments = t.follow limits l segments := by
  induction segments generalizing l with
  | nil => rfl
  | cons segment segments ih => simp only [FileTree.follow, h l, h (l ++ [segment]), ih]

theorem grows (h : t.SameEntries t') : FileTree.Grows t t' :=
  ⟨fun l hl => (h l).trans hl, fun l b hl => ⟨b, (h l).trans hl⟩⟩

theorem wellFormed (h : t.SameEntries t') (ht : t.WellFormed) : t'.WellFormed where
  plain l hl := ht.plain l (by rwa [← h l])
  closed l name hl := (h l).trans (ht.closed l name (by rwa [← h (l ++ [name])]))

end FileTree.SameEntries

namespace Disk

variable {d : Disk} {t : FileTree} {p : DiskPath}

theorem locate_withTree (h : d.tree.SameEntries t) : (d.withTree t).locate p = d.locate p := by
  simp only [locate, withTree, h.follow]

theorem entry_withTree (h : d.tree.SameEntries t) : (d.withTree t).entry p = d.entry p := by
  rw [entry_eq, entry_eq, locate_withTree h]
  congr 1
  funext l
  rw [withTree_tree, h l]

theorem isFile_withTree (h : d.tree.SameEntries t) : (d.withTree t).isFile p = d.isFile p := by
  rw [isFile, isFile, entry_withTree h]

theorem isDirectory_withTree (h : d.tree.SameEntries t) :
    (d.withTree t).isDirectory p = d.isDirectory p := by
  rw [isDirectory, isDirectory, entry_withTree h]

theorem readText_withTree (h : d.tree.SameEntries t) :
    (d.withTree t).readText p = d.readText p := by
  rw [readText, readText, entry_withTree h]

/-- A directory that is read may list its entries in another order. -/
theorem readDirectory_withTree (h : d.tree.SameEntries t) :
    (d.withTree t).readDirectory p =
      (d.readDirectory p).map fun _ => t.children (d.place p) := by
  rw [readDirectory, readDirectory, entry_withTree h, locate_withTree h]
  cases d.entry p with
  | error fault => rfl
  | ok e =>
    cases e with
    | file b => rfl
    | directory =>
      cases hl : d.locate p with
      | error fault => rfl
      | ok l =>
        obtain ⟨-, rfl⟩ := locate_ok hl
        rfl

end Disk

end Understudy.Files

namespace Understudy.Modules.Loader

open Files DiskPath

variable {l : Loader} {t : FileTree} {names start : Location} {patterns specs ps qs : List String}
  {packages : List Package} {package : Package}

/-! ## The same entries -/

theorem isSkippedBelow_congr {t t' : FileTree} (h : t.SameEntries t') :
    isSkippedBelow t' start names = isSkippedBelow t start names := by
  rw [Bool.eq_iff_iff]
  exact ⟨isSkippedBelow_grows (FileTree.SameEntries.grows fun x => (h x).symm),
    isSkippedBelow_grows h.grows⟩

/-- A walk goes the same way, since it is sorted. -/
theorem walk_congr {t t' : FileTree} (h : t.SameEntries t') : walk t' start = walk t start := by
  refine (walk_sorted t' start).eq_of_mem_iff (walk_sorted t start) fun {x} => ?_
  rw [mem_walk, mem_walk, h (start ++ x), isSkippedBelow_congr h]

theorem selection_onTree (h : l.disk.tree.SameEntries t) (pattern : Pattern) :
    (l.onTree t).selection pattern = l.selection pattern := by
  rw [selection, selection, onTree_base, onTree_disk, Disk.withTree_tree, walk_congr h]

/-- The package of a directory is the same, since its files are sorted by name. -/
theorem packageIn_onTree (h : l.disk.tree.SameEntries t) :
    (l.onTree t).packageIn names = l.packageIn names := by
  have hread : ∀ path, (l.onTree t).readSource path = l.readSource path := by
    intro path
    simp only [readSource, onTree_disk, Disk.readText_withTree h]
    rfl
  have hdirectory : (l.onTree t).directoryAt names = l.directoryAt names := rfl
  rw [packageIn_def, packageIn_def, onTree_disk, hdirectory, Disk.readDirectory_withTree h]
  cases hentries : l.disk.readDirectory (l.directoryAt names) with
  | error fault => rfl
  | ok entries =>
    obtain ⟨-, -, rfl⟩ := Disk.readDirectory_ok hentries
    have hnames : (l.onTree t).selectedNames (t.children (l.disk.place (l.directoryAt names))) =
        l.selectedNames (l.disk.tree.children (l.disk.place (l.directoryAt names))) :=
      selectedNames_congr (l := l) fun name _ => by rw [h (_ ++ [RawText.ofText name])]
    change Except.map _ (Report.result _) = Except.map _ (Report.result _)
    rw [hnames, loadFiles_congr (fun name _ => hread _) none]
    rfl

/-- A loader is found again. -/
theorem create_withTree {d : Disk} {directory : DiskPath} {target : Target}
    (h : d.tree.SameEntries t) (hl : Loader.create d directory target = .ok l) :
    Loader.create (d.withTree t) directory target = .ok (l.onTree t) := by
  obtain ⟨hmodule, hdisk, htarget, start, hstart, hcwd⟩ := Loader.create_ok_iff.1 hl
  refine Loader.create_ok_iff.2 ⟨?_, by rw [onTree_disk, hdisk], htarget, start, hstart, hcwd⟩
  obtain ⟨start', hstart', hroot, hload⟩ := GoModule.discover_ok_iff.1 hmodule
  refine GoModule.discover_ok_iff.2 ⟨start', hstart', ?_, ?_⟩
  · simp only [nearestManifest?, Disk.isFile_withTree h]
    exact hroot
  · rw [Manifest.load, Disk.readText_withTree h]
    exact hload

/-! ## The files of a package -/

/-- The files that are loaded are some of those that are named, in the order of the names, and all
belong to one package: the expected one, if a package is expected. -/
theorem loadFiles_spec {directory : DiskPath} {expected : Option String} {ns : List String}
    {files : List PackageFile} (h : (l.loadFiles directory expected ns).result = .ok files) :
    (∃ loaded : List String, loaded.Sublist ns ∧
      files.map (·.path) = loaded.map fun name : String => directory.join ⟨name⟩) ∧
    ∃ package : String, (∀ name, expected = some name → name = package) ∧
      ∀ f ∈ files, f.source.package = package := by
  induction ns generalizing expected files with
  | nil =>
    obtain rfl : [] = files := Except.ok.inj h
    exact ⟨⟨[], by simp, rfl⟩, expected.getD "", by rintro name rfl; rfl, by simp⟩
  | cons name ns ih =>
    -- A file that is passed over changes nothing.
    have hskip : (∃ loaded : List String, loaded.Sublist ns ∧
          files.map (·.path) = loaded.map fun name : String => directory.join ⟨name⟩) →
        ∃ loaded : List String, loaded.Sublist (name :: ns) ∧
          files.map (·.path) = loaded.map fun name : String => directory.join ⟨name⟩ :=
      fun ⟨loaded, hsub, hpaths⟩ => ⟨loaded, hsub.cons name, hpaths⟩
    rw [loadFiles_cons] at h
    obtain ⟨source?, -, h⟩ := Report.bind_ok_iff.1 h
    cases source? with
    | none => exact (ih h).imp_left hskip
    | some source =>
      obtain ⟨joined, hjoined, h⟩ := Report.bind_ok_iff.1 h
      cases joined with
      | false => exact (ih h).imp_left hskip
      | true =>
        rw [if_pos rfl] at h
        obtain ⟨-, -, h⟩ := Report.bind_ok_iff.1 h
        obtain ⟨rest, hrest, h⟩ := Report.bind_ok_iff.1 h
        obtain rfl := Except.ok.inj h
        obtain ⟨⟨loaded, hsub, hpaths⟩, package, hname, hall⟩ := ih hrest
        have hsource : source.package = package := hname _ rfl
        refine ⟨⟨name :: loaded, hsub.cons_cons name, by rw [List.map_cons, hpaths]; rfl⟩,
          package, ?_, List.forall_mem_cons.2 ⟨hsource, hall⟩⟩
        rintro expectedName rfl
        rw [joins] at hjoined
        split at hjoined
        · next heq => rw [← hsource, eq_of_beq heq]
        · cases hjoined

/-- Whether the files of a package are in order: each belongs to the package and lies in its
directory, and the names of the files increase. -/
structure HasOrderedFiles (p : Package) : Prop where
  package : ∀ f ∈ p.files, f.source.package = p.name
  names : ∃ names : List String, names.Pairwise (· < ·) ∧
    p.files.map (·.path) = names.map (fun name : String => p.directory.join ⟨name⟩) ∧
    p.files.map (·.path.fileName?) = names.map some

theorem fileName?_join_name (p : DiskPath) {name : String} (h : IsPlain (.ofText name)) :
    (p.join ⟨name⟩).fileName? = some name := by
  rw [fileName?, components_join_name p h, List.getLast?_concat]
  exact congrArg some (RawText.text_ofText name)

/-- **The files of a package are in order.** -/
theorem hasOrderedFiles_of_packageIn (hl : l.Rooted)
    (h : l.packageIn names = .ok (some package)) : HasOrderedFiles package := by
  obtain ⟨entries, first, rest, hentries, hfiles, rfl⟩ := packageIn_some h
  obtain ⟨-, -, rfl⟩ := Disk.readDirectory_ok hentries
  obtain ⟨⟨loaded, hsub, hpaths⟩, name, -, hall⟩ := loadFiles_spec hfiles
  have hfirst : first.source.package = name := hall first (by simp)
  refine ⟨fun f hf => (hall f hf).trans hfirst.symm, loaded, ?_, hpaths, ?_⟩
  · exact (selectedNames_lt l _ _).sublist hsub
  · have hplain : ∀ n ∈ loaded, IsPlain (.ofText n) := by
      intro n hn
      obtain ⟨-, b, hb⟩ := mem_selectedNames.1 (hsub.subset hn)
      exact hl.disk.tree.plain _ (by rw [hb]; simp) _ (by simp)
    have hnames := congrArg (List.map fileName?) hpaths
    rw [List.map_map, List.map_map] at hnames
    exact hnames.trans (List.map_congr_left fun n hn => fileName?_join_name _ (hplain n hn))

/-! ## Loads -/

theorem loadPatterns_onTree (hl : l.Rooted) (hl' : (l.onTree t).Rooted)
    (h : l.disk.tree.SameEntries t) {packages' : List Package} :
    ((l.onTree t).loadPatterns packages specs).result = .ok packages' ↔
      (l.loadPatterns packages specs).result = .ok packages' := by
  have hvisit : ∀ ps x, (l.onTree t).visit ps x = l.visit ps x := by
    intro ps x
    rw [visit, packageIn_onTree h]
    rfl
  induction specs generalizing packages with
  | nil => exact Iff.rfl
  | cons spec specs ih =>
    rw [loadPatterns_cons_ok_iff hl', loadPatterns_cons_ok_iff hl]
    refine exists_congr fun pattern => and_congr Iff.rfl ?_
    rw [selection_onTree h, foldlM_congr fun x _ ps => hvisit ps x, onTree_disk,
      Disk.isDirectory_withTree h]
    exact and_congr Iff.rfl (exists_congr fun next => and_congr Iff.rfl ih)

/-- **A load does not depend on how directories are listed.** -/
theorem load_onTree (hl : l.Rooted) (hl' : (l.onTree t).Rooted) (h : l.disk.tree.SameEntries t) :
    ((l.onTree t).load patterns).result = .ok packages ↔
      (l.load patterns).result = .ok packages := by
  simp only [load_ok_iff_loadPatterns, loadPatterns_onTree hl hl' h]

/-- A load does not depend on the order and repetition of the patterns, if the directories have
their own import paths. -/
theorem load_of_ownPaths (hl : l.Rooted) (hsame : ∀ spec, spec ∈ ps ↔ spec ∈ qs)
    (hown : l.OwnPaths ps) (h : (l.load ps).result = .ok packages) :
    (l.load qs).result = .ok packages := by
  have hselects : ∀ x, l.Selects qs x ↔ l.Selects ps x := fun x => by simp only [Selects, hsame]
  have hown' : l.OwnPaths qs := by
    simp only [OwnPaths, hselects]
    exact hown
  obtain ⟨hbegins, hread, hne, hsorted, hmem⟩ := (hl.load_ok_iff hown).1 h
  refine (hl.load_ok_iff hown').2 ⟨fun spec hspec => hbegins spec ((hsame spec).2 hspec), ?_, hne,
    hsorted, ?_⟩
  · simpa only [hselects] using hread
  · simpa only [hselects] using hmem

/-- Directories have their own import paths in a tree whose names are texts. -/
theorem ownPaths_of_entries (hl : l.Sound) (hstarts : l.Starts patterns)
    (h : ∀ e ∈ l.disk.tree.entries, ∀ name ∈ e.1, name.isText = true) : l.OwnPaths patterns := by
  refine ownPaths_of_isText hl.rooted fun x hx name hname => ?_
  have hdir := hx.directory hstarts
  have hne : l.base ++ x ≠ [] := by
    intro he
    rw [(List.append_eq_nil_iff.1 he).2] at hname
    cases hname
  rw [FileTree.get?_of_ne_nil hne, FileTree.lookup_eq_some] at hdir
  exact h _ hdir name (List.mem_append_right _ hname)

/-- **A load does not depend on the order or repetition of patterns**, nor on the order in which
directories are listed: with the same patterns in any number and order, and on every tree with the
same entries, the same packages come out. They increase by import path, and their files by name.

Of directories that share an import path the first one is loaded, so the order of the patterns
counts for them. Names that are texts are told apart in import paths (`ownPaths_of_isText`). -/
theorem load_unordered {d : Disk} {directory : DiskPath} {target : Target} (hd : d.Proper)
    (hl : Loader.create d directory target = .ok l) (hsame : ∀ spec, spec ∈ ps ↔ spec ∈ qs)
    (h : (l.load ps).result = .ok packages) :
    (l.OwnPaths ps → (l.load qs).result = .ok packages) ∧
    (∀ t, d.tree.SameEntries t → ∃ l', Loader.create (d.withTree t) directory target = .ok l' ∧
      (l'.load ps).result = .ok packages ∧
      (l.OwnPaths ps → (l'.load qs).result = .ok packages)) ∧
    packages.Pairwise (fun p q => p.path < q.path) ∧ ∀ p ∈ packages, HasOrderedFiles p := by
  have hrooted := Loader.create_rooted hd hl
  obtain rfl := (Loader.create_ok_iff.1 hl).2.1
  obtain ⟨-, -, hsorted, hloaded⟩ := hrooted.load_ok h
  have hqs : l.OwnPaths ps → (l.load qs).result = .ok packages :=
    fun hown => load_of_ownPaths hrooted hsame hown h
  refine ⟨hqs, fun t ht => ?_, hsorted, fun p hp => ?_⟩
  · have hrooted' := hrooted.onTree (ht.wellFormed hd.tree) ht.grows
    exact ⟨l.onTree t, create_withTree ht hl, (load_onTree hrooted hrooted' ht).2 h,
      fun hown => (load_onTree hrooted hrooted' ht).2 (hqs hown)⟩
  · obtain ⟨x, -, hx⟩ := hloaded.mem p hp
    exact hasOrderedFiles_of_packageIn hrooted hx

end Understudy.Modules.Loader

namespace Understudy.Job

open Files DiskPath Modules Loader

/-- Patterns that overlap in two directories load each one once, in whatever order they come. -/
theorem load_unordered_sample :
    Loader.create (sampleDisk.withTree wideTree) ⟨"."⟩ .default = .ok wideLoader ∧
    (wideLoader.load ["./...", "./sub"]).result = .ok [samplePackage, subPackage] ∧
    wideLoader.OwnPaths ["./...", "./sub"] ∧
    (wideLoader.load ["./sub", "./...", "./sub"]).result = .ok [samplePackage, subPackage] ∧
    HasOrderedFiles subPackage := by
  have hsame : ∀ spec, spec ∈ ["./...", "./sub"] ↔ spec ∈ ["./sub", "./...", "./sub"] := by
    intro spec
    simp only [List.mem_cons, List.not_mem_nil, or_false]
    tauto
  have hsub : wideLoader.patternOf "./sub" = .ok ⟨[.ofText "sub"], false⟩ := by decide
  have hvisit : wideLoader.visit [samplePackage, subPackage] [.ofText "sub"] =
      .ok [samplePackage, subPackage] :=
    visit_known ⟨subPackage, by simp, importPathOf_wide_sub.symm⟩
  have hload : (wideLoader.load ["./...", "./sub"]).result = .ok [samplePackage, subPackage] :=
    load_of_loadPatterns (loadPatterns_visits wideLoader_sound patternOf_wide rfl visits_wide
      (loadPatterns_visits wideLoader_sound hsub rfl
        (foldlM_visit_cons_ok_iff.2 ⟨_, hvisit, rfl⟩) rfl)) (by simp) (by decide)
  have hown : wideLoader.OwnPaths ["./...", "./sub"] :=
    ownPaths_of_entries wideLoader_sound
      ((begins_iff wideLoader_sound).1 (wideLoader_sound.rooted.load_ok hload).1) (by decide +kernel)
  obtain ⟨hagain, -, -, hfiles⟩ := load_unordered
    (sampleDisk_sound.withTree wideTree_grown.1 wideTree_grown.2).proper wideLoader_created hsame
    hload
  exact ⟨wideLoader_created, hload, hown, hagain hown, hfiles subPackage (by simp)⟩

/-! ## Directories that share an import path -/

/-- The tree of the sample with two directories beside its package. The name of the one is no text,
and the name of the other is how it is spelled. -/
def clashTree : FileTree :=
  (((sampleDisk.tree.put [.ofText "\ufffd"] .directory).put [.ofText "\ufffd", .ofText "b.go"]
    (.file "package r\n".toUTF8)).put [⟨[0xee]⟩] .directory).put [⟨[0xee]⟩, .ofText "a.go"]
      (.file "package q\n".toUTF8)

/-- Its loader. -/
def clashLoader : Loader := sampleLoader.onTree clashTree

/-- A package of one empty file in a directory that is spelled with a replacement character. -/
def clashPackage (name : String) (directory file : DiskPath) : Package where
  path := "m/\ufffd"
  name
  directory
  files := [⟨file, ⟨name, [], [], false⟩⟩]

theorem clashTree_grown : clashTree.WellFormed ∧ FileTree.Grows sampleDisk.tree clashTree := by
  have hspelled := sampleDisk_sound.tree.put (l := []) (e := .directory)
    (show IsPlain (.ofText "\ufffd") by decide) rfl (Or.inl rfl)
  have hfile := hspelled.put (l := [.ofText "\ufffd"]) (e := .file "package r\n".toUTF8)
    (show IsPlain (.ofText "b.go") by decide) rfl (Or.inr nofun)
  have hraw := hfile.put (l := []) (e := .directory)
    (show IsPlain ⟨[0xee]⟩ by decide) rfl (Or.inl rfl)
  refine ⟨hraw.put (l := [⟨[0xee]⟩]) (show IsPlain (.ofText "a.go") by decide) rfl
    (Or.inr nofun), ?_⟩
  exact (((FileTree.put_grows (l := [.ofText "\ufffd"]) rfl _).trans
    (FileTree.put_grows (l := [.ofText "\ufffd", .ofText "b.go"]) rfl _)).trans
      (FileTree.put_grows (l := [⟨[0xee]⟩]) rfl _)).trans
        (FileTree.put_grows (l := [⟨[0xee]⟩, .ofText "a.go"]) rfl _)

theorem clashLoader_created :
    Loader.create (sampleDisk.withTree clashTree) ⟨"."⟩ .default = .ok clashLoader := by
  have hcreated : sampleJob.loader sampleDisk = .ok sampleLoader := sampleLoader_created
  exact loader_again sampleDisk_sound clashTree_grown.1 clashTree_grown.2 hcreated
    (keepsModule_sample rfl)

theorem clashLoader_sound : clashLoader.Sound :=
  Loader.create_sound (sampleDisk_sound.withTree clashTree_grown.1 clashTree_grown.2)
    clashLoader_created

theorem importPathOf_clash : ∀ name ∈ [(⟨[0xee]⟩ : RawText), .ofText "\ufffd"],
    clashLoader.importPathOf (clashLoader.directoryAt [name]) = "m/\ufffd" := by
  have hnames : ∀ name ∈ [(⟨[0xee]⟩ : RawText), .ofText "\ufffd"],
      IsPlain name ∧ name.text = "\ufffd" := by decide +kernel
  intro name hname
  obtain ⟨hplain, htext⟩ := hnames name hname
  rw [Loader.importPathOf_directoryAt clashLoader_sound.rooted (by simpa using hplain)]
  simp [htext, clashLoader, sampleLoader, Loader.onTree]

theorem packageIn_clash_root : clashLoader.packageIn [] = .ok (some samplePackage) := by
  have hnames : (clashLoader.disk.tree.children (clashLoader.base ++ [])).filterMap
      clashLoader.selectedName? = ["a.go"] := by decide +kernel
  have htext : clashLoader.disk.readText ⟨"/a.go"⟩ = .ok "package p\n" := by cbv
  have hmatch : clashLoader.target.matchesSource "package p\n" = .ok true := by cbv
  have hparse : Source.SourceFile.parse "package p\n" = .ok ⟨"p", [], [], false⟩ := by cbv
  exact Loader.packageIn_singleton clashLoader_sound rfl hnames htext hmatch hparse

theorem packageIn_clash_raw : clashLoader.packageIn [⟨[0xee]⟩] =
    .ok (some (clashPackage "q" ⟨"/" ++ ⟨[0xee]⟩⟩ ⟨"/" ++ ⟨[0xee]⟩ ++ "/a.go"⟩)) := by
  have hnames : (clashLoader.disk.tree.children (clashLoader.base ++ [⟨[0xee]⟩])).filterMap
      clashLoader.selectedName? = ["a.go"] := by decide +kernel
  have htext : clashLoader.disk.readText ⟨"/" ++ ⟨[0xee]⟩ ++ "/a.go"⟩ = .ok "package q\n" := by cbv
  have hmatch : clashLoader.target.matchesSource "package q\n" = .ok true := by cbv
  have hparse : Source.SourceFile.parse "package q\n" = .ok ⟨"q", [], [], false⟩ := by cbv
  have hpackage := Loader.packageIn_singleton clashLoader_sound rfl hnames htext hmatch hparse
  rwa [importPathOf_clash _ (by simp)] at hpackage

theorem packageIn_clash_spelled : clashLoader.packageIn [.ofText "\ufffd"] =
    .ok (some (clashPackage "r" ⟨"/\ufffd"⟩ ⟨"/\ufffd/b.go"⟩)) := by
  have hnames : (clashLoader.disk.tree.children (clashLoader.base ++ [.ofText "\ufffd"])).filterMap
      clashLoader.selectedName? = ["b.go"] := by decide +kernel
  have htext : clashLoader.disk.readText ⟨"/\ufffd/b.go"⟩ = .ok "package r\n" := by cbv
  have hmatch : clashLoader.target.matchesSource "package r\n" = .ok true := by cbv
  have hparse : Source.SourceFile.parse "package r\n" = .ok ⟨"r", [], [], false⟩ := by cbv
  have hpackage := Loader.packageIn_singleton clashLoader_sound rfl hnames htext hmatch hparse
  rwa [importPathOf_clash _ (by simp)] at hpackage

theorem selection_clash :
    clashLoader.selection ⟨[], true⟩ = [[], [⟨[0xee]⟩], [.ofText "\ufffd"]] := by
  have hbelow : clashLoader.disk.tree.directoriesBelow clashLoader.base =
      [[⟨[0xee]⟩], [.ofText "\ufffd"]] := rfl
  have hskipped : ∀ names ∈ [[(⟨[0xee]⟩ : RawText)], [.ofText "\ufffd"]],
      isSkippedBelow clashLoader.disk.tree clashLoader.base names = false := by decide +kernel
  have hsorted : ([[⟨[0xee]⟩], [.ofText "\ufffd"]] : List Location).Pairwise
      fun a b => (!b.lex a fun m n => decide (m < n)) = true := by decide
  have hwalk : walk clashLoader.disk.tree clashLoader.base = [[⟨[0xee]⟩], [.ofText "\ufffd"]] := by
    rw [walk, hbelow, List.filter_eq_self.2 (by simpa using hskipped)]
    exact List.mergeSort_of_pairwise hsorted
  simp [Loader.selection, hwalk]

/-- **Of two directories with one import path the first one is loaded**: the order of the patterns
decides which package comes out. -/
theorem load_unordered_clash :
    Loader.create (sampleDisk.withTree clashTree) ⟨"."⟩ .default = .ok clashLoader ∧
    ∃ q r, (clashLoader.load [".", "./...", "./\ufffd"]).result = .ok [samplePackage, q] ∧
      (clashLoader.load [".", "./\ufffd", "./..."]).result = .ok [samplePackage, r] ∧
      q.path = r.path ∧ q.name = "q" ∧ r.name = "r" := by
  have hsound := clashLoader_sound
  have hdot : clashLoader.patternOf "." = .ok ⟨[], false⟩ := by decide
  have hbelow : clashLoader.patternOf "./..." = .ok ⟨[], true⟩ := by decide
  have hspelled : clashLoader.patternOf "./\ufffd" = .ok ⟨[.ofText "\ufffd"], false⟩ := by decide
  have hroot : clashLoader.importPathOf (clashLoader.directoryAt []) = "m" :=
    (Loader.path_of_packageIn packageIn_clash_root).1.symm
  -- Whichever of the two comes first, the other one is passed over after it.
  have hfirst : clashLoader.visit [] [] = .ok [samplePackage] :=
    visit_new packageIn_clash_root nofun
  have hnew : ∀ name ∈ [(⟨[0xee]⟩ : RawText), .ofText "\ufffd"], ∀ p,
      clashLoader.packageIn [name] = .ok (some p) →
        clashLoader.visit [samplePackage] [name] = .ok [samplePackage, p] := by
    intro name hname p hp
    refine visit_new hp ?_
    rw [importPathOf_clash name hname]
    decide
  have hknown : ∀ name ∈ [(⟨[0xee]⟩ : RawText), .ofText "\ufffd"], ∀ p : Package,
      p.path = "m/\ufffd" →
        clashLoader.visit [samplePackage, p] [name] = .ok [samplePackage, p] := by
    intro name hname p hp
    exact visit_known ⟨p, by simp, by rw [importPathOf_clash name hname, hp]⟩
  have hagain : ∀ ps, clashLoader.visit (samplePackage :: ps) [] = .ok (samplePackage :: ps) :=
    fun ps => visit_known ⟨samplePackage, by simp, hroot.symm⟩
  refine ⟨clashLoader_created, clashPackage "q" ⟨"/" ++ ⟨[0xee]⟩⟩ ⟨"/" ++ ⟨[0xee]⟩ ++ "/a.go"⟩,
    clashPackage "r" ⟨"/\ufffd"⟩ ⟨"/\ufffd/b.go"⟩, ?_, ?_, rfl, rfl, rfl⟩
  · refine load_of_loadPatterns (loadPatterns_visits hsound hdot rfl
      (foldlM_visit_cons_ok_iff.2 ⟨_, hfirst, rfl⟩) (loadPatterns_visits hsound hbelow rfl ?_
        (loadPatterns_visits hsound hspelled rfl
          (foldlM_visit_cons_ok_iff.2 ⟨_, hknown _ (by simp) _ rfl, rfl⟩) rfl)))
      (by simp) (by decide)
    rw [selection_clash]
    exact foldlM_visit_cons_ok_iff.2 ⟨_, hagain [], foldlM_visit_cons_ok_iff.2
      ⟨_, hnew _ (by simp) _ packageIn_clash_raw, foldlM_visit_cons_ok_iff.2
        ⟨_, hknown _ (by simp) _ rfl, rfl⟩⟩⟩
  · refine load_of_loadPatterns (loadPatterns_visits hsound hdot rfl
      (foldlM_visit_cons_ok_iff.2 ⟨_, hfirst, rfl⟩) (loadPatterns_visits hsound hspelled rfl
        (foldlM_visit_cons_ok_iff.2 ⟨_, hnew _ (by simp) _ packageIn_clash_spelled, rfl⟩)
        (loadPatterns_visits hsound hbelow rfl ?_ rfl)))
      (by simp) (by decide)
    rw [selection_clash]
    exact foldlM_visit_cons_ok_iff.2 ⟨_, hagain _, foldlM_visit_cons_ok_iff.2
      ⟨_, hknown _ (by simp) _ rfl, foldlM_visit_cons_ok_iff.2
        ⟨_, hknown _ (by simp) _ rfl, rfl⟩⟩⟩

end Understudy.Job

import Mathlib
import Understudy.Proofs.WrittenFiles

/-!
# What is rendered is what is generated

A generation writes the stubs that are rendered for the same patterns, each at the place that its
path names below the output directory, and before them the manifest, under two conditions. The
files can lie on the disk together, so that no place is that of a file and of a directory. And the
manifest hides no package: packages are loaded after it is written, and a recursive pattern passes
over the directory of a manifest (`generate_of_render`).
-/

set_option autoImplicit false

namespace Understudy.Job

open Files DiskPath Modules OutputFile

variable {job : Job} {disk d : Disk} {installed : Option Stub.Tool} {patterns : List String}
variable {l : Loader} {packages : List Package} {files : List (String × OutputFile)} {t : FileTree}
variable {formatter : Stub.Formatter} {policy : Stub.ImportPolicy}

/-- Where the manifest is written. -/
def manifestPlace (job : Job) (d : Disk) (manifest : Manifest) : Location :=
  d.place (job.output.join ⟨manifest.module⟩)

theorem place_manifestFile (hd : d.Sound) (manifest : Manifest) :
    d.place (job.manifestFile manifest).path = job.manifestPlace d manifest ++ [manifestName] :=
  Disk.place_join_name hd.proper _ isPlain_manifestName

/-- Where the stub of a package is written, seen from the manifest. -/
theorem place_outputPath (hd : d.Proper) {module : String} (hm : module ≠ "") {names : List String}
    (hnames : ∀ name ∈ names, IsPlain (.ofText name)) {package : Package}
    (hpath : package.path = module ++ String.join (names.map fun name => "/" ++ name))
    (hword : Source.isWord package.name = true) :
    d.place (job.outputPath package) =
      d.place (job.output.join ⟨module⟩) ++ names.map .ofText ++
        [.ofText (package.name ++ ".go")] := by
  have hextends := (extends_append_names hm hnames).join job.output
  rw [outputPath, hpath, Disk.place_join_name hd _ (isPlain_fileName (no_slash_of_isWord hword)),
    d.place_extends hextends]

/-- The stubs of different packages have different places. -/
theorem places_distinct_outputs (hd : d.Proper) (hl : l.Rooted) (hm : l.module.manifest.module ≠ "")
    (hload : (l.load patterns).result = .ok packages) :
    packages.Pairwise fun p q => d.place (job.outputPath p) ≠ d.place (job.outputPath q) := by
  refine (hl.load_ok hload).2.2.1.imp_of_mem fun {p q} hp hq hlt => ?_
  obtain ⟨names, hnames, hpath, hword⟩ := hl.package_of_load hload hp
  obtain ⟨names', hnames', hpath', hword'⟩ := hl.package_of_load hload hq
  rw [place_outputPath hd hm hnames hpath hword, place_outputPath hd hm hnames' hpath' hword']
  intro he
  obtain rfl := List.map_injective_iff.2 (fun _ _ => RawText.ofText_inj.1)
    (List.append_cancel_left (List.append_inj_left' he rfl))
  rw [hpath, hpath'] at hlt
  exact lt_irrefl _ hlt

/-- The stubs of different packages are written to different places. -/
theorem places_distinct (hd : d.Sound) (hl : l.Sound) (hm : l.module.manifest.module ≠ "")
    (hload : (l.load patterns).result = .ok packages)
    (hfiles : files.map (fun f => f.2.path) = packages.map job.outputPath) :
    (files.map Prod.snd).Pairwise fun f g => d.place f.path ≠ d.place g.path := by
  have hpaths : (files.map fun f => f.2.path).Pairwise fun p q => d.place p ≠ d.place q := by
    rw [hfiles]
    exact List.pairwise_map.2 (places_distinct_outputs hd.proper hl.rooted hm hload)
  rw [List.pairwise_map] at hpaths ⊢
  exact hpaths

/-- No stub has the name of a manifest. -/
theorem place_stub_ne (hd : d.Proper) {f : OutputFile}
    (h : ∃ package : Package, Source.isWord package.name = true ∧ f.path = job.outputPath package)
    (x : Location) : d.place f.path ≠ x ++ [manifestName] := by
  obtain ⟨package, hword, hpath⟩ := h
  rw [hpath, outputPath, Disk.place_join_name hd _ (isPlain_fileName (no_slash_of_isWord hword))]
  intro he
  have hname := List.append_inj_right' he rfl
  exact fileName_ne package.name (by decide) (RawText.ofText_inj.1 (List.cons.inj hname).1)

theorem stub_of_mem (hword : ∀ p ∈ packages, Source.isWord p.name = true)
    (hfiles : files.map (fun f => f.2.path) = packages.map job.outputPath) :
    ∀ f ∈ files.map Prod.snd,
      ∃ package : Package, Source.isWord package.name = true ∧ f.path = job.outputPath package := by
  intro f hf
  obtain ⟨pair, hpair, rfl⟩ := List.mem_map.1 hf
  have hpath : pair.2.path ∈ packages.map job.outputPath := by
    rw [← hfiles]
    exact List.mem_map.2 ⟨pair, hpair, rfl⟩
  obtain ⟨package, hpackage, hpath⟩ := List.mem_map.1 hpath
  exact ⟨package, hword package hpackage, hpath.symm⟩

/-- The bytes of a text are read as the text. -/
theorem fromUTF8?_toUTF8 (text : String) : String.fromUTF8? text.toUTF8 = some text := by
  unfold String.fromUTF8?
  split
  · rfl
  · next hinvalid => exact absurd text.isValidUTF8 hinvalid

/-- A file can be read that nothing was written over, unless its path is refused. -/
theorem readText_last (hd : d.Proper) {written : List OutputFile} (h : WritesAll d written t)
    {file : OutputFile} (hfile : file ∈ written) (hnamed : file.IsNamed)
    (hlast : lastAt d (d.place file.path) written = some (.file file.text.toUTF8))
    (haccepted : Limits.refusal? d.limits file.path = none) :
    (d.withTree t).readText file.path = .ok file.text := by
  obtain ⟨p, name, hname, hpath⟩ := hnamed
  obtain ⟨hway, hplace⟩ := way_of_join hd hname hpath
  have hproper := hd.withTree h.wellFormed h.grows
  have hreach : (d.withTree t).Reaches p := by
    intro x hx
    exact h.ways file hfile x (by rwa [hway])
  have hchild : (d.withTree t).tree.get? ((d.withTree t).place p ++ [name]) =
      some (.file file.text.toUTF8) := by
    rw [Disk.withTree_place, Disk.withTree_tree, ← hplace, h.get, hlast, Option.some_or]
  rw [hpath] at haccepted ⊢
  rw [Disk.readText_join_name hproper haccepted hreach hname hchild, fromUTF8?_toUTF8]

/-- A written file can be read, unless its path is refused. -/
theorem readText_accepted (hd : d.Proper) {written : List OutputFile} (h : WritesAll d written t)
    (hdistinct : written.Pairwise fun f g => d.place f.path ≠ d.place g.path)
    {file : OutputFile} (hfile : file ∈ written) (hnamed : file.IsNamed)
    (haccepted : Limits.refusal? d.limits file.path = none) :
    (d.withTree t).readText file.path = .ok file.text :=
  readText_last hd h hfile hnamed (lastAt_of_distinct hdistinct file hfile) haccepted

/-- A written file can be read. -/
theorem readText_written (hd : d.Sound) {written : List OutputFile} (h : WritesAll d written t)
    (hdistinct : written.Pairwise fun f g => d.place f.path ≠ d.place g.path)
    {file : OutputFile} (hfile : file ∈ written) (hnamed : file.IsNamed) :
    (d.withTree t).readText file.path = .ok file.text :=
  readText_accepted hd.proper h hdistinct hfile hnamed (Disk.refusal?_none hd _)

/-- The manifest is no source file and is the only manifest that is new when it is written. -/
theorem manifest_written (hd : d.Sound) {manifest : Manifest}
    (h : WritesAll d (job.manifests manifest) t) {x : Location} {name : RawText} {b : ByteArray}
    (hfile : t.get? (x ++ [name]) = some (.file b)) :
    d.tree.get? (x ++ [name]) = some (.file b) ∨
      (job.writesManifest = true ∧ x = job.manifestPlace d manifest ∧ name = manifestName) := by
  refine (h.file_cases hfile).imp_right ?_
  rintro ⟨f, hf, hplace⟩
  rw [manifests] at hf
  split at hf
  · next hwrites =>
    rw [List.mem_singleton.1 hf, place_manifestFile hd] at hplace
    obtain ⟨hx, hname⟩ := List.append_inj' hplace rfl
    exact ⟨hwrites, hx, by simpa using hname⟩
  · cases hf

/-- The manifest is no source file. -/
theorem ne_manifestName {name : String} (h : l.isSelectedName name = true) :
    RawText.ofText name ≠ manifestName := by
  intro he
  obtain rfl : name = "go.mod" := RawText.ofText_inj.1 he
  have hgo : Loader.isSourceName "go.mod" = false := by decide
  rw [Loader.isSelectedName, hgo, Bool.false_and] at h
  cases h

/-- **Packages are the same with the manifest** if it hides none. -/
theorem load_manifest (hl : job.loader disk = .ok l) (hd : disk.Sound)
    (h : WritesAll disk (job.manifests l.module.manifest) t)
    (hhides : job.writesManifest = true →
      Loader.isFileAt disk.tree
        (job.manifestPlace disk l.module.manifest ++ [manifestName]) = true ∨
      ∀ names package, l.Selects patterns names → l.packageIn names = .ok (some package) →
        ¬l.Hides patterns (job.manifestPlace disk l.module.manifest) names)
    (hload : (l.load patterns).result = .ok packages) :
    ((l.onTree t).load patterns).result = .ok packages := by
  have hsound : l.Sound := Loader.create_sound hd hl
  have hdisk : l.disk = disk := (Loader.create_ok_iff.1 hl).2.1
  -- A manifest is no source file, and it hides a directory only where it is new.
  refine Loader.load_grown hsound h.wellFormed (by rw [hdisk]; exact h.grows) ?_ ?_ hload
  · intro x _ name hname b
    rw [hdisk]
    constructor
    · intro hfile
      rcases manifest_written hd h hfile with hold | ⟨-, -, hmanifest⟩
      · exact hold
      · exact absurd hmanifest (ne_manifestName hname)
    · intro hfile
      obtain ⟨b', hb'⟩ := h.grows.file _ b hfile
      rcases manifest_written hd h hb' with hold | ⟨-, -, hmanifest⟩
      · rw [hb', ← hold, hfile]
      · exact absurd hmanifest (ne_manifestName hname)
  · intro place x p hx hp hhidden hnew
    rw [hdisk]
    obtain ⟨b, hb⟩ := Loader.isFileAt_iff.1 hnew
    rcases manifest_written hd h hb with hold | ⟨hwrites, hplace, -⟩
    · exact Loader.isFileAt_iff.2 ⟨b, hold⟩
    · rw [hplace] at hhidden ⊢
      rcases hhides hwrites with hold | hnone
      · exact hold
      · exact absurd hhidden (hnone x p hx hp)

/-- **The stubs of the packages are generated** if the files can lie on the disk together and the
manifest hides no package. -/
theorem generate_writes (hd : disk.Sound) (hl : job.loader disk = .ok l)
    (hstubs : job.Stubs l installed patterns files)
    (hcompatible : Compatible disk (job.manifests l.module.manifest ++ files.map Prod.snd))
    (hhides : job.writesManifest = true →
      Loader.isFileAt disk.tree
        (job.manifestPlace disk l.module.manifest ++ [manifestName]) = true ∨
      ∀ names package, l.Selects patterns names → l.packageIn names = .ok (some package) →
        ¬l.Hides patterns (job.manifestPlace disk l.module.manifest) names) :
    ∃ t₁ t, WritesAll disk (job.manifests l.module.manifest) t₁ ∧
      WritesAll (disk.withTree t₁) (files.map Prod.snd) t ∧
      (job.generate disk installed patterns).Ends
        ((job.manifests l.module.manifest).map OutputFile.path ++ files.map fun f => f.2.path)
        (disk.withTree t) := by
  obtain ⟨packages, formatter, hload, hformatter, hfiles⟩ := hstubs
  have hnamedStubs := isNamed_stubFiles (fun p hp =>
    (Loader.package_of_load (loader_sound hd hl) hload hp).choose_spec.2.2) hfiles
  have hnamed := job.isNamed_manifests l.module.manifest
  obtain ⟨d₁, hmanifest⟩ := writeAll_ok hd hnamed hcompatible.left
  obtain ⟨-, t₁, rfl, ht₁⟩ := writeAll_spec hd.proper hnamed hmanifest
  have hd₁ := hd.withTree ht₁.wellFormed ht₁.grows
  -- The packages are still there when the manifest is.
  have hload₁ := load_manifest hl hd ht₁ hhides hload
  rw [← loader_onTree hl] at hload₁
  obtain ⟨d', hwritten⟩ := writeAll_ok hd₁ hnamedStubs (hcompatible.append ht₁)
  obtain ⟨-, t, rfl, ht⟩ := writeAll_spec hd₁.proper hnamedStubs hwritten
  refine ⟨t₁, t, ht₁, ht, generate_ends.2 ⟨l, hl, _, _, hmanifest, files,
    ⟨packages, formatter, hload₁, hformatter, hfiles⟩, _, hwritten, ?_⟩⟩
  rw [List.map_map]
  rfl

/-- **Generating is rendering and writing.** -/
theorem generate_of_render (hd : disk.Sound) (hl : job.loader disk = .ok l)
    (hm : l.module.manifest.module ≠ "")
    (hrender : (job.render disk installed patterns).result = .ok files)
    (hcompatible : Compatible disk (job.manifests l.module.manifest ++ files.map Prod.snd))
    (hhides : job.writesManifest = true →
      Loader.isFileAt disk.tree
        (job.manifestPlace disk l.module.manifest ++ [manifestName]) = true ∨
      ∀ names package, l.Selects patterns names → l.packageIn names = .ok (some package) →
        ¬l.Hides patterns (job.manifestPlace disk l.module.manifest) names) :
    ∃ packages d', (l.load patterns).result = .ok packages ∧
      files.map Prod.fst = packages.map Package.path ∧
      files.map (fun f => f.2.path) = packages.map job.outputPath ∧
      (job.generate disk installed patterns).Ends
        ((job.manifests l.module.manifest).map OutputFile.path ++ packages.map job.outputPath) d' ∧
      ∀ f ∈ files, d'.readText f.2.path = .ok f.2.text := by
  obtain ⟨l', hl', hstubs⟩ := render_ok_iff.1 hrender
  obtain rfl : l = l' := Except.ok.inj (hl.symm.trans hl')
  obtain ⟨t₁, t, ht₁, ht, hends⟩ := generate_writes hd hl hstubs hcompatible hhides
  obtain ⟨packages, formatter, hload, -, hfiles⟩ := hstubs
  have hsound := loader_sound hd hl
  have hd₁ := hd.withTree ht₁.wellFormed ht₁.grows
  obtain ⟨hpaths, houtputs⟩ := paths_of_stubFiles hfiles
  have hnamed := isNamed_stubFiles (fun p hp =>
    (Loader.package_of_load hsound hload hp).choose_spec.2.2) hfiles
  have hdistinct := places_distinct hd₁ hsound hm hload houtputs
  refine ⟨packages, disk.withTree t, hload, hpaths, houtputs, ?_, fun f hf => ?_⟩
  · rwa [← houtputs]
  · have hmem : f.2 ∈ files.map Prod.snd := List.mem_map.2 ⟨f, hf, rfl⟩
    exact readText_written hd₁ ht hdistinct hmem (hnamed f.2 hmem)

/-! ## A module with one package -/

/-- A disk with a module of one package at its root. -/
def sampleDisk : Disk where
  tree := (FileTree.empty.put [.ofText "go.mod"] (.file "module m\n".toUTF8)).put [.ofText "a.go"]
    (.file "package p\n".toUTF8)
  cwd := ⟨"/"⟩
  limits := none

/-- The loader of the module. -/
def sampleLoader : Loader where
  disk := sampleDisk
  module := ⟨⟨"/"⟩, ⟨"m", none⟩⟩
  cwd := ⟨""⟩
  target := .default

/-- Its package. -/
def samplePackage : Package where
  path := "m"
  name := "p"
  directory := ⟨"/"⟩
  files := [⟨⟨"/a.go"⟩, ⟨"p", [], [], false⟩⟩]

/-- The text of its stub. -/
def sampleText : String := "package p\n\ntype Embedme interface{}\n"

theorem sampleDisk_sound : sampleDisk.Sound where
  unlimited := rfl
  tree := by
    have hmod := FileTree.WellFormed.empty.put (l := []) (e := .file "module m\n".toUTF8)
      (show IsPlain (.ofText "go.mod") by decide) rfl (Or.inr nofun)
    exact hmod.put (l := []) (show IsPlain (.ofText "a.go") by decide) rfl (Or.inr nofun)
  absolute := by decide
  cwd := by
    have hmoves : sampleDisk.cwd.moves = [] := by decide
    rw [hmoves]
    simp [passed]

theorem sampleLoader_created : Loader.create sampleDisk ⟨"."⟩ .default = .ok sampleLoader := by
  have habs : sampleDisk.absolute ⟨"."⟩ = .ok ⟨"/"⟩ := by decide
  have hroot : nearestManifest? sampleDisk ⟨"/"⟩ = some ⟨"/"⟩ := by
    have hancestors : (⟨"/"⟩ : DiskPath).ancestors = [⟨"/"⟩] := by decide
    have hway : sampleDisk.onTheWay ⟨"/"⟩ = [] := by decide
    have hfile : sampleDisk.isFile ((⟨"/"⟩ : DiskPath).join ⟨manifestName⟩) = true :=
      (Disk.isFile_join_name_iff sampleDisk_sound isPlain_manifestName).2
        ⟨by simp [Disk.Reaches, hway], "module m\n".toUTF8, rfl⟩
    rw [nearestManifest?, hancestors]
    exact List.find?_cons_of_pos hfile
  have hload : Manifest.load sampleDisk ⟨"/go.mod"⟩ = .ok ⟨"m", none⟩ := by cbv
  have hcwd : (⟨"/"⟩ : DiskPath).relativeTo? ⟨"/"⟩ = some ⟨""⟩ := by decide
  have hmodule : GoModule.discover sampleDisk ⟨"."⟩ = .ok sampleLoader.module :=
    GoModule.discover_ok_iff.2 ⟨⟨"/"⟩, habs, hroot, hload⟩
  refine Loader.create_ok_iff.2 ⟨hmodule, rfl, rfl, ⟨"/"⟩, habs, ?_⟩
  exact (congrArg (Option.getD · ⟨""⟩) hcwd).symm

theorem packageIn_sampleLoader : sampleLoader.packageIn [] = .ok (some samplePackage) := by
  have hsound : sampleLoader.Sound := Loader.create_sound sampleDisk_sound sampleLoader_created
  have hnames : (sampleLoader.disk.tree.children (sampleLoader.base ++ [])).filterMap
      sampleLoader.selectedName? = ["a.go"] := by decide +kernel
  have htext : sampleLoader.disk.readText ⟨"/a.go"⟩ = .ok "package p\n" := by cbv
  have hmatch : sampleLoader.target.matchesSource "package p\n" = .ok true := by cbv
  have hparse : Source.SourceFile.parse "package p\n" = .ok ⟨"p", [], [], false⟩ := by cbv
  exact Loader.packageIn_singleton hsound rfl hnames htext hmatch hparse

/-- The package is loaded by every pattern that selects nothing else. -/
theorem load_sampleLoader {spec : String} {isRecursive : Bool}
    (hpattern : sampleLoader.patternOf spec = .ok ⟨[], isRecursive⟩) :
    (sampleLoader.load [spec]).result = .ok [samplePackage] := by
  have hsound : sampleLoader.Sound := Loader.create_sound sampleDisk_sound sampleLoader_created
  have hwalk : Loader.walk sampleLoader.disk.tree sampleLoader.base = [] := by
    have hbelow : sampleLoader.disk.tree.directoriesBelow sampleLoader.base = [] := rfl
    rw [Loader.walk, hbelow]
    simp
  refine Loader.load_singleton hsound hpattern rfl ?_ packageIn_sampleLoader
  simp [Loader.selection, hwalk]

/-- The stub file of the package, at the path that a job gives it. -/
theorem stubFile_samplePackage (job : Job) (hoverrides : job.overrides = .empty)
    {policy : Stub.ImportPolicy} (hstub : Stub.PackageStub.ofPackage policy .empty samplePackage =
      .ok ⟨"p", [], [Stub.sentinelDecl]⟩) :
    (job.stubFile .native policy samplePackage).result =
      .ok ⟨job.outputPath samplePackage, sampleText⟩ := by
  have hrender : (⟨"p", [], [Stub.sentinelDecl]⟩ : Stub.PackageStub).render =
      "package p\n\ntype Embedme interface{}\n\n" := by decide
  have htext : Stub.formatStub "package p\n\ntype Embedme interface{}\n\n" = .ok sampleText := by
    cbv
  refine stubFile_ok_iff.2 ⟨_, sampleText, by rw [hoverrides]; exact hstub, ?_, rfl⟩
  rw [hrender]
  change Stub.formatAt _ _ = _
  rw [Stub.formatAt, htext]
  rfl

/-- The stubs of a job that loads the package only. -/
theorem stubs_sampleLoader (job : Job) (hallowed : job.allowed = [])
    (hoverrides : job.overrides = .empty) (hformatter : job.formatter = .native) {spec : String}
    {isRecursive : Bool} (hpattern : sampleLoader.patternOf spec = .ok ⟨[], isRecursive⟩) :
    job.Stubs sampleLoader none [spec] [("m", ⟨job.outputPath samplePackage, sampleText⟩)] := by
  have hstub : Stub.PackageStub.ofPackage (.ofPackages [] [samplePackage]) .empty samplePackage =
      .ok ⟨"p", [], [Stub.sentinelDecl]⟩ := by cbv
  refine ⟨[samplePackage], .native, load_sampleLoader hpattern, by rw [hformatter]; rfl, ?_⟩
  refine stubFiles_cons_ok_iff.2 ⟨_, stubFile_samplePackage job hoverrides ?_, [], rfl, rfl⟩
  rw [hallowed]
  exact hstub

/-- Files below a directory that is not there can be written. -/
theorem compatible_out {t : FileTree}
    (hout : ∀ x : Location, x.head? = some (.ofText "out") → t.get? x = none) :
    Compatible (sampleDisk.withTree t)
      [⟨⟨"out/m/go.mod"⟩, "module m\n"⟩, ⟨⟨"out/m/p.go"⟩, sampleText⟩] := by
  have hways : ∀ f ∈ [(⟨⟨"out/m/go.mod"⟩, "module m\n"⟩ : OutputFile),
      ⟨⟨"out/m/p.go"⟩, sampleText⟩],
      f.way (sampleDisk.withTree t) = [[.ofText "out"], [.ofText "out", .ofText "m"]] ∧
        ((sampleDisk.withTree t).place f.path).length = 3 ∧
          ((sampleDisk.withTree t).place f.path).head? = some (.ofText "out") := by
    simp only [way_withTree, Disk.withTree_place]
    decide
  have hway : ∀ x ∈ ([[.ofText "out"], [.ofText "out", .ofText "m"]] : List Location),
      x.length < 3 ∧ x.head? = some (.ofText "out") := by decide
  refine ⟨fun f hf x hx => ⟨fun b hb => ?_, fun g hg he => ?_⟩, fun f hf hdir => ?_⟩
  · rw [(hways f hf).1] at hx
    rw [Disk.withTree_tree, hout x (hway x hx).2] at hb
    cases hb
  · rw [(hways f hf).1] at hx
    have hlength := (hways g hg).2.1
    rw [← he] at hlength
    exact absurd hlength (ne_of_lt (hway x hx).1)
  · rw [Disk.withTree_tree, hout _ (hways f hf).2.2] at hdir
    cases hdir

theorem compatible_sampleDisk : Compatible sampleDisk
    [⟨⟨"out/m/go.mod"⟩, "module m\n"⟩, ⟨⟨"out/m/p.go"⟩, sampleText⟩] := by
  refine compatible_out (t := sampleDisk.tree) fun x hx => ?_
  obtain ⟨xs, rfl⟩ := List.head?_eq_some_iff.1 hx
  rfl

/-- A pattern without a wildcard loses no package. -/
theorem not_hides_of_plain {place names : Location} {spec : String}
    (hpattern : sampleLoader.patternOf spec = .ok ⟨[], false⟩) :
    ¬sampleLoader.Hides [spec] place names := by
  rintro ⟨spec', hspec, pattern, hp, hrec, -⟩
  rw [List.mem_singleton.1 hspec, hpattern] at hp
  cases hp
  cases hrec

theorem patternOf_dot : sampleLoader.patternOf "." = .ok ⟨[], false⟩ := by decide

theorem stubs_sampleJob : sampleJob.Stubs sampleLoader none ["."]
    [("m", ⟨⟨"out/m/p.go"⟩, sampleText⟩)] := by
  have hpath : sampleJob.outputPath samplePackage = ⟨"out/m/p.go"⟩ := by decide
  rw [← hpath]
  exact stubs_sampleLoader sampleJob rfl rfl rfl patternOf_dot

theorem generate_of_render_sample : ∃ d',
    (sampleJob.generate sampleDisk none ["."]).Ends [⟨"out/m/go.mod"⟩, ⟨"out/m/p.go"⟩] d' ∧
      d'.readText ⟨"out/m/p.go"⟩ = .ok sampleText := by
  have hrender : (sampleJob.render sampleDisk none ["."]).result =
      .ok [("m", ⟨⟨"out/m/p.go"⟩, sampleText⟩)] :=
    render_ok_iff.2 ⟨sampleLoader, sampleLoader_created, stubs_sampleJob⟩
  have hcreated : sampleJob.loader sampleDisk = .ok sampleLoader := sampleLoader_created
  obtain ⟨packages, d', hload, -, -, hends, hread⟩ := generate_of_render
    sampleDisk_sound hcreated (by decide) hrender compatible_sampleDisk
    fun _ => Or.inr fun _ _ _ _ => not_hides_of_plain patternOf_dot
  rw [load_sampleLoader patternOf_dot] at hload
  cases hload
  exact ⟨d', hends, hread _ (List.mem_singleton.2 rfl)⟩

end Understudy.Job

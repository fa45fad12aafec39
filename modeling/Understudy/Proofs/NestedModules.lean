import Mathlib
import Understudy.Proofs.RepeatedRuns

/-!
# Modules inside of modules

A directory belongs to the nearest module: the one whose manifest lies in the directory itself or
next above it. A walk passes over the roots of other modules, so it stays in the module in which it
begins. Where it begins is not looked at, and neither is the directory of a pattern that is not
recursive.

> **A package belongs to the module in which its pattern begins** (`load_nearestModule`). That is
> the module of the loader exactly if no manifest lies below its root, on the way to the directory
> of the pattern or in it.
-/

set_option autoImplicit false

namespace Understudy.Modules.Loader

open Files DiskPath

variable {t : FileTree} {start names pre : Location}

/-! ## The nearest module -/

/-- The root of the module that a directory belongs to: the nearest directory at or above it with a
manifest. -/
def nearestModule? (t : FileTree) (directory : Location) : Option Location :=
  directory.inits.reverse.find? fun l => isFileAt t (l ++ [manifestName])

@[simp] theorem nearestModule?_nil : nearestModule? t [] =
    if isFileAt t [manifestName] then some [] else none := by
  simp only [nearestModule?, List.inits, List.reverse_singleton, List.find?_singleton]
  rfl

/-- A directory without a manifest belongs to the module that the directory above it belongs to. -/
theorem nearestModule?_concat (t : FileTree) (start : Location) (name : RawText) :
    nearestModule? t (start ++ [name]) =
      if isFileAt t (start ++ [name] ++ [manifestName]) then some (start ++ [name])
      else nearestModule? t start := by
  have hinits : (start ++ [name]).inits.reverse = (start ++ [name]) :: start.inits.reverse := by
    simp [List.inits_append]
  rw [nearestModule?, hinits, List.find?_cons]
  split <;> simp_all [nearestModule?]

theorem nearestModule?_self (h : isFileAt t (start ++ [manifestName]) = true) :
    nearestModule? t start = some start := by
  cases start using List.reverseRecOn with
  | nil =>
    rw [nearestModule?_nil]
    exact if_pos h
  | append_singleton start name => rw [nearestModule?_concat, if_pos h]

/-- Whether a manifest lies on the way through some names, the beginning left out. -/
def HasManifestBelow (t : FileTree) (start names : Location) : Prop :=
  ∃ pre, pre ≠ [] ∧ pre <+: names ∧ isFileAt t (start ++ pre ++ [manifestName]) = true

/-- **The nearest module stays the same** as long as there is no other manifest. -/
theorem nearestModule?_append (h : ¬HasManifestBelow t start names) :
    nearestModule? t (start ++ names) = nearestModule? t start := by
  induction names using List.reverseRecOn with
  | nil => rw [List.append_nil]
  | append_singleton names name ih =>
    have hnames : ¬HasManifestBelow t start names := fun ⟨pre, hne, hpre, hfile⟩ =>
      h ⟨pre, hne, hpre.trans (List.prefix_append ..), hfile⟩
    have hname : isFileAt t (start ++ names ++ [name] ++ [manifestName]) = false := by
      rw [← Bool.not_eq_true]
      intro hfile
      exact h ⟨names ++ [name], by simp, List.prefix_rfl, by rwa [← List.append_assoc]⟩
    rw [← List.append_assoc, nearestModule?_concat, hname, if_neg Bool.false_ne_true, ih hnames]

/-- A manifest on the way makes the nearest module another one. -/
theorem nearestModule?_of_hasManifestBelow (h : HasManifestBelow t start names) :
    ∃ below, below ≠ [] ∧ nearestModule? t (start ++ names) = some (start ++ below) := by
  induction names using List.reverseRecOn with
  | nil =>
    obtain ⟨pre, hne, hpre, -⟩ := h
    exact absurd (List.prefix_nil.1 hpre) hne
  | append_singleton names name ih =>
    rw [← List.append_assoc]
    cases hfile : isFileAt t (start ++ names ++ [name] ++ [manifestName]) with
    | true =>
      exact ⟨names ++ [name], by simp, by rw [nearestModule?_self hfile, List.append_assoc]⟩
    | false =>
      obtain ⟨pre, hne, hpre, hmanifest⟩ := h
      rw [nearestModule?_concat, hfile, if_neg Bool.false_ne_true]
      rcases List.prefix_concat_iff.1 hpre with rfl | hpre
      · rw [← List.append_assoc, hfile] at hmanifest
        cases hmanifest
      · exact ih ⟨pre, hne, hpre, hmanifest⟩

/-- A directory below a manifest belongs to its module if there is no other one on the way. -/
theorem nearestModule?_eq_iff (h : isFileAt t (start ++ [manifestName]) = true) :
    nearestModule? t (start ++ names) = some start ↔ ¬HasManifestBelow t start names := by
  constructor
  · intro hstart hbelow
    obtain ⟨below, hne, hother⟩ := nearestModule?_of_hasManifestBelow hbelow
    rw [hstart, Option.some.injEq] at hother
    exact hne (List.append_right_eq_self.1 hother.symm)
  · intro hbelow
    rw [nearestModule?_append hbelow, nearestModule?_self h]

/-! ## Loaded packages -/

/-- A walk does not pass a manifest. -/
theorem not_hasManifestBelow_of_walk (h : isSkippedBelow t start names = false) :
    ¬HasManifestBelow t start names := by
  induction names generalizing start with
  | nil =>
    rintro ⟨pre, hne, hpre, -⟩
    exact hne (List.prefix_nil.1 hpre)
  | cons name names ih =>
    rw [isSkippedBelow, Bool.or_eq_false_iff, Bool.or_eq_false_iff] at h
    obtain ⟨⟨-, hfile⟩, hrest⟩ := h
    rintro ⟨pre, hne, hpre, hmanifest⟩
    obtain ⟨first, rest, rfl⟩ := List.exists_cons_of_ne_nil hne
    obtain ⟨rfl, hrestPre⟩ := List.cons_prefix_cons.1 hpre
    rw [List.append_cons start] at hmanifest
    cases rest with
    | nil =>
      rw [List.append_nil, List.append_assoc, List.singleton_append, hfile] at hmanifest
      cases hmanifest
    | cons second rest => exact ih hrest ⟨second :: rest, by simp, hrestPre, hmanifest⟩

variable {l : Loader} {patterns : List String} {packages : List Package} {package : Package}

/-- **A package belongs to the module in which its pattern begins.** It is the module of the loader
exactly if no other manifest lies at or above the directory of the pattern, below the root. -/
theorem load_nearestModule {d : Disk} {directory : DiskPath} {target : Target} (hd : d.Proper)
    (hl : Loader.create d directory target = .ok l)
    (h : (l.load patterns).result = .ok packages) (hp : package ∈ packages) :
    ∃ spec ∈ patterns, ∃ pattern, l.patternOf spec = .ok pattern ∧
      ∃ below, d.place package.directory = d.place l.module.root ++ pattern.directory ++ below ∧
        (pattern.isRecursive = false → below = []) ∧
        nearestModule? d.tree (d.place package.directory) =
          nearestModule? d.tree (d.place l.module.root ++ pattern.directory) ∧
        (nearestModule? d.tree (d.place package.directory) = some (d.place l.module.root) ↔
          ¬HasManifestBelow d.tree (d.place l.module.root) pattern.directory) := by
  obtain ⟨hmodule, rfl, -, -⟩ := Loader.create_ok_iff.1 hl
  have hrooted := Loader.create_rooted hd hl
  obtain ⟨x, hx, hpackage⟩ := (hrooted.load_ok h).2.2.2.mem package hp
  have hplain := hx.isPlain hrooted
  obtain ⟨spec, hspec, pattern, hpattern, hx⟩ := hx
  -- What lies below the beginning of the pattern has been walked to.
  obtain ⟨below, rfl, hsingle, hbelow⟩ : ∃ below, x = pattern.directory ++ below ∧
      (pattern.isRecursive = false → below = []) ∧
      ¬HasManifestBelow l.disk.tree (l.base ++ pattern.directory) below := by
    rw [selection, List.mem_cons] at hx
    rcases hx with rfl | hx
    · exact ⟨[], by simp, fun _ => rfl, not_hasManifestBelow_of_walk rfl⟩
    · split at hx
      · next hrec =>
        obtain ⟨below, hbelow, rfl⟩ := List.mem_map.1 hx
        refine ⟨below, rfl, fun hno => ?_, not_hasManifestBelow_of_walk (mem_walk.1 hbelow).2.2⟩
        rw [hrec] at hno
        cases hno
      · cases hx
  have hplace : l.disk.place package.directory = l.base ++ pattern.directory ++ below := by
    rw [(path_of_packageIn hpackage).2.1, place_directoryAt hrooted hplain, List.append_assoc]
  have hnearest : nearestModule? l.disk.tree (l.disk.place package.directory) =
      nearestModule? l.disk.tree (l.base ++ pattern.directory) := by
    rw [hplace, nearestModule?_append hbelow]
  refine ⟨spec, hspec, pattern, hpattern, below, hplace, hsingle, hnearest, ?_⟩
  rw [hnearest]
  exact nearestModule?_eq_iff (isFileAt_iff.2 (GoModule.manifest_root hd hmodule).2)

end Understudy.Modules.Loader

namespace Understudy.Job

open Files DiskPath Modules Loader

/-! ## A module in a module -/

/-- The tree of the sample with another module in it. -/
def nestedTree : FileTree :=
  ((sampleDisk.tree.put [.ofText "nested"] .directory).put [.ofText "nested", .ofText "go.mod"]
    (.file "module n\n".toUTF8)).put [.ofText "nested", .ofText "b.go"]
      (.file "package q\n".toUTF8)

/-- The loader of the module around it. -/
def nestedLoader : Loader := sampleLoader.onTree nestedTree

theorem nestedTree_grown : nestedTree.WellFormed ∧ FileTree.Grows sampleDisk.tree nestedTree := by
  have hdirectory := sampleDisk_sound.tree.put (l := []) (e := .directory)
    (show IsPlain (.ofText "nested") by decide) rfl (Or.inl rfl)
  have hmod := hdirectory.put (l := [.ofText "nested"]) (e := .file "module n\n".toUTF8)
    (show IsPlain (.ofText "go.mod") by decide) rfl (Or.inr nofun)
  refine ⟨hmod.put (l := [.ofText "nested"]) (show IsPlain (.ofText "b.go") by decide) rfl (Or.inr nofun), ?_⟩
  exact ((FileTree.put_grows (l := [.ofText "nested"]) rfl _).trans
    (FileTree.put_grows (l := [.ofText "nested", .ofText "go.mod"]) rfl _)).trans
      (FileTree.put_grows (l := [.ofText "nested", .ofText "b.go"]) rfl _)

theorem nestedLoader_created :
    Loader.create (sampleDisk.withTree nestedTree) ⟨"."⟩ .default = .ok nestedLoader := by
  have hcreated : sampleJob.loader sampleDisk = .ok sampleLoader := sampleLoader_created
  exact loader_again sampleDisk_sound nestedTree_grown.1 nestedTree_grown.2 hcreated
    (keepsModule_sample rfl)

/-- **A single directory is loaded from another module**: the package that is called `m/nested`
belongs to the module of its own manifest. -/
theorem load_nested :
    Loader.create (sampleDisk.withTree nestedTree) ⟨"."⟩ .default = .ok nestedLoader ∧
    ∃ package, (nestedLoader.load ["./nested"]).result = .ok [package] ∧
      package.path = "m/nested" ∧
      nestedLoader.disk.place nestedLoader.module.root = [] ∧
      nearestModule? nestedTree (nestedLoader.disk.place package.directory) =
        some [.ofText "nested"] ∧
      nearestManifest? nestedLoader.disk package.directory = some ⟨"/nested"⟩ := by
  have hsound : nestedLoader.Sound :=
    Loader.create_sound (sampleDisk_sound.withTree nestedTree_grown.1 nestedTree_grown.2)
      nestedLoader_created
  have hpattern : nestedLoader.patternOf "./nested" = .ok ⟨[.ofText "nested"], false⟩ := by decide
  have hnames : (nestedLoader.disk.tree.children (nestedLoader.base ++ [.ofText "nested"])).filterMap
      nestedLoader.selectedName? = ["b.go"] := by decide +kernel
  have htext : nestedLoader.disk.readText ⟨"/nested/b.go"⟩ = .ok "package q\n" := by cbv
  have hmatch : nestedLoader.target.matchesSource "package q\n" = .ok true := by cbv
  have hparse : Source.SourceFile.parse "package q\n" = .ok ⟨"q", [], [], false⟩ := by cbv
  have hpackage := Loader.packageIn_singleton hsound rfl hnames htext hmatch hparse
  refine ⟨nestedLoader_created, _, Loader.load_singleton hsound hpattern rfl rfl hpackage, ?_⟩
  have hpath : nestedLoader.importPathOf (nestedLoader.directoryAt [.ofText "nested"]) =
      "m/nested" := by
    rw [Loader.importPathOf_directoryAt hsound.rooted (by decide)]
    simp [nestedLoader, sampleLoader, Loader.onTree]
  have hdirectory : nestedLoader.directoryAt [.ofText "nested"] = ⟨"/nested"⟩ := by decide
  have hplace : nestedLoader.disk.place ⟨"/nested"⟩ = [.ofText "nested"] := by decide
  have hancestors : (⟨"/nested"⟩ : DiskPath).ancestors = [⟨"/nested"⟩, ⟨"/"⟩] := by decide
  have hreach : nestedLoader.disk.Reaches ⟨"/nested"⟩ := by
    rw [← hdirectory]
    exact (Loader.reaches_directoryAt hsound (by decide)).2 rfl
  have hfile : nestedLoader.disk.isFile ((⟨"/nested"⟩ : DiskPath).join ⟨manifestName⟩) = true :=
    (Disk.isFile_join_name_iff hsound.disk isPlain_manifestName).2
      ⟨hreach, "module n\n".toUTF8, by rw [hplace]; rfl⟩
  -- The nearest manifest, by the tree and by what the search for it does.
  refine ⟨hpath, by decide, ?_, ?_⟩
  · rw [hdirectory, hplace]
    exact nearestModule?_self rfl
  · rw [hdirectory, nearestManifest?, hancestors]
    exact List.find?_cons_of_pos hfile

/-! ## A directory beside it -/

/-- The tree with one more package, beside the module that is in it. -/
def wideTree : FileTree :=
  (nestedTree.put [.ofText "sub"] .directory).put [.ofText "sub", .ofText "c.go"]
    (.file "package r\n\nfunc () M() {}\n".toUTF8)

/-- Its loader. -/
def wideLoader : Loader := sampleLoader.onTree wideTree

/-- The package in the directory `sub`. Its method has no receiver. -/
def subPackage : Package where
  path := "m/sub"
  name := "r"
  directory := ⟨"/sub"⟩
  files := [⟨⟨"/sub/c.go"⟩, ⟨"r", [], [.func ⟨some [], "M", ⟨[], [], none⟩, some ""⟩], false⟩⟩]

theorem wideTree_grown : wideTree.WellFormed ∧ FileTree.Grows sampleDisk.tree wideTree := by
  obtain ⟨hnested, hgrows⟩ := nestedTree_grown
  have hdirectory := hnested.put (l := []) (e := .directory)
    (show IsPlain (.ofText "sub") by decide) rfl (Or.inl rfl)
  refine ⟨hdirectory.put (l := [.ofText "sub"]) (show IsPlain (.ofText "c.go") by decide) rfl
    (Or.inr nofun), ?_⟩
  exact hgrows.trans ((FileTree.put_grows (l := [.ofText "sub"]) rfl _).trans
    (FileTree.put_grows (l := [.ofText "sub", .ofText "c.go"]) rfl _))

theorem wideLoader_created :
    Loader.create (sampleDisk.withTree wideTree) ⟨"."⟩ .default = .ok wideLoader := by
  have hcreated : sampleJob.loader sampleDisk = .ok sampleLoader := sampleLoader_created
  exact loader_again sampleDisk_sound wideTree_grown.1 wideTree_grown.2 hcreated
    (keepsModule_sample rfl)

theorem wideLoader_sound : wideLoader.Sound :=
  Loader.create_sound (sampleDisk_sound.withTree wideTree_grown.1 wideTree_grown.2)
    wideLoader_created

theorem packageIn_wide_root : wideLoader.packageIn [] = .ok (some samplePackage) := by
  have hnames : (wideLoader.disk.tree.children (wideLoader.base ++ [])).filterMap
      wideLoader.selectedName? = ["a.go"] := by decide +kernel
  have htext : wideLoader.disk.readText ⟨"/a.go"⟩ = .ok "package p\n" := by cbv
  have hmatch : wideLoader.target.matchesSource "package p\n" = .ok true := by cbv
  have hparse : Source.SourceFile.parse "package p\n" = .ok ⟨"p", [], [], false⟩ := by cbv
  exact Loader.packageIn_singleton wideLoader_sound rfl hnames htext hmatch hparse

theorem packageIn_wide_sub :
    wideLoader.packageIn [.ofText "sub"] = .ok (some subPackage) := by
  have hnames : (wideLoader.disk.tree.children (wideLoader.base ++ [.ofText "sub"])).filterMap
      wideLoader.selectedName? = ["c.go"] := by decide +kernel
  have htext : wideLoader.disk.readText ⟨"/sub/c.go"⟩ =
      .ok "package r\n\nfunc () M() {}\n" := by cbv
  have hmatch : wideLoader.target.matchesSource "package r\n\nfunc () M() {}\n" = .ok true := by
    cbv
  have hparse : Source.SourceFile.parse "package r\n\nfunc () M() {}\n" =
      .ok ⟨"r", [], [.func ⟨some [], "M", ⟨[], [], none⟩, some ""⟩], false⟩ := by cbv
  have hpath : wideLoader.importPathOf (wideLoader.directoryAt [.ofText "sub"]) = "m/sub" := by
    rw [Loader.importPathOf_directoryAt wideLoader_sound.rooted (by decide)]
    simp [wideLoader, sampleLoader, Loader.onTree]
  have hpackage := Loader.packageIn_singleton wideLoader_sound rfl hnames htext hmatch hparse
  rwa [hpath] at hpackage

/-- A walk passes over the other module and comes to the directory beside it. -/
theorem selection_wide : wideLoader.selection ⟨[], true⟩ = [[], [.ofText "sub"]] := by
  have hbelow : wideLoader.disk.tree.directoriesBelow wideLoader.base =
      [[.ofText "sub"], [.ofText "nested"]] := rfl
  have hsub : isSkippedBelow wideLoader.disk.tree wideLoader.base [.ofText "sub"] = false := by decide
  have hnested : isSkippedBelow wideLoader.disk.tree wideLoader.base [.ofText "nested"] = true := by
    decide
  simp [Loader.selection, Loader.walk, hbelow, hsub, hnested]

theorem patternOf_wide : wideLoader.patternOf "./..." = .ok ⟨[], true⟩ := by decide

theorem importPathOf_wide_sub :
    wideLoader.importPathOf (wideLoader.directoryAt [.ofText "sub"]) = "m/sub" :=
  (Loader.path_of_packageIn packageIn_wide_sub).1.symm

/-- The directories of the recursive pattern bring their packages. -/
theorem visits_wide :
    (wideLoader.selection ⟨[], true⟩).foldlM wideLoader.visit [] =
      .ok [samplePackage, subPackage] := by
  rw [selection_wide]
  refine foldlM_visit_cons_ok_iff.2 ⟨[samplePackage], visit_new packageIn_wide_root nofun, ?_⟩
  refine foldlM_visit_cons_ok_iff.2 ⟨[samplePackage, subPackage],
    visit_new packageIn_wide_sub ?_, rfl⟩
  rw [importPathOf_wide_sub]
  decide

theorem load_wide : (wideLoader.load ["./..."]).result = .ok [samplePackage, subPackage] :=
  load_of_loadPatterns (loadPatterns_visits wideLoader_sound patternOf_wide rfl visits_wide rfl)
    (by simp) (by decide)

/-- A recursive pattern that begins at the root loads packages of the module only. -/
theorem load_nearestModule_sample :
    Loader.create (sampleDisk.withTree wideTree) ⟨"."⟩ .default = .ok wideLoader ∧
    (wideLoader.load ["./..."]).result = .ok [samplePackage, subPackage] ∧
    nearestModule? wideTree [.ofText "nested"] = some [.ofText "nested"] ∧
    ∀ p ∈ [samplePackage, subPackage],
      nearestModule? wideTree ((sampleDisk.withTree wideTree).place p.directory) =
        some ((sampleDisk.withTree wideTree).place wideLoader.module.root) := by
  refine ⟨wideLoader_created, load_wide, nearestModule?_self rfl, fun p hp => ?_⟩
  obtain ⟨spec, hspec, pattern, hpattern, -, -, -, -, hiff⟩ := load_nearestModule
    (sampleDisk_sound.withTree wideTree_grown.1 wideTree_grown.2).proper wideLoader_created
    load_wide hp
  refine hiff.2 ?_
  obtain rfl := List.mem_singleton.1 hspec
  cases patternOf_wide.symm.trans hpattern
  rintro ⟨pre, hne, hpre, -⟩
  exact hne (List.prefix_nil.1 hpre)

end Understudy.Job

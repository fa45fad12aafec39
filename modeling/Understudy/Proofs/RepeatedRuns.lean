import Mathlib
import Understudy.Proofs.RenderedFiles

/-!
# Generating again

A second generation reads the disk that the first one left behind. It finds the same packages if the
first one left alone what a generation reads: the places where the module is looked for, and the
directories that the patterns select (`generate_again`). It then writes the same texts to the places
that hold them already.
-/

set_option autoImplicit false

namespace Understudy.Job

open Files DiskPath Modules OutputFile

variable {job : Job} {disk d d' : Disk} {installed : Option Stub.Tool} {patterns : List String}
variable {l : Loader} {packages : List Package} {files : List (String × OutputFile)}
variable {t t₁ : FileTree} {formatter : Stub.Formatter} {policy : Stub.ImportPolicy}

/-- **The same module is found** if it is left alone. -/
theorem loader_again (hd : disk.Sound) (hwf : t.WellFormed) (hgrows : FileTree.Grows disk.tree t)
    (hl : job.loader disk = .ok l)
    (hkeeps : ∀ start, disk.absolute job.input = .ok start →
      KeepsModule disk (disk.withTree t) start l.module.root) :
    job.loader (disk.withTree t) = .ok (l.onTree t) := by
  obtain ⟨hdiscover, hdisk, htarget, start, hstart, hcwd⟩ := Loader.create_ok_iff.1 hl
  have hagain := GoModule.discover_again hd hwf hgrows hdiscover hkeeps
  refine Loader.create_ok_iff.2 ⟨hagain, ?_, htarget, start, hstart, hcwd⟩
  rw [Loader.onTree_disk, hdisk]

/-- A directory that is selected before the stubs are written is selected with them. -/
theorem selects_with_stubs (hd : d.Sound) (hdisk : l.disk = d) {written : List OutputFile}
    (hstubs : ∀ f ∈ written, ∀ x, d.place f.path ≠ x ++ [manifestName])
    (h : WritesAll d written t) {x : Location} (hx : l.Selects patterns x) :
    (l.onTree t).Selects patterns x := by
  subst hdisk
  rcases hx.grown_or h.grows with hx' | ⟨place, -, hold, hnew⟩
  · exact hx'
  · obtain ⟨b, hb⟩ := Loader.isFileAt_iff.1 hnew
    rcases h.file_cases hb with hb | ⟨f, hf, hplace⟩
    · rw [Loader.isFileAt_iff.2 ⟨b, hb⟩] at hold
      cases hold
    · exact absurd hplace.symm (hstubs f hf place)

/-- **The packages are the same with their stubs** if no stub is a source file of a selected
directory. -/
theorem load_with_stubs (hl : l.Sound) {written : List OutputFile}
    (hstubs : ∀ f ∈ written, ∀ x, l.disk.place f.path ≠ x ++ [manifestName])
    (h : WritesAll l.disk written t) (hwf : t₁.WellFormed) (hsame : ∀ x, t₁.get? x = t.get? x)
    (hapart : ∀ f ∈ written, ∀ x, (l.onTree t).Selects patterns x → ∀ name,
      l.isSelectedName name = true → l.disk.place f.path ≠ l.base ++ x ++ [.ofText name])
    (hload : (l.load patterns).result = .ok packages) :
    ((l.onTree t₁).load patterns).result = .ok packages := by
  have hgrows : FileTree.Grows l.disk.tree t₁ :=
    ⟨fun x hx => (hsame x).trans (h.grows.directory x hx),
      fun x b hx => by simpa only [hsame] using h.grows.file x b hx⟩
  have hback : FileTree.Grows t t₁ :=
    ⟨fun x hx => (hsame x).trans hx, fun x b hx => ⟨b, (hsame x).trans hx⟩⟩
  have hstarts := (Loader.begins_iff hl).1 (hl.rooted.load_ok hload).1
  refine Loader.load_grown hl hwf hgrows ?_ ?_ hload
  · intro x hx
    have hx' : (l.onTree t).Selects patterns x := by
      rcases hx with hx | hx
      · exact selects_with_stubs hl.disk rfl hstubs h hx
      · -- The trees hold the same, so they select the same.
        have hstarts₁ : (l.onTree t₁).Starts patterns := by
          intro spec hspec
          obtain ⟨pattern, hpattern, hstart⟩ := hstarts spec hspec
          exact ⟨pattern, hpattern, hgrows.directory _ hstart⟩
        have hdir := hx.directory hstarts₁
        refine Loader.Selects.of_grown (l := l.onTree t) (t := t₁) hback hx ?_
        rw [← hdir]
        exact (hsame _).symm
    intro name hname b
    rw [hsame]
    constructor
    · intro hb
      rcases h.file_cases hb with hb | ⟨f, hf, hplace⟩
      · exact hb
      · exact absurd hplace.symm (hapart f hf x hx' name hname)
    · intro hb
      obtain ⟨b', hb'⟩ := h.grows.file _ b hb
      rcases h.file_cases hb' with hold | ⟨f, hf, hplace⟩
      · rw [hb', ← hold, hb]
      · exact absurd hplace.symm (hapart f hf x hx' name hname)
  · intro place x p _ _ _ hnew
    obtain ⟨b, hb⟩ := Loader.isFileAt_iff.1 hnew
    rw [hsame] at hb
    rcases h.file_cases hb with hb | ⟨f, hf, hplace⟩
    · exact Loader.isFileAt_iff.2 ⟨b, hb⟩
    · exact absurd hplace.symm (hstubs f hf place)

/-- **Generating again** writes the same files and changes nothing, if the first run left alone what
a run reads. -/
theorem generate_again {w : List DiskPath} (hd : disk.Sound) (hl : job.loader disk = .ok l)
    (h : (job.generate disk installed patterns).Ends w d')
    (hkeeps : ∀ start, disk.absolute job.input = .ok start →
      KeepsModule disk d' start l.module.root)
    (hapart : ∀ path ∈ w, ∀ x, ({ l with disk := d' } : Loader).Selects patterns x → ∀ name,
      l.isSelectedName name = true → disk.place path ≠ l.base ++ x ++ [.ofText name]) :
    ∃ t, (job.generate d' installed patterns).Ends w (d'.withTree t) ∧
      ∀ x, t.get? x = d'.tree.get? x := by
  obtain ⟨t₁, packages, formatter, files, t, ht₁, hload, hformatter, hstubs, hword, ht, rfl, rfl⟩ :=
    generate_spec hd hl h
  have hdisk : l.disk = disk := (Loader.create_ok_iff.1 hl).2.1
  have hnamed := job.isNamed_manifests l.module.manifest
  have hnamedStubs := isNamed_stubFiles hword hstubs
  have hpaths := (paths_of_stubFiles hstubs).2
  have hsound₁ : (l.onTree t₁).Sound :=
    (loader_sound hd hl).onTree ht₁.wellFormed (by rw [hdisk]; exact ht₁.grows)
  have hgrows := ht₁.grows.trans ht.grows
  have hstubPlace : ∀ f ∈ files.map Prod.snd, ∀ x, disk.place f.path ≠ x ++ [manifestName] :=
    fun f hf x => place_stub_ne hd.proper (stub_of_mem hword hpaths f hf) x
  have hd₂ := hd.withTree ht.wellFormed hgrows
  have hloader := loader_again hd ht.wellFormed hgrows hl hkeeps
  -- The manifest is there already.
  obtain ⟨t₂, hfirst₂, hwf₂, hsame₂⟩ : ∃ t₂, (writeAll (job.manifests l.module.manifest)
      (disk.withTree t)).Ends ((job.manifests l.module.manifest).map OutputFile.path)
        ((disk.withTree t).withTree t₂) ∧ t₂.WellFormed ∧ ∀ x, t₂.get? x = t.get? x := by
    refine writeAll_again hd₂ hnamed (fun f hf x hx => ?_) (fun x e he => ?_)
    · exact ht.grows.directory x (ht₁.ways f hf x hx)
    · rw [lastAt_withTree] at he
      obtain ⟨f, hf, hplace, -⟩ := lastAt_file he
      have hx : x = job.manifestPlace disk l.module.manifest ++ [manifestName] := by
        rw [manifests] at hf
        split at hf
        · rw [hplace, List.mem_singleton.1 hf, place_manifestFile hd]
        · cases hf
      have hnone : lastAt (disk.withTree t₁) x (files.map Prod.snd) = none :=
        lastAt_eq_none fun g hg heq => hstubPlace g hg _ (heq.symm.trans hx)
      rw [Disk.withTree_tree, ht.get, hnone, Option.none_or, Disk.withTree_tree, ht₁.get, he,
        Option.some_or, Option.some_or]
  rw [withTree_withTree] at hfirst₂
  have hgrows₂ : FileTree.Grows disk.tree t₂ :=
    ⟨fun x hx => (hsame₂ x).trans (hgrows.directory x hx),
      fun x b hx => by simpa only [hsame₂] using hgrows.file x b hx⟩
  have hd₃ := hd.withTree hwf₂ hgrows₂
  -- The packages are the same.
  have hload₂ : ((l.onTree t₂).load patterns).result = .ok packages := by
    have hwritten : WritesAll (l.onTree t₁).disk (files.map Prod.snd) t := by
      rw [Loader.onTree_disk, hdisk]
      exact ht
    refine load_with_stubs (l := l.onTree t₁) hsound₁ (fun f hf x => ?_) hwritten hwf₂ hsame₂
      (fun f hf x hx name hname => ?_) hload
    · rw [Loader.onTree_disk, hdisk]
      exact hstubPlace f hf x
    · rw [loader_onTree hl] at hapart
      rw [Loader.onTree_disk, hdisk]
      refine hapart f.path (List.mem_append_right _ ?_) x hx name hname
      obtain ⟨pair, hpair, rfl⟩ := List.mem_map.1 hf
      rw [← hpaths]
      exact List.mem_map.2 ⟨pair, hpair, rfl⟩
  -- The stubs are there already.
  obtain ⟨t₃, hrest₃, -, hsame₃⟩ : ∃ t₃, (writeAll (files.map Prod.snd) (disk.withTree t₂)).Ends
      ((files.map Prod.snd).map OutputFile.path) ((disk.withTree t₂).withTree t₃) ∧
        t₃.WellFormed ∧ ∀ x, t₃.get? x = t₂.get? x := by
    refine writeAll_again hd₃ hnamedStubs (fun f hf x hx => ?_) (fun x e he => ?_)
    · rw [Disk.withTree_tree, hsame₂]
      exact ht.ways f hf x hx
    · rw [lastAt_withTree] at he
      rw [Disk.withTree_tree, hsame₂, ht.get, lastAt_withTree, he, Option.some_or]
  refine ⟨t₃, generate_ends.2 ⟨l.onTree t, hloader, _, _, hfirst₂, files,
    ⟨packages, formatter, ?_, hformatter, hstubs⟩, _, hrest₃, ?_⟩, fun x => ?_⟩
  · have htree : ({ l.onTree t with disk := disk.withTree t₂ } : Loader) = l.onTree t₂ :=
      loader_onTree hl t₂
    rwa [htree]
  · rw [← hpaths, List.map_map]
    rfl
  · rw [hsame₃, hsame₂, Disk.withTree_tree]

/-- The module of the sample is found again if its manifest is left alone. -/
theorem keepsModule_sample (h : t.get? [.ofText "go.mod"] = sampleDisk.tree.get? [.ofText "go.mod"]) :
    ∀ start, sampleDisk.absolute ⟨"."⟩ = .ok start →
      KeepsModule sampleDisk (sampleDisk.withTree t) start ⟨"/"⟩ := by
  have habs : sampleDisk.absolute ⟨"."⟩ = .ok ⟨"/"⟩ := by decide
  have hway : sampleDisk.onTheWay ⟨"/"⟩ = [] := by decide
  have hsearched : searched ⟨"/"⟩ ⟨"/"⟩ = [⟨"/"⟩] := by decide
  intro start hstart
  rw [habs] at hstart
  cases hstart
  refine ⟨by simp [hway], fun a ha => ?_⟩
  rw [hsearched] at ha
  rw [List.mem_singleton.1 ha]
  exact h

theorem generate_again_sample : ∃ d' t,
    (sampleJob.generate sampleDisk none ["."]).Ends [⟨"out/m/go.mod"⟩, ⟨"out/m/p.go"⟩] d' ∧
      (sampleJob.generate d' none ["."]).Ends [⟨"out/m/go.mod"⟩, ⟨"out/m/p.go"⟩] (d'.withTree t) ∧
        ∀ x, t.get? x = d'.tree.get? x := by
  have hcreated : sampleJob.loader sampleDisk = .ok sampleLoader := sampleLoader_created
  obtain ⟨t₁, t, ht₁, ht, hends⟩ := generate_writes sampleDisk_sound hcreated stubs_sampleJob
    compatible_sampleDisk fun _ => Or.inr fun _ _ _ _ => not_hides_of_plain patternOf_dot
  have hpaths : ((sampleJob.manifests sampleLoader.module.manifest).map OutputFile.path ++
      [("m", (⟨⟨"out/m/p.go"⟩, sampleText⟩ : OutputFile))].map fun f => f.2.path) =
        [⟨"out/m/go.mod"⟩, ⟨"out/m/p.go"⟩] := by decide
  rw [hpaths] at hends
  have hplaces : ∀ path ∈ [(⟨"out/m/go.mod"⟩ : DiskPath), ⟨"out/m/p.go"⟩],
      (sampleDisk.place path).length = 3 := by decide
  have hmod : t.get? [.ofText "go.mod"] = some (.file "module m\n".toUTF8) := by
    have hstubs : ∀ f ∈ [(⟨⟨"out/m/p.go"⟩, sampleText⟩ : OutputFile)],
        [.ofText "go.mod"] ≠ sampleDisk.place f.path := by decide
    have hmanifests : ∀ f ∈ sampleJob.manifests ⟨"m", none⟩,
        [.ofText "go.mod"] ≠ sampleDisk.place f.path := by decide
    exact ht.keeps hstubs (ht₁.keeps hmanifests rfl)
  refine ⟨sampleDisk.withTree t, (generate_again sampleDisk_sound hcreated hends
    (keepsModule_sample hmod) ?_).imp fun t h => ⟨hends, h⟩⟩
  rintro path hpath x ⟨spec, hspec, pattern, hpattern, hx⟩ name hname he
  rw [List.mem_singleton.1 hspec] at hpattern
  cases patternOf_dot.symm.trans hpattern
  obtain rfl : x = [] := by simpa [Loader.selection] using hx
  have hlength := hplaces path hpath
  rw [he] at hlength
  cases hlength

/-- A job that writes next to what it reads. -/
def spillingJob : Job := { sampleJob with output := ⟨""⟩, writesManifest := false }

/-- The tree of the sample with the stub of its package next to it. -/
def Spilled (t : FileTree) : Prop :=
  t.WellFormed ∧ FileTree.Grows sampleDisk.tree t ∧ ∀ x, t.get? x =
    (if x = [.ofText "m", .ofText "p.go"] then some (.file sampleText.toUTF8) else none).or
      ((sampleDisk.tree.get? x).or (if x = [.ofText "m"] then some .directory else none))

theorem base_sampleLoader : sampleLoader.base = [] := by decide

/-- The stub is a package of its own. -/
theorem packageIn_spilled (ht : Spilled t) :
    ∃ package, (sampleLoader.onTree t).packageIn [.ofText "m"] = .ok (some package) := by
  obtain ⟨hwf, hgrows, hget⟩ := ht
  have hsound : (sampleLoader.onTree t).Sound :=
    (Loader.create_sound sampleDisk_sound sampleLoader_created).onTree hwf hgrows
  have hbase : (sampleLoader.onTree t).base ++ [.ofText "m"] = [.ofText "m"] := by
    rw [Loader.onTree_base, base_sampleLoader, List.nil_append]
  have hdir : (sampleLoader.onTree t).disk.tree.get? ((sampleLoader.onTree t).base ++ [.ofText "m"]) =
      some .directory := by
    rw [hbase, Loader.onTree_disk, Disk.withTree_tree,
        hget]
    rfl
  have hselected : sampleLoader.isSelectedName "p.go" = true := by decide +kernel
  -- The directory holds the stub and nothing else.
  have hnames : (sampleLoader.onTree t).selectedNames (t.children [.ofText "m"]) = ["p.go"] := by
    refine List.perm_singleton.1 ((List.perm_ext_iff_of_nodup (Loader.nodup_selectedNames _ t _)
      (List.nodup_singleton _)).2 fun name => ?_)
    rw [Loader.mem_selectedNames, List.mem_singleton, List.singleton_append, hget]
    have hnone : sampleDisk.tree.get? [.ofText "m", .ofText name] = none := rfl
    constructor
    · rintro ⟨-, b, hb⟩
      by_contra hne
      rw [if_neg (by simpa using hne), hnone, if_neg (by simp)] at hb
      cases hb
    · rintro rfl
      exact ⟨hselected, _, rfl⟩
  have hplain : ∀ name ∈ [RawText.ofText "m"], IsPlain name := by decide
  have hreach := (Loader.reaches_directoryAt hsound hplain).2 hdir
  have htext : (sampleLoader.onTree t).disk.readText
      (((sampleLoader.onTree t).directoryAt [.ofText "m"]).join ⟨"p.go"⟩) = .ok sampleText := by
    have hchild : (sampleLoader.onTree t).disk.tree.get? ((sampleLoader.onTree t).disk.place
        ((sampleLoader.onTree t).directoryAt [.ofText "m"]) ++ [.ofText "p.go"]) =
          some (.file sampleText.toUTF8) := by
      rw [Loader.place_directoryAt hsound.rooted hplain, hbase, Loader.onTree_disk, Disk.withTree_tree,
        hget]
      rfl
    rw [Disk.readText_join_name hsound.disk.proper (Disk.refusal?_none hsound.disk _) hreach
      (by decide) hchild, fromUTF8?_toUTF8]
  have hmatch : (sampleLoader.onTree t).target.matchesSource sampleText = .ok true := by
    have hdefault : Target.default.matchesSource sampleText = .ok true := by cbv
    exact hdefault
  have hparse : Source.SourceFile.parse sampleText =
      .ok ⟨"p", [], [.type [⟨"Embedme", [], false, .interface []⟩]], false⟩ := by cbv
  rw [Loader.packageIn_eq hsound hdir, hbase, Loader.onTree_disk, Disk.withTree_tree, hnames,
    Loader.loadFiles_singleton (Loader.readSource_ok htext hmatch hparse)]
  exact ⟨_, rfl⟩

theorem selects_spilled (ht : Spilled t)
    (hpattern : sampleLoader.patternOf "./..." = .ok ⟨[], true⟩) :
    (sampleLoader.onTree t).Selects ["./..."] [.ofText "m"] := by
  have hget := ht.2.2
  refine ⟨"./...", by simp, ⟨[], true⟩, hpattern, List.mem_cons_of_mem _ ?_⟩
  rw [if_pos rfl]
  refine List.mem_map.2 ⟨[.ofText "m"], Loader.mem_walk.2 ⟨by simp, ?_, ?_⟩, rfl⟩
  · rw [Loader.onTree_base, base_sampleLoader, Loader.onTree_disk, Disk.withTree_tree,
        hget]
    rfl
  · rw [Loader.onTree_base, base_sampleLoader, Loader.onTree_disk, Disk.withTree_tree]
    have hname : Loader.isSkippedName "m" = false := by decide
    have hmod : t.get? [.ofText "m", manifestName] = none := by
      rw [hget]
      rfl
    simp [Loader.isSkippedBelow, hname, Loader.isFileAt, hmod]

theorem spilled_of_writesAll {t₁ : FileTree} (ht₁ : WritesAll sampleDisk [] t₁)
    (ht : WritesAll (sampleDisk.withTree t₁) [⟨⟨"m/p.go"⟩, sampleText⟩] t) : Spilled t := by
  refine ⟨ht.wellFormed, ht₁.grows.trans ht.grows, fun x => ?_⟩
  have hplace : sampleDisk.place ⟨"m/p.go"⟩ = [.ofText "m", .ofText "p.go"] := by decide
  have hway : OutputFile.way ⟨⟨"m/p.go"⟩, sampleText⟩ sampleDisk = [[.ofText "m"]] := by decide
  rw [ht.get, Disk.withTree_tree, ht₁.get]
  simp only [lastAt, directoryAt, entryAt, way_withTree, hway, Disk.withTree_place, hplace,
    Option.none_or, Option.or_none, List.contains_iff_mem, List.mem_singleton]

/-- A second run reads the stubs that the first one has left in the module. -/
theorem generate_again_spilling : ∃ d',
    (spillingJob.generate sampleDisk none ["./..."]).Ends [⟨"m/p.go"⟩] d' ∧
      ¬∃ d'', (spillingJob.generate d' none ["./..."]).Ends [⟨"m/p.go"⟩] d'' := by
  have hpattern : sampleLoader.patternOf "./..." = .ok ⟨[], true⟩ := by decide
  have hpath : spillingJob.outputPath samplePackage = ⟨"m/p.go"⟩ := by decide
  have hstubs := stubs_sampleLoader spillingJob rfl rfl rfl hpattern
  rw [hpath] at hstubs
  have hcompatible : Compatible sampleDisk [⟨⟨"m/p.go"⟩, sampleText⟩] := by
    have hway : OutputFile.way ⟨⟨"m/p.go"⟩, sampleText⟩ sampleDisk = [[.ofText "m"]] := by decide
    have hplace : sampleDisk.place ⟨"m/p.go"⟩ = [.ofText "m", .ofText "p.go"] := by decide
    refine ⟨List.forall_mem_singleton.2 fun x hx => ?_, List.forall_mem_singleton.2 ?_⟩
    · rw [hway] at hx
      rw [List.mem_singleton.1 hx]
      exact ⟨fun b => nofun, List.forall_mem_singleton.2 (by rw [hplace]; decide)⟩
    · rw [hplace]
      nofun
  have hcreated : spillingJob.loader sampleDisk = .ok sampleLoader := sampleLoader_created
  obtain ⟨t₁, t, ht₁, ht, hends⟩ := generate_writes sampleDisk_sound hcreated hstubs
    hcompatible nofun
  have hspilled := spilled_of_writesAll ht₁ ht
  refine ⟨_, hends, ?_⟩
  rintro ⟨d'', hagain⟩
  have hmod : t.get? [.ofText "go.mod"] = sampleDisk.tree.get? [.ofText "go.mod"] := by
    rw [hspilled.2.2]
    rfl
  have hloader : spillingJob.loader (sampleDisk.withTree t) = .ok (sampleLoader.onTree t) :=
    loader_again sampleDisk_sound hspilled.1 hspilled.2.1 sampleLoader_created
      (keepsModule_sample hmod)
  obtain ⟨t₂, packages, -, -, -, ht₂, hload, -, -, hword, -, -, hwritten⟩ := generate_spec
    (sampleDisk_sound.withTree hspilled.1 hspilled.2.1) hloader hagain
  have hspilled₂ : Spilled t₂ := by
    refine ⟨ht₂.wellFormed, hspilled.2.1.trans ht₂.grows, fun x => ?_⟩
    have hget : t₂.get? x = (t.get? x).or none := ht₂.get x
    rw [hget, Option.or_none, hspilled.2.2]
  have hsound : (sampleLoader.onTree t₂).Sound :=
    (Loader.create_sound sampleDisk_sound sampleLoader_created).onTree hspilled₂.1 hspilled₂.2.1
  have himport : (sampleLoader.onTree t₂).importPathOf
      ((sampleLoader.onTree t₂).directoryAt [.ofText "m"]) = "m/m" := by
    rw [Loader.importPathOf_directoryAt hsound.rooted (by decide)]
    simp [sampleLoader, Loader.onTree]
  obtain ⟨package, hmem, hpath₂⟩ : ∃ p ∈ packages, p.path = "m/m" := by
    rw [← himport]
    refine ((hsound.rooted.load_ok hload).2.2.2.covers _
      (selects_spilled hspilled₂ hpattern)).resolve_right fun hnone => ?_
    obtain ⟨package, hpackage⟩ := packageIn_spilled hspilled₂
    rw [hpackage] at hnone
    cases hnone
  have hin : spillingJob.outputPath package ∈ [(⟨"m/p.go"⟩ : DiskPath)] := by
    rw [hwritten]
    exact List.mem_map_of_mem hmem
  -- The second run has an output for `m/m` too, which lies one step deeper.
  have hlength := congrArg List.length
    (congrArg DiskPath.components (List.mem_singleton.1 hin))
  have hcomponents : (spillingJob.output.join ⟨"m/m"⟩).components.length = 2 ∧
      (⟨"m/p.go"⟩ : DiskPath).components.length = 2 := by decide
  rw [outputPath, hpath₂, components_join_name _
    (isPlain_fileName (no_slash_of_isWord (hword package hmem))), List.length_append,
    hcomponents.1, hcomponents.2] at hlength
  cases hlength

end Understudy.Job
